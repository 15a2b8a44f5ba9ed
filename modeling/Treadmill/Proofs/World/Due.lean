import Mathlib
import Treadmill.Proofs.World.Order

/-!
Delayed messages wait until they are due and come in due order, those due at one time in the order in
which they were sent (`Course.punctual`). The clock may show what it likes.
-/

namespace Treadmill

namespace Agenda
variable {L : Layout} {timers : List (Timer L)}

/-- Among timers in order those that are due stand in front. -/
theorem takeWhile_isDue (reading : Moment) (sorted : timers.Pairwise Timer.Before) :
    timers.takeWhile (Timer.isDue reading) = timers.filter (Timer.isDue reading) ∧
      timers.dropWhile (Timer.isDue reading) = timers.filter fun x => !x.isDue reading := by
  have front : ∀ x ∈ timers.takeWhile (Timer.isDue reading), x.isDue reading = true :=
    fun x on => List.mem_takeWhile_imp on
  have back : ∀ x ∈ timers.dropWhile (Timer.isDue reading), x.isDue reading = false := fun x on => by
    simpa [Timer.isDue] using later_of_mem_dropWhile sorted on
  have split := List.takeWhile_append_dropWhile (p := Timer.isDue reading) (l := timers)
  constructor
  · conv_rhs => rw [← split]
    rw [List.filter_append, List.filter_eq_self.mpr front,
      List.filter_eq_nil_iff.mpr fun x on => by simp [back x on], List.append_nil]
  · conv_rhs => rw [← split]
    rw [List.filter_append, List.filter_eq_nil_iff.mpr fun x on => by simp [front x on],
      List.filter_eq_self.mpr fun x on => by simp [back x on], List.nil_append]

end Agenda

namespace World
variable {L : Layout} {α γ : Type} {p : Point L α γ} {d : Moved L α γ} {r : Record L}
  {trace : List (Moved L α γ)} {now reading : Moment} {capacity : Nat} {traced : Bool} {guest : γ}
  {journal : Journal} {x y : Timer L}

/-- A timer was there before, or it is that of the message that is being sent. -/
theorem Record.timer_of_after (on : x ∈ (r.after d).agenda.timers) :
    x ∈ r.agenda.timers ∨ ∃ delay a, x.note.stamp = r.agenda.sent ∧
      d = ⟨.call (.sendAfter delay x.note.target x.note.message), .ok a⟩ ∧
      r.agenda.now.shift delay = .ok x.due := by
  obtain ⟨m, o⟩ := d
  cases m with
  | call c =>
    cases c with
    | sendAfter delay target message =>
      simp only [after, afterDelay] at on
      split at on
      · rename_i a
        split at on
        · rename_i due shifted
          rcases List.mem_cons.mp ((Agenda.insertTimer_perm _ _).mem_iff.mp on) with rfl | old
          · exact Or.inr ⟨delay, a, rfl, rfl, shifted⟩
          · exact Or.inl old
        · exact Or.inl on
      · exact Or.inl on
      · exact Or.inl on
    | tick reading =>
      cases o with
      | ok a => exact Or.inl ((List.dropWhile_sublist _).subset on)
      | error f => exact Or.inl on
    | send | addRoot => cases o <;> exact Or.inl on
    | heap | function | aside | gatherRoots => exact Or.inl on
  | closes => cases o <;> exact Or.inl on
  | opens | drops => exact Or.inl on

/-- A timer goes only when the clock is read and shows that it is due; its message is in the mailbox
then. -/
theorem Record.timer_leaves (on : x ∈ r.agenda.timers) (off : x ∉ (r.after d).agenda.timers) :
    ∃ reading a, d = ⟨.call (.tick reading), .ok a⟩ ∧ ¬reading < x.due ∧
      x.note ∈ (r.after d).agenda.mail := by
  obtain ⟨m, o⟩ := d
  cases m with
  | call c =>
    cases c with
    | sendAfter delay target message =>
      simp only [after, afterDelay] at off
      split at off
      · split at off
        · exact absurd (List.mem_cons_of_mem _ on) fun other =>
            off ((Agenda.insertTimer_perm _ _).mem_iff.mpr other)
        · exact absurd on off
      · exact absurd on off
      · exact absurd on off
    | tick reading =>
      cases o with
      | ok a =>
        have moved : x ∈ r.agenda.timers.takeWhile (Timer.isDue reading) := by
          rw [← List.takeWhile_append_dropWhile (p := Timer.isDue reading) (l := r.agenda.timers),
            List.mem_append] at on
          exact on.resolve_right off
        refine ⟨reading, a, rfl, Agenda.not_later_of_mem_takeWhile moved, ?_⟩
        exact List.mem_append_right _ (List.mem_map_of_mem moved)
      | error f => exact absurd on off
    | send | addRoot => cases o <;> exact absurd on off
    | heap | function | aside | gatherRoots => exact absurd on off
  | closes => cases o <;> exact absurd on off
  | opens | drops => exact absurd on off

/-- Where a timer comes from: it was sent at some time and is due so much later. -/
theorem Record.timer_origin (on : x ∈ (of now trace).agenda.timers) :
    ∃ earlier later delay a,
      trace = earlier ++ ⟨.call (.sendAfter delay x.note.target x.note.message), .ok a⟩ :: later ∧
      x.note.stamp = (of now earlier).agenda.sent ∧
      (of now earlier).agenda.now.shift delay = .ok x.due := by
  induction trace using List.reverseRecOn with
  | nil => cases on
  | append_singleton trace d ih =>
    rw [of_concat] at on
    rcases timer_of_after on with old | ⟨delay, a, stamp, rfl, due⟩
    · obtain ⟨earlier, later, delay, a, shape, stamp, due⟩ := ih old
      exact ⟨earlier, later ++ [d], delay, a, by simp [shape], stamp, due⟩
    · exact ⟨trace, [], delay, a, rfl, stamp, due⟩

/-- The first of two timers is taken out of the mailbox before the second. -/
theorem Record.timers_taken (first : x ∈ (of now trace).agenda.timers)
    (second : y ∈ (of now trace).agenda.timers) (before : Timer.Before x y)
    (more : List (Moved L α γ)) (taken : y.note ∈ (of now (trace ++ more)).agenda.taken) :
    [x.note, y.note].Sublist (of now (trace ++ more)).agenda.taken :=
  Agenda.taken_in_line (ordered now _)
    (((ordered now trace).timers_in_line first second before).trans (line_mono now trace more)) taken

section
variable [DecidableEq α]

/-- The timers after the trace `trace`, which has led to `p`. -/
structure Punctual (now : Moment) (trace : List (Moved L α γ)) (p : Point L α γ) : Prop where
  timers : p.world.timerList =
    (Record.of now trace).agenda.timers.map fun x => (x.due, x.note.target, x.note.message)
  mailbox : p.world.mailbox = (Record.of now trace).agenda.mail.map fun n => (n.target, n.message)
  /-- A delivery takes the message in front of the mailbox. -/
  opens : Move.Fits .opens p → ∃ n, (Record.of now trace).agenda.mail.head? = some n ∧
    p.world.mailbox.head? = some (n.target, n.message) ∧
    (Record.of now (trace ++ [p.moved .opens])).agenda.taken = (Record.of now trace).agenda.taken ++ [n]
  sorted : p.world.timerList.Pairwise fun x y => ¬y.1 < x.1
  /-- Of two timers due at the same time the one sent first stands in front. -/
  stable : (Record.of now trace).agenda.timers.Pairwise Timer.Before
  /-- A message is due so much later than the clock showed when it was sent. -/
  origin : ∀ x ∈ (Record.of now trace).agenda.timers, ∃ earlier later delay a,
    trace = earlier ++ ⟨.call (.sendAfter delay x.note.target x.note.message), .ok a⟩ :: later ∧
    x.note.stamp = (Record.of now earlier).agenda.sent ∧
    x.due.IsNormal ∧ x.due.total = (Record.of now earlier).agenda.now.total + delay
  /-- A timer goes only when a reading of the clock is not before its due time. -/
  waits : ∀ x ∈ (Record.of now trace).agenda.timers, ∀ d : Moved L α γ,
    x ∉ (Record.of now (trace ++ [d])).agenda.timers →
      ∃ reading a, d = ⟨.call (.tick reading), .ok a⟩ ∧ ¬reading < x.due ∧
        (reading.IsNormal → x.due.total ≤ reading.total) ∧
        x.note ∈ (Record.of now (trace ++ [d])).agenda.mail
  /-- A reading of the clock moves just the timers that are due. -/
  ticks : ∀ reading, Move.Fits (.call (.tick reading)) p →
    (p.moved (.call (.tick reading))).outcome ≠ .error .arenaExhausted →
      (p.after (.call (.tick reading))).world.timerList =
        p.world.timerList.filter (fun x => reading < x.1) ∧
      (p.after (.call (.tick reading))).world.mailbox = p.world.mailbox ++
        (p.world.timerList.filter fun x => !decide (reading < x.1)).map Prod.snd
  /-- Of two messages that wait at the same time the one in front is delivered first. -/
  first : ∀ x ∈ (Record.of now trace).agenda.timers, ∀ y ∈ (Record.of now trace).agenda.timers,
    Timer.Before x y → ∀ more : List (Moved L α γ),
      y.note ∈ (Record.of now (trace ++ more)).agenda.taken →
        [x.note, y.note].Sublist (Record.of now (trace ++ more)).agenda.taken

theorem Settled.ticks {b : Books L} (settled : Settled lenient r b p.world p.opened)
    (ordered : r.agenda.Ordered)
    (enough : (p.moved (.call (.tick reading))).outcome ≠ .error .arenaExhausted) :
    (p.after (.call (.tick reading))).world.timerList =
        p.world.timerList.filter (fun x => reading < x.1) ∧
      (p.after (.call (.tick reading))).world.mailbox = p.world.mailbox ++
        (p.world.timerList.filter fun x => !decide (reading < x.1)).map Prod.snd := by
  obtain ⟨verdict, b', settled'⟩ := (settled.call (.tick reading) (by simp)
    (by simp [Call.operands])).enough enough
  have verdict : (p.moved (.call (.tick reading))).outcome = .ok none := verdict
  rw [verdict] at settled'
  obtain ⟨front, back⟩ := Agenda.takeWhile_isDue reading ordered.timers
  have shows := settled.shows
  have shows' := settled'.shows
  rw [shows'.timers, shows'.mailbox, shows.timers, shows.mailbox]
  simp only [Record.after, Agenda.tick, front, back, List.filter_map, List.map_append, List.map_map]
  constructor
  · refine congrArg _ (List.filter_congr fun x _ => ?_)
    simp [Timer.isDue]
  · rfl

theorem Course.punctual
    (course : Course Proper (Point.new capacity traced now guest journal) trace p) :
    Punctual now trace p := by
  obtain ⟨b, settled⟩ := course.settled
  have ordered := Record.ordered now trace
  have shows := settled.shows
  have origin := fun x (on : x ∈ (Record.of now trace).agenda.timers) => Record.timer_origin on
  refine
    { timers := shows.timers
      mailbox := shows.mailbox
      opens := fun fits => ?_
      sorted := ?_
      stable := ordered.timers
      origin := fun x on => ?_
      waits := fun x on d off => ?_
      ticks := fun reading _ enough => settled.ticks ordered enough
      first := fun x first y second before more => Record.timers_taken first second before more }
  · obtain ⟨l, mail, -, shape⟩ := settled.front fits
    refine ⟨l.entry.note, by rw [shape]; rfl, by rw [shows.mailbox, shape]; rfl, ?_⟩
    simp [Record.of_concat, Record.after, Point.moved, Agenda.take, shape]
  · rw [shows.timers, List.pairwise_map]
    exact ordered.timers.imp Timer.Before.not_lt
  · obtain ⟨earlier, later, delay, a, shape, stamp, due⟩ := origin x on
    exact ⟨earlier, later, delay, a, shape, stamp, Moment.of_shift due⟩
  · obtain ⟨_, _, _, _, -, -, due⟩ := origin x on
    rw [Record.of_concat] at off ⊢
    obtain ⟨reading, a, same, isDue, moved⟩ := Record.timer_leaves on off
    refine ⟨reading, a, same, isDue, fun normal => ?_, moved⟩
    rw [Moment.lt_iff_total_lt normal (Moment.of_shift due).1] at isDue
    omega

end

/-- Two messages are not yet due, and the one sent first stands in front. -/
theorem errand_punctual : ∃ trace p, ∃ a : Ref .twoLow, Course Proper quiet trace p ∧
    p.world.timerList = [(⟨0, 9⟩, a, .nil), (⟨0, 9⟩, a, a)] ∧ p.world.mailbox.length = 1 ∧
    Punctual .zero trace p := by
  obtain ⟨trace, p, course, ⟨-, -, -, a, -, -, timers⟩, mail, -⟩ := errand
  exact ⟨trace, p, a, course, timers, mail, course.punctual⟩

end World

end Treadmill

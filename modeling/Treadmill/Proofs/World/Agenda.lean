import Mathlib
import Treadmill.Moment
import Treadmill.Ref

/-!
What waits in the queues of a world, told without cells. Messages bear stamps in the order in which
they are sent, so that each can be followed from the moment it is sent until it is taken out.
-/

namespace Treadmill

namespace Moment
variable {a b c : Moment}

theorem lt_iff : a < b ↔ a.s < b.s ∨ a.s = b.s ∧ a.us < b.us := by
  change a.cmp b = .lt ↔ _
  rw [cmp, Ordering.then_eq_lt, Int.compare_eq_lt, Int.compare_eq_eq, Int.compare_eq_lt]

theorem eq_iff : a = b ↔ a.s = b.s ∧ a.us = b.us := by
  obtain ⟨s, us⟩ := a
  obtain ⟨s', us'⟩ := b
  simp

theorem not_lt_iff : ¬a < b ↔ b < a ∨ b = a := by
  rw [lt_iff, lt_iff, eq_iff]
  omega

theorem lt_of_lt_of_not_lt (first : a < b) (second : ¬c < b) : a < c := by
  rw [lt_iff] at *
  omega

/-- All of a moment in microseconds. -/
def total (t : Moment) : Int := t.s * secondUs + t.us

/-- In normal form the microseconds do not make up a second. -/
def IsNormal (t : Moment) : Prop := 0 ≤ t.us ∧ t.us < secondUs

theorem lt_iff_total_lt (first : a.IsNormal) (second : b.IsNormal) : a < b ↔ a.total < b.total := by
  rw [lt_iff]
  unfold IsNormal secondUs at first second
  unfold total secondUs
  omega

/-- A shifted moment is in normal form and so many microseconds away. -/
theorem of_shift {t u : Moment} {delta : Int} (shifted : t.shift delta = .ok u) :
    u.IsNormal ∧ u.total = t.total + delta := by
  unfold shift normal addSigned at shifted
  unfold IsNormal total secondUs at *
  split at shifted
  · simp only [bind, Except.bind, pure, Except.pure] at shifted
    split at shifted
    · cases shifted
    · rename_i v carried
      split at carried
      · rw [Except.ok.injEq] at carried shifted
        subst carried
        subst shifted
        dsimp only
        omega
      · cases carried
  · cases shifted

theorem shift_error {t : Moment} {delta : Int} {f : Fault} (failed : t.shift delta = .error f) :
    f = .addOverflow := by
  unfold shift normal addSigned at failed
  split at failed
  · simp only [bind, Except.bind, pure, Except.pure] at failed
    split at failed
    · rename_i carried
      split at carried
      · cases carried
      · cases carried
        exact (Except.error.inj failed).symm
    · cases failed
  · exact (Except.error.inj failed).symm

end Moment

/-- A message on its way to an actor. Its stamp is the number of messages sent before it. -/
structure Note (L : Layout) where
  stamp : Nat
  target : Ref L
  message : Ref L

def Note.refs {L : Layout} (n : Note L) : List (Ref L) := [n.target, n.message]

/-- A message that waits until it is due. -/
structure Timer (L : Layout) where
  due : Moment
  note : Note L

/-- Timers stand in the order in which they are due, those due at one time in the order in which
they were sent. -/
def Timer.Before {L : Layout} (x y : Timer L) : Prop :=
  x.due < y.due ∨ x.due = y.due ∧ x.note.stamp < y.note.stamp

theorem Timer.Before.not_lt {L : Layout} {x y : Timer L} (before : Timer.Before x y) :
    ¬y.due < x.due := by
  rw [Moment.not_lt_iff]
  exact before.imp id And.left

/-- Whether a timer is due when the clock shows `reading`. -/
def Timer.isDue {L : Layout} (reading : Moment) (x : Timer L) : Bool := !decide (reading < x.due)

/-- The messages in the mailbox and among the timers, and those that have been taken out of the
mailbox to be delivered, in the order in which that was done. -/
structure Agenda (L : Layout) where
  taken : List (Note L)
  mail : List (Note L)
  timers : List (Timer L)
  sent : Nat
  now : Moment

namespace Agenda
variable {L : Layout} {a : Agenda L} {x y : Timer L} {n : Note L} {due reading : Moment}
  {target message : Ref L}

def empty (now : Moment) : Agenda L := ⟨[], [], [], 0, now⟩

/-- A message is sent. -/
def post (a : Agenda L) (target message : Ref L) : Agenda L :=
  { a with mail := a.mail ++ [⟨a.sent, target, message⟩], sent := a.sent + 1 }

/-- A timer takes its place in front of those that are due later. -/
def insertTimer (x : Timer L) (timers : List (Timer L)) : List (Timer L) :=
  timers.takeWhile (Timer.isDue x.due) ++ x :: timers.dropWhile (Timer.isDue x.due)

/-- A message is sent that is to wait. -/
def delay (a : Agenda L) (due : Moment) (target message : Ref L) : Agenda L :=
  { a with timers := insertTimer ⟨due, a.sent, target, message⟩ a.timers, sent := a.sent + 1 }

/-- The clock is read: timers that are due, from the first one on, move to the mailbox. -/
def tick (a : Agenda L) (reading : Moment) : Agenda L :=
  { a with
    mail := a.mail ++ (a.timers.takeWhile (Timer.isDue reading)).map Timer.note
    timers := a.timers.dropWhile (Timer.isDue reading)
    now := reading }

/-- The first message is taken out of the mailbox. -/
def take (a : Agenda L) : Agenda L :=
  { a with taken := a.taken ++ a.mail.take 1, mail := a.mail.tail }

/-- All messages in the order in which they were or will be taken out if none is sent any more. -/
def line (a : Agenda L) : List (Note L) := a.taken ++ a.mail ++ a.timers.map Timer.note

/-! ### Order -/

/-- Timers in order, with each message in its place once. -/
structure Ordered (a : Agenda L) : Prop where
  timers : a.timers.Pairwise Timer.Before
  stamps : (a.line.map Note.stamp).Perm (List.range a.sent)

theorem Ordered.stamp_lt (ordered : a.Ordered) (on : n ∈ a.line) : n.stamp < a.sent :=
  List.mem_range.mp (ordered.stamps.mem_iff.mp (List.mem_map_of_mem on))

theorem Ordered.nodup (ordered : a.Ordered) : a.line.Nodup :=
  (ordered.stamps.nodup_iff.mpr List.nodup_range).of_map _

theorem timer_line (on : x ∈ a.timers) : x.note ∈ a.line := by
  simp [line, List.mem_map_of_mem on]

theorem ordered_empty (now : Moment) : (empty now : Agenda L).Ordered := ⟨.nil, .refl _⟩

theorem Ordered.post (ordered : a.Ordered) (target message : Ref L) :
    (a.post target message).Ordered where
  timers := ordered.timers
  stamps := by
    have grown := ordered.stamps.append_right [a.sent]
    rw [← List.range_succ] at grown
    refine .trans (List.perm_iff_count.mpr fun n => ?_) grown
    simp only [line, Agenda.post, List.map_append, List.map_cons, List.map_nil, List.count_append]
    omega

theorem insertTimer_perm (x : Timer L) (timers : List (Timer L)) :
    (insertTimer x timers).Perm (x :: timers) := by
  unfold insertTimer
  refine List.perm_middle.trans ?_
  rw [List.takeWhile_append_dropWhile]

/-- The timers behind a place are due later than the one that takes it. -/
theorem later_of_mem_dropWhile {timers : List (Timer L)} (sorted : timers.Pairwise Timer.Before)
    (on : y ∈ timers.dropWhile (Timer.isDue due)) : due < y.due := by
  induction timers with
  | nil => cases on
  | cons z timers ih =>
    rw [List.pairwise_cons] at sorted
    by_cases later : due < z.due
    · rw [List.dropWhile_cons_of_neg (by simpa [Timer.isDue] using later)] at on
      rcases List.mem_cons.mp on with rfl | on
      · exact later
      · exact Moment.lt_of_lt_of_not_lt later (Timer.Before.not_lt (sorted.1 y on))
    · rw [List.dropWhile_cons_of_pos (by simpa [Timer.isDue] using later)] at on
      exact ih sorted.2 on

theorem not_later_of_mem_takeWhile {timers : List (Timer L)}
    (on : y ∈ timers.takeWhile (Timer.isDue due)) : ¬due < y.due := by
  simpa [Timer.isDue] using List.mem_takeWhile_imp on

theorem insertTimer_sorted {timers : List (Timer L)} (sorted : timers.Pairwise Timer.Before)
    (latest : ∀ y ∈ timers, y.note.stamp < x.note.stamp) :
    (insertTimer x timers).Pairwise Timer.Before := by
  have split := List.takeWhile_append_dropWhile (p := Timer.isDue x.due) (l := timers)
  have parts := sorted
  rw [← split, List.pairwise_append] at parts
  obtain ⟨front, back, across⟩ := parts
  have earlier : ∀ y ∈ timers.takeWhile (Timer.isDue x.due), Timer.Before y x :=
    fun y on => (Moment.not_lt_iff.mp (not_later_of_mem_takeWhile on)).imp id fun same =>
      ⟨same, latest y ((List.takeWhile_sublist _).subset on)⟩
  refine List.pairwise_append.mpr ⟨front, List.pairwise_cons.mpr ⟨fun y on => ?_, back⟩, ?_⟩
  · exact Or.inl (later_of_mem_dropWhile sorted on)
  · intro y on z behind
    rcases List.mem_cons.mp behind with rfl | behind
    · exact earlier y on
    · exact across y on z behind

theorem Ordered.delay (ordered : a.Ordered) (due : Moment) (target message : Ref L) :
    (a.delay due target message).Ordered where
  timers := insertTimer_sorted ordered.timers fun _ on => ordered.stamp_lt (timer_line on)
  stamps := by
    have grown := ordered.stamps.append_right [a.sent]
    rw [← List.range_succ] at grown
    refine .trans ?_ grown
    have inserted := ((insertTimer_perm ⟨due, a.sent, target, message⟩ a.timers).map Timer.note).map
      Note.stamp
    refine List.perm_iff_count.mpr fun n => ?_
    have count := inserted.count_eq n
    simp only [List.map_cons, List.count_cons] at count
    simp only [line, Agenda.delay, List.map_append, List.count_append, count, List.count_cons,
      List.count_nil]
    omega

theorem line_tick (a : Agenda L) (reading : Moment) : (a.tick reading).line = a.line := by
  have split := List.takeWhile_append_dropWhile (p := Timer.isDue reading) (l := a.timers)
  conv_rhs => rw [line, ← split]
  simp only [line, tick, List.map_append, List.append_assoc]

theorem Ordered.tick (ordered : a.Ordered) (reading : Moment) : (a.tick reading).Ordered where
  timers := ordered.timers.sublist (List.dropWhile_sublist _)
  stamps := by
    rw [line_tick]
    exact ordered.stamps

theorem line_take (a : Agenda L) : a.take.line = a.line := by
  cases shape : a.mail <;> simp [line, take, shape]

theorem Ordered.take (ordered : a.Ordered) : a.take.Ordered where
  timers := ordered.timers
  stamps := by
    rw [line_take]
    exact ordered.stamps

/-! ### Lines only grow -/

theorem line_post (a : Agenda L) (target message : Ref L) :
    a.line.Sublist (a.post target message).line :=
  .append (.append (.refl _) (List.sublist_append_left ..)) (.refl _)

theorem line_delay (a : Agenda L) (due : Moment) (target message : Ref L) :
    a.line.Sublist (a.delay due target message).line := by
  refine .append (.refl _) (List.Sublist.map _ ?_)
  conv_lhs => rw [← List.takeWhile_append_dropWhile (p := Timer.isDue due) (l := a.timers)]
  exact .append (.refl _) (List.sublist_cons_self ..)

/-- Of two messages in line the second is not taken out before the first. -/
theorem taken_in_line {m : Note L} (ordered : a.Ordered) (inLine : [m, n].Sublist a.line)
    (taken : n ∈ a.taken) : [m, n].Sublist a.taken := by
  have once := ordered.nodup
  rw [line, List.append_assoc] at inLine once
  obtain ⟨front, back, shape, first, second⟩ := List.sublist_append_iff.mp inLine
  cases back with
  | nil =>
    rw [List.append_nil] at shape
    rwa [shape]
  | cons p back =>
    have last : n ∈ p :: back := by
      have member : n ∈ (p :: back).getLast? := by
        rw [← List.getLast?_append_cons front p back, ← shape]
        rfl
      exact List.mem_of_getLast? member
    exact absurd rfl ((List.nodup_append.mp once).2.2 n taken n (second.subset last))

/-- Two timers stand in line in their order. -/
theorem Ordered.timers_in_line (ordered : a.Ordered) (first : x ∈ a.timers) (second : y ∈ a.timers)
    (before : Timer.Before x y) : [x.note, y.note].Sublist a.line := by
  have inOrder : [x, y].Sublist a.timers := by
    obtain ⟨front, back, shape⟩ := List.append_of_mem first
    have sorted := ordered.timers
    rw [shape] at second sorted ⊢
    have behind : y ∈ back := by
      rcases List.mem_append.mp second with on | on
      · have other := (List.pairwise_append.mp sorted).2.2 y on x (by simp)
        exact absurd before (by unfold Timer.Before at *; simp only [Moment.lt_iff, Moment.eq_iff] at *; omega)
      · rcases List.mem_cons.mp on with rfl | on
        · exact absurd before (by unfold Timer.Before; simp only [Moment.lt_iff]; omega)
        · exact on
    exact .trans (.cons_cons _ (List.singleton_sublist.mpr behind)) (List.sublist_append_right ..)
  exact (inOrder.map Timer.note).trans (List.sublist_append_right ..)

end Agenda

end Treadmill

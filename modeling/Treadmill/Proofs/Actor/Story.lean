import Mathlib
import Treadmill.Proofs.Actor.Turns
import Treadmill.Proofs.World.Outcome

/-!
A world between deliveries that is as a plot has it, and the lines that have been printed by then (`Ready`).
Deliveries, readings of the clock and collections lead from one such world to another.
-/

namespace Treadmill

theorem Moment.seconds_of_not_lt {now t : Moment} (late : ¬t < now) : now.s ≤ t.s := by
  by_contra before
  refine late ?_
  change (compare t.s now.s).then (compare t.us now.us) = .lt
  rw [Int.compare_eq_lt.mpr (by omega)]
  rfl

/-- No delivery is under way, and no cell has been left behind by one. -/
structure Books.Resting {L : Layout} (b : Books L) : Prop where
  held : b.held = []
  hand : b.hand = []
  lost : b.lost = []
  current : b.current = .nil

namespace Actor
open Plot (Sane)

/-- These lines show seconds that rise from line to line, and there are no more of them than there is to count. -/
def Tells (count : Int) (lines : List String) : Prop :=
  ∃ seconds : List Int, lines = seconds.map toString ∧ seconds.Pairwise (· < ·) ∧
    (seconds.length : Int) ≤ max count 0 + 1

variable {p : Plot} {count now : Int}

theorem Plot.Sane.tells (sane : p.Sane count now) : Tells count (p.lines.map toString) := by
  refine ⟨p.lines, rfl, sane.rising.sublist ?_, sane.lines_le⟩
  simp [Plot.told]

theorem Plot.deliver_lines (again : Bool) (n : Notice) :
    (p.deliver now again n).lines = p.lines ++ n.line?.toList := by
  cases n with
  | tick => simp only [Plot.deliver]; split <;> simp
  | second s => simp only [Plot.deliver]; split <;> [skip; split] <;> simp
  | line s | stop | trace => simp [Plot.deliver]

end Actor

namespace World
open Actor (Notice Plot Tells)
open Actor.Plot (Sane)
variable {L : Layout} {α γ : Type} {k : Cast L} {there : Part → Prop} {p q : Plot} {c c' : Chart L} {b b' : Books L}
  {w u : World L α γ} {s v : Logged (World L α γ)} {n : Notice} {rest : List Notice} {note : Note L} {a : Ref L}
  {i j : Nat} {x : Part} {known known' : Behavior α} {held held' : Ref L} {count : Int} {now reading : Moment}
  {d : Opened L α} {e : Entry L}

/-- Between deliveries the world is as the plot has it, and the lines of the plot have been printed. -/
structure Ready (k : Cast L) (there : Part → Prop) (count : Int) (p : Plot) (c : Chart L) (b : Books L)
    (s : Logged (World L α γ)) : Prop where
  charted : Charted c b s.state
  staged : Staged k there p c b s.state
  sane : p.Sane count b.now.s
  resting : b.Resting
  lines : s.journal.lines = p.lines.map toString

/-- What leads from one world to the next: the two stay, or whichever has retired by then had done so before. -/
structure Moves (k : Cast L) (there : Part → Prop) (count : Int) (p q : Plot) (c : Chart L) (b : Books L)
    (u : Logged (World L α γ)) : Prop where
  ready : Ready k (fun x => there x ∧ u.state.heap.Collectable (k.cell x)) count q c b u
  spares : (∀ x, there x → u.state.heap.Collectable (k.cell x)) ∨ ∀ x, Over q x → Over p x

theorem Ready.tells (ready : Ready k there count p c b s) : Tells count s.journal.lines :=
  ready.lines ▸ ready.sane.tells

theorem Ready.alert (ready : Ready k there count p c b s) (running : p.running = true) :
    s.state.heap.Plain k.message :=
  (ready.staged.alert ready.charted ready.sane running).2

/-- The two are there still. -/
theorem Ready.moves (ready : Ready k there count q c b s) (p : Plot) : Moves k there count p q c b s := by
  have on : ∀ x, there x → s.state.heap.Collectable (k.cell x) := fun x is => (ready.staged.own x is).1
  have same : (fun x => there x ∧ s.state.heap.Collectable (k.cell x)) = there :=
    funext fun x => propext ⟨And.left, fun is => ⟨is, on x is⟩⟩
  exact ⟨by rwa [same], Or.inl on⟩

/-! ### Deliveries -/

theorem Serving.unique (serving : Serving c w a i known held) (serving' : Serving c w a j known' held') :
    known = known' := by
  obtain rfl : i = j := Option.some.inj (serving.target.symm.trans serving'.target)
  obtain ⟨f, holds, means⟩ := serving.holds
  obtain ⟨g, holds', means'⟩ := serving'.holds
  obtain ⟨rfl, -⟩ := Prod.mk.inj (holds.symm.trans holds')
  exact means.same means'

theorem Playing.serving (playing : Playing k c w p x) :
    ∃ known held, Serving c w (k.actor x) (k.cell x) known held := by
  have ticking : ∀ {last shown running}, Ticking k c w last shown running →
      ∃ known held, Serving c w (k.actor .ticker) (k.cell .ticker) known held := by
    rintro _ _ _ (⟨serving, -⟩ | serving) <;> exact ⟨_, _, serving⟩
  have counting : ∀ {left}, Counting k c w left →
      ∃ known held, Serving c w (k.actor .counter) (k.cell .counter) known held := by
    rintro _ (⟨serving, -⟩ | serving) <;> exact ⟨_, _, serving⟩
  cases x with
  | ticker => exact ticking playing
  | counter => exact counting playing

/-- Every letter is for an actor. -/
theorem Posted.serving (posted : Posted k there c w n note) (staged : Staged k there p c b w) :
    ∃ i known held, Serving c w note.target i known held := by
  cases posted with
  | tick is | stop is => exact ⟨_, (staged.own .ticker is).2.2.serving⟩
  | second is => exact ⟨_, (staged.own .counter is).2.2.serving⟩
  | line _ _ serving | trace serving => exact ⟨_, _, _, serving⟩

/-- The letter `e`, which is about `n`, has been opened, and its target is about to act. -/
structure Underway (k : Cast L) (there : Part → Prop) (p : Plot) (n : Notice) (c : Chart L) (b : Books L)
    (e : Entry L) (d : Opened L α) (w : World L α γ) : Prop where
  charted : Charted c b w
  staged : Staged k there p c b w
  held : b.held = [e]
  points : d.entry.Points e.cell
  outer : d.outer = .nil
  delivery : d.delivery = ⟨e.note.target, e.note.message⟩
  posted : Posted k there c w n e.note
  behaves : ∃ i held, Serving c w e.note.target i d.behavior held
  alert : p.running = true → w.heap.Plain k.message

/-- The first letter of the plot is opened. -/
theorem Ready.opens (ready : Ready k there count p c b s) (shape : p.mail = n :: rest) : openLetter.Finishes s
    (fun d u => ∃ e mail pool,
      Underway k there { p with mail := rest } n c { b with mail, pool, held := [e], current := d.entry } e d
        u.state ∧ u.journal.lines = s.journal.lines ∧ u.state.guest = s.state.guest)
    fun _ _ => False := by
  obtain ⟨charted, staged, sane, resting, -⟩ := id ready
  have posts := staged.mail
  rw [shape] at posts
  obtain ⟨l, mail, posted, posts, isMail⟩ := List.forall₂_cons_left_iff.mp posts
  have plain := charted.letters (l := l) (by simp [isMail])
  obtain ⟨i, known, held, serving⟩ := posted.serving staged
  have opens : openLetter.Ends s _ fun _ _ => False := open_ends charted isMail serving
  refine opens.quietly.mono ?_ fun _ _ never => never.1.elim
  rintro d u ⟨⟨points, outer, delivery, rfl, charted', later⟩, lines⟩
  rw [resting.held] at charted'
  have staged' := staged.later charted ready.alert later
  have tail : List.Forall₂ (fun n (l : Letter L) => Posted k there c u.state n l.entry.note) rest mail := by
    have posts := staged'.mail
    rw [shape, isMail] at posts
    exact (List.forall₂_cons.mp posts).2
  refine ⟨l.entry, mail, _,
    { charted := charted'
      staged := ⟨tail, staged'.timers, staged'.own, staged'.both⟩
      held := rfl
      points
      outer := outer.trans resting.current
      delivery
      posted := posted.later charted plain.1 plain.2 later (Set.notMem_empty _) fun _ => Set.notMem_empty _
      behaves := ⟨i, held, serving.later later (plain.1 i serving.target) (Set.notMem_empty _)⟩
      alert := fun running => later.plain (ready.alert running) }, lines, later.guest⟩

/-- The letter is put away. -/
theorem Advanced.closes (advanced : Advanced k there p b w q c' b' s.state) (sane : q.Sane count b.now.s)
    (held : b.held = [e]) (points : d.entry.Points e.cell) (outer : d.outer = .nil) (hand : b.hand = [])
    (lost : b.lost = []) (lines : s.journal.lines = q.lines.map toString) : (closeLetter d).Finishes s
      (fun _ u => (∃ b'', Moves k there count p q c' b'' u ∧ b''.now = b.now) ∧ u.state.guest = w.guest)
      fun _ _ => False := by
  obtain ⟨mail, timers, pool, rfl⟩ := advanced.queues
  have closes : (closeLetter d).Ends s _ fun _ _ => False := close_ends advanced.charted held points
  refine closes.quietly.mono ?_ fun _ _ never => never.1.elim
  rintro - u ⟨⟨charted, later, same⟩, lines'⟩
  have alert := fun running => (advanced.staged.alert advanced.charted sane running).2
  have staged := advanced.staged.later advanced.charted alert later
  have there' : (fun x => there x ∧ u.state.heap.Collectable (k.cell x)) =
      fun x => there x ∧ s.state.heap.Collectable (k.cell x) := funext fun x => by rw [same]
  refine ⟨⟨_, ⟨⟨charted, ?_, sane, ⟨rfl, hand, lost, outer⟩, lines'.trans lines⟩, ?_⟩, rfl⟩,
    later.guest.trans advanced.guest⟩
  · rw [there']
    exact ⟨staged.mail, staged.timers, staged.own, staged.both⟩
  · exact advanced.spares.imp_left fun all x is => (same _).mpr (all x is)

section
variable [DecidableEq α] (host : Host L α γ)

/-- The target of the letter acts on it. -/
theorem Underway.acts (underway : Underway k there { p with mail := rest } n c b e d s.state)
    (sane : p.Sane count b.now.s) (shape : p.mail = n :: rest) :
    (act host d.behavior d.delivery).Finishes s
      (fun _ u => (∃ again c' b', Advanced k there { p with mail := rest } b s.state
          (({ p with mail := rest } : Plot).deliver b.now.s again n) c' b' u.state) ∧
        u.journal.lines = s.journal.lines ++ (n.line?.map toString).toList)
      fun f u => Stuck b.now f u.state ∧ u.journal.lines = s.journal.lines ++ (n.line?.map toString).toList := by
  have isHeld : e ∈ b.held := by simp [underway.held]
  have named : ∀ r ∈ e.refs, r ∈ b.refs := fun r slot =>
    Books.mem_refs.mpr (Or.inr ⟨e, Books.held_entry isHeld, slot⟩)
  have plain := underway.charted.plain_refs e.note.message (named _ (by simp [Entry.refs]))
  obtain ⟨j, known, held', serving, acts, told⟩ := act_ends (p := { p with mail := rest }) underway.charted
    underway.staged underway.alert host (by rwa [← shape]) underway.posted plain (named _ (by simp [Entry.refs]))
  obtain ⟨i, held, serving'⟩ := underway.behaves
  rw [underway.delivery, serving'.unique serving]
  exact acts.finishes told

variable (ready : Ready k there count p c b s)
include ready

/-- There is nothing to deliver when the plot has no letters. -/
theorem dispatch_idle (none : p.mail = []) : dispatch host s = .ok false s := by
  have noMail : b.mail = [] := List.length_eq_zero_iff.mp (by rw [← ready.staged.mail.length_eq, none]; rfl)
  have isNil := ready.charted.kept.mail.chain.isNil
  rw [dispatch_eq, Task.bind_apply, Task.view_apply]
  simp [isNil, noMail]

/-- The first letter of the plot is delivered. -/
theorem dispatch_finishes (shape : p.mail = n :: rest) : (dispatch host).Finishes s
    (fun any u => any = true ∧ (∃ q c' b', Moves k there count p q c' b' u ∧ b'.now = b.now) ∧
      u.state.guest = s.state.guest)
    fun f u => Stuck b.now f u.state ∧ Tells count u.journal.lines := by
  have notNil : s.state.mailFirst.isNil = false := by
    have isNil := ready.charted.kept.mail.chain.isNil
    have length := ready.staged.mail.length_eq
    have filled : b.mail.isEmpty = false := List.isEmpty_eq_false_iff.mpr fun none => by simp [none, shape] at length
    simpa [filled] using isNil
  rw [dispatch_eq]
  refine Task.finishes_view ?_
  rw [notNil]
  refine ((ready.opens shape).mono (fun _ _ => id) fun _ _ never => never.elim).bind ?_
  rintro d u ⟨e, mail, pool, underway, lines, guest⟩
  have sane' : ∀ again, (Plot.deliver b.now.s again { p with mail := rest } n).Sane count b.now.s :=
    fun again => ready.sane.delivered shape again
  have printed : ∀ again, u.journal.lines ++ (n.line?.map toString).toList =
      (Plot.deliver b.now.s again { p with mail := rest } n).lines.map toString := by
    intro again
    rw [Plot.deliver_lines, lines, ready.lines]
    cases n.line? <;> simp
  refine ((underway.acts host ready.sane shape).mono (fun _ _ => id) fun f v failed => ⟨failed.1, ?tells⟩).bind ?_
  case tells =>
    rw [failed.2, printed false]
    exact (sane' false).tells
  rintro - v ⟨⟨again, c', b', advanced⟩, lines'⟩
  have closes := advanced.closes (sane' again) rfl underway.points underway.outer ready.resting.hand
    ready.resting.lost (lines'.trans (printed again))
  refine (closes.mono (fun _ _ => id) fun _ _ never => never.elim).bind ?_
  rintro - z ⟨⟨b'', ⟨moved, spares⟩, same⟩, guest'⟩
  exact ⟨rfl, ⟨_, c', b'', ⟨moved, spares.imp_right fun before x ended => before x ended⟩, same⟩, guest'.trans guest⟩

end

/-! ### Readings of the clock -/

/-- The message that wakes the ticker up becomes a letter if it is due. -/
theorem tick_finishes (ready : Ready k there count p c b s) (late : ¬reading < b.now) : (tick reading).Finishes s
    (fun _ u => (∃ q b', Ready k there count q c b' u ∧ (∀ x, Over q x ↔ Over p x) ∧ b'.now = reading) ∧
      u.state.guest = s.state.guest)
    fun f u => NoRoom f u.state ∧ Tells count u.journal.lines := by
  obtain ⟨charted, staged, sane, resting, lines⟩ := id ready
  refine (clock_ends charted reading).quietly.mono ?_ fun f u failed => ⟨failed.1, failed.2 ▸ ready.tells⟩
  rintro - u ⟨⟨letters, pool, entries, charted', later⟩, lines'⟩
  refine ⟨?_, later.guest⟩
  have staged' := staged.later charted ready.alert later
  have sane' := sane.clocked (Moment.seconds_of_not_lt late)
  have timers := staged'.timers
  have resting' : Books.Resting { b with
      mail := b.mail ++ letters
      timers := b.timers.dropWhile (Alarm.isDue reading)
      pool
      now := reading } := ⟨resting.held, resting.hand, resting.lost, resting.current⟩
  -- Nothing is due.
  have stays : letters = [] → b.timers.dropWhile (Alarm.isDue reading) = b.timers →
      ∃ q b', Ready k there count q c b' u ∧ (∀ x, Over q x ↔ Over p x) ∧ b'.now = reading := by
    rintro rfl same
    refine ⟨p, _, ⟨charted', ⟨?_, ?_, staged'.own, staged'.both⟩, sane', resting', lines'.trans lines⟩,
      fun _ => Iff.rfl, rfl⟩
    · rw [List.append_nil]
      exact staged'.mail
    · rw [same]
      exact timers
  cases waiting : p.waiting with
  | false =>
    have none : b.timers = [] := by simpa [waiting] using timers
    rw [none] at entries
    exact stays (by simpa using entries) (by rw [none]; rfl)
  | true =>
    rw [waiting] at timers
    obtain ⟨a, others, posted, none, shape⟩ := List.forall₂_cons_left_iff.mp timers
    obtain rfl : others = [] := by simpa using none
    rw [shape] at entries
    cases due : Alarm.isDue reading a with
    | false =>
      rw [List.takeWhile_cons_of_neg (by simp [due])] at entries
      exact stays (by simpa using entries) (by rw [shape, List.dropWhile_cons_of_neg (by simp [due])])
    | true =>
      rw [List.takeWhile_cons_of_pos (by simp [due])] at entries
      obtain ⟨l, rfl, isEntry⟩ : ∃ l, letters = [l] ∧ l.entry = a.entry := by
        simpa [List.map_eq_cons_iff] using entries
      refine ⟨{ p with mail := p.mail ++ [.tick], waiting := false }, _, ⟨charted',
        ⟨?_, ?_, staged'.own, staged'.both⟩, sane'.fired waiting, resting', lines'.trans lines⟩, fun x => ?_, rfl⟩
      · refine List.rel_append staged'.mail (.cons ?_ .nil)
        rw [isEntry]
        exact posted
      · rw [shape, List.dropWhile_cons_of_pos (by simp [due])]
        exact .nil
      · cases x <;> exact Iff.rfl

/-! ### Collections -/

theorem forceCollect_finishes (ready : Ready k there count p c b s) : forceCollect.Finishes s
    (fun _ u => Moves k there count p p c b u) fun _ _ => False := by
  obtain ⟨charted, staged, sane, resting, lines⟩ := ready
  have ends : forceCollect.Ends s _ fun _ _ => False := forceCollect_ends charted resting.held resting.current
  refine ends.quietly.mono ?_ fun _ _ never => never.1.elim
  rintro - ⟨-, j⟩ ⟨⟨h, rfl, charted'⟩, lines'⟩
  exact ⟨⟨charted', staged.collected charted' sane, sane, resting, lines'.trans lines⟩, Or.inr fun _ => id⟩

theorem startCollect_finishes [DecidableEq α] (ready : Ready k there count p c b s) : startCollect.Finishes s
    (fun _ u => ∃ q c' b', Moves k there count p q c' b' u)
    fun f u => NoRoom f u.state ∧ Tells count u.journal.lines := by
  obtain ⟨charted, staged, sane, resting, lines⟩ := id ready
  refine (startCollect_ends charted resting.held resting.current).quietly.mono ?_
    fun f u failed => ⟨failed.1, failed.2 ▸ ready.tells⟩
  rintro - u ⟨⟨c', b', charted', later, sent⟩, lines'⟩
  have staged' := staged.later charted ready.alert later
  have lines' := lines'.trans lines
  rcases sent with rfl | ⟨l, pool, a, i, rfl, note, serving, role⟩
  · have ready' : Ready k there count p c' b' u := ⟨charted', staged', sane, resting, lines'⟩
    exact ⟨p, c', b', ready'.moves p⟩
  · have posted : Posted k there c' u.state .trace l.entry.note := by
      rw [note]
      exact .trace serving role (Or.inl rfl)
    have staged'' : Staged k there (p.deliver b.now.s true .trace) c' { b with mail := b.mail ++ [l], pool }
        u.state :=
      ⟨List.rel_append staged'.mail (.cons posted .nil), staged'.timers, staged'.own, staged'.both⟩
    have ready' : Ready k there count (p.deliver b.now.s true .trace) c' { b with mail := b.mail ++ [l], pool } u :=
      ⟨charted', staged'', sane.traced true, ⟨resting.held, resting.hand, resting.lost, resting.current⟩, lines'⟩
    exact ⟨_, c', _, ready'.moves p⟩

end World

end Treadmill

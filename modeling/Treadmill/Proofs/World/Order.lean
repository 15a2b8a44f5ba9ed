import Mathlib
import Treadmill.Proofs.World.Eager
import Treadmill.Proofs.World.Settled

/-!
The order of messages. A user of a world who keeps to references in use and writes to no cell of the
world itself (`Proper`) finds in mailbox and timers what the agenda of the course says
(`Course.queues`), and delayed messages in due order (`Course.punctual`).
-/

namespace Treadmill.World
variable {L : Layout} {α γ : Type}

/-- Asks of a reference only that its cell is in use. -/
def lenient : Care L where
  Admits := Heap.Holds
  Guards _ _ := True
  Stands _ := True
  holds := id
  blank none i target := by
    rw [none] at target
    cases target
  guards_of_clear _ _ := trivial
  admits_filed := Heap.Filed.holds
  guards_filed _ _ := trivial
  stands_filed _ _ := trivial
  guards_read _ _ := trivial
  stands_read _ _ _ := trivial

/-- The references that a move works on. A delivery works on the target of the first message. -/
def Move.operands : Move L α γ → World L α γ → List (Ref L)
  | call c, _ => c.operands
  | opens, w => (w.mailbox.head?.map Prod.fst).toList
  | closes, _ | drops, _ => []

/-- The cell that a move writes to from outside. -/
def Move.writes : Move L α γ → Option Nat
  | call (.heap op) => op.writes
  | _ => none

/-- The permanent cells that a move has handed out. -/
def Moved.granted : Moved L α γ → List Nat
  | ⟨.call (.heap op), o⟩ => Deed.granted ⟨op, o⟩
  | _ => []

/-- Every reference that a move works on is in use, and of the permanent cells it writes only to one
that was handed out before. -/
structure Proper (trace : List (Moved L α γ)) (p : Point L α γ) (m : Move L α γ) : Prop where
  held : ∀ v ∈ m.operands p.world, p.world.heap.Holds v
  spared : ∀ i, m.writes = some i → p.world.heap.Fixed i → i ∈ trace.flatMap Moved.granted

variable {w u : World L α γ} {b : Books L} {care : Care L} {r : Record L}
  {opened : Option (Opened L α)} {p q : Point L α γ} {m : Move L α γ} {d : Moved L α γ}
  {trace earlier later more : List (Moved L α γ)} {now reading : Moment} {capacity : Nat}
  {traced : Bool} {guest : γ} {journal : Journal} {x y : Timer L}

theorem proper_of_unwritten (unwritten : m.writes = none)
    (held : ∀ v ∈ m.operands p.world, p.world.heap.Holds v) : Proper trace p m where
  held := held
  spared i writes := by simp [unwritten] at writes

theorem Record.granted_after (r : Record L) (d : Moved L α γ) :
    (r.after d).granted = r.granted ++ d.granted := by
  obtain ⟨m, o⟩ := d
  cases m with
  | call c =>
    cases c with
    | heap op => rfl
    | sendAfter delay target message =>
      simp only [after, afterDelay, Moved.granted, List.append_nil]
      split
      · split <;> rfl
      · rfl
      · rfl
    | function | send | aside | addRoot | gatherRoots | tick => cases o <;> simp [after, Moved.granted]
  | opens | closes | drops => cases o <;> simp [after, Moved.granted]

theorem Record.granted_of (now : Moment) (trace : List (Moved L α γ)) :
    (of now trace).granted = trace.flatMap Moved.granted := by
  induction trace using List.reverseRecOn with
  | nil => rfl
  | append_singleton trace d ih => simp [granted_after, ih]

/-! ### The books of a proper course -/

section
variable [DecidableEq α]

omit [DecidableEq α] in
theorem Settled.spared {op : Op L} (settled : Settled care r b p.world p.opened)
    (same : r.granted = trace.flatMap Moved.granted) (proper : Proper trace p (.call (.heap op))) :
    ∀ i ∈ b.own, op.writes ≠ some i := by
  intro i own writes
  have granted := proper.spared i writes (settled.kept.stock.fixed (Books.own_cells own))
  rw [← same, ← settled.granted] at granted
  exact Books.not_granted_of_own settled.kept.stock.distinct own granted

/-- A proper move keeps the books settled under every care that asks of a reference only that its cell is
in use. -/
theorem Settled.properly (settled : Settled care r b p.world p.opened)
    (same : r.granted = trace.flatMap Moved.granted) (fits : m.Fits p) (proper : Proper trace p m)
    (admits : ∀ {h v}, h.Holds v → care.Admits h v) (guards : ∀ h v, care.Guards h v)
    (stands : ∀ op, m = .call (.heap op) → care.Stands (p.after m).world.heap) :
    Settles care r p.world (p.after m).opened m (p.moved m).outcome (p.after m).world := by
  refine settled.next fits (fun op isHeap => ?_) (fun _ => rfl) (fun c isCall => ?_) fun isOpens l on => ?_
  · subst isHeap
    exact settled.heap op proper.held (settled.spared same proper) (fun _ _ => guards _ _) (stands op rfl)
  · subst isCall
    exact fun v on => admits (proper.held v on)
  · subst isOpens
    refine admits (proper.held _ ?_)
    rw [Move.operands, settled.kept.mailbox, List.head?_map]
    simp [Option.mem_def.mp on]

theorem Settled.proper (settled : Settled lenient (Record.of now trace) b p.world p.opened)
    (fits : m.Fits p) (proper : Proper trace p m) :
    Settles lenient (Record.of now trace) p.world (p.after m).opened m (p.moved m).outcome
      (p.after m).world :=
  settled.properly (Record.granted_of now trace) fits proper id (fun _ _ => trivial) fun _ _ => trivial

theorem Course.settled
    (course : Course Proper (Point.new capacity traced now guest journal) trace p) :
    ∃ b, Settled lenient (Record.of now trace) b p.world p.opened := by
  induction course with
  | start => exact ⟨_, settled_empty trivial capacity now guest⟩
  | move course m fits allowed enough ih =>
    obtain ⟨b, settled⟩ := ih
    rw [Record.of_concat]
    exact ((settled.proper fits allowed).enough enough).2

/-- A course is cut short only where there is no room for another block of cells. -/
theorem Course.exhausted
    (course : Course Proper (Point.new capacity traced now guest journal) trace p) (fits : m.Fits p)
    (proper : Proper trace p m) (exhausted : (p.moved m).outcome = .error .arenaExhausted) :
    (p.after m).world.Full := by
  obtain ⟨b, settled⟩ := course.settled
  exact (settled.proper fits proper).full exhausted

end

/-! ### Mailbox and timers -/

/-- Mailbox and timers of a world hold what an agenda says, and its counts and the end of its mailbox
are in step with them. -/
structure Shows (w : World L α γ) (a : Agenda L) : Prop where
  mailbox : w.mailbox = a.mail.map fun n => (n.target, n.message)
  timers : w.timerList = a.timers.map fun x => (x.due, x.note.target, x.note.message)
  pending : w.pending = w.mailbox.length
  delayed : w.delayed = w.timerList.length
  last : w.mailLast.target? = w.mailNodes.getLast?
  empty : w.mailLast = .nil ↔ w.mailbox = []
  clock : w.now = a.now

/-- A delivery finds a message in the mailbox. -/
theorem Settled.front {p : Point L α γ} (settled : Settled care r b p.world p.opened) (fits : Move.Fits .opens p) :
    ∃ l mail, b.mail = l :: mail ∧ r.agenda.mail = l.entry.note :: mail.map fun l => l.entry.note := by
  have isNil := settled.kept.mail.chain.isNil
  rw [fits.2] at isNil
  obtain ⟨l, mail, shape⟩ : ∃ l mail, b.mail = l :: mail :=
    List.exists_cons_of_ne_nil (by rintro none; simp [none] at isNil)
  exact ⟨l, mail, shape, by rw [← settled.mail, shape, List.map_cons]⟩

theorem Settled.shows (settled : Settled care r b w opened) : Shows w r.agenda where
  mailbox := by
    rw [settled.kept.mailbox, ← settled.mail, List.map_map]
    rfl
  timers := by
    rw [settled.kept.timerList, ← settled.timers, List.map_map]
    rfl
  pending := by rw [settled.kept.mailbox, List.length_map, settled.kept.pending]
  delayed := by rw [settled.kept.timerList, List.length_map, settled.kept.delayed]
  last := settled.kept.mailLast.1
  empty := settled.kept.mailLast.2.trans (by simp [World.mailbox])
  clock := settled.kept.clock.trans settled.clock

/-- What a move does to the mailbox and to the timers. -/
def Moved.Shifts (w u : World L α γ) : Moved L α γ → Prop
  | ⟨.call (.send target message), .ok _⟩ =>
    u.mailbox = w.mailbox ++ [(target, message)] ∧ u.timerList = w.timerList
  | ⟨.call (.sendAfter delay target message), .ok _⟩ =>
    u.mailbox = w.mailbox ∧ ∃ due front back, w.now.shift delay = .ok due ∧
      w.timerList = front ++ back ∧ u.timerList = front ++ (due, target, message) :: back
  | ⟨.call (.tick _), .ok _⟩ =>
    ∃ front, w.timerList = front ++ u.timerList ∧ u.mailbox = w.mailbox ++ front.map Prod.snd
  | ⟨.opens, _⟩ => (∃ first, w.mailbox = first :: u.mailbox) ∧ u.timerList = w.timerList
  | _ => u.mailbox = w.mailbox ∧ u.timerList = w.timerList

theorem Shows.same {a : Agenda L} (shows : Shows w a) (shows' : Shows u a) :
    u.mailbox = w.mailbox ∧ u.timerList = w.timerList :=
  ⟨shows'.mailbox.trans shows.mailbox.symm, shows'.timers.trans shows.timers.symm⟩

theorem Shows.shifts {o : Except Fault (Option (Ref L))} (shows : Shows w r.agenda)
    (shows' : Shows u (r.after ⟨m, o⟩).agenda) (verdict : m.Verdict w o)
    (filled : m = .opens → w.mailbox ≠ []) : Moved.Shifts w u ⟨m, o⟩ := by
  cases m with
  | call c =>
    cases c with
    | send target message =>
      cases o with
      | error f => exact shows.same shows'
      | ok a => exact ⟨by simp [shows'.mailbox, shows.mailbox, Record.after, Agenda.post],
          shows'.timers.trans shows.timers.symm⟩
    | sendAfter delay target message =>
      cases o with
      | error f =>
        refine shows.same (a := r.agenda) ?_
        simp only [Record.after, Record.afterDelay] at shows'
        split at shows' <;> first | exact shows' | contradiction
      | ok a =>
        have isActor : target.isActor = true := by
          by_contra other
          simp [Move.Verdict, other] at verdict
        simp only [Move.Verdict, isActor, if_true] at verdict
        cases shifted : w.now.shift delay with
        | error f => simp [shifted] at verdict
        | ok due =>
          rw [shows.clock] at shifted
          simp only [Record.after, Record.afterDelay, shifted] at shows'
          have timers := shows'.timers
          simp only [Agenda.delay, Agenda.insertTimer, List.map_append, List.map_cons] at timers
          refine ⟨shows'.mailbox.trans shows.mailbox.symm, due, _, _, shows.clock ▸ shifted, ?_, timers⟩
          rw [shows.timers, ← List.map_append, List.takeWhile_append_dropWhile]
    | tick reading =>
      cases o with
      | error f => exact shows.same shows'
      | ok a =>
        refine ⟨(r.agenda.timers.takeWhile (Timer.isDue reading)).map
          fun x => (x.due, x.note.target, x.note.message), ?_, ?_⟩
        · rw [shows.timers, shows'.timers, ← List.map_append]
          simp only [Record.after, Agenda.tick, List.takeWhile_append_dropWhile]
        · simp [shows'.mailbox, shows.mailbox, Record.after, Agenda.tick]
    | heap | function | aside | gatherRoots => exact shows.same shows'
    | addRoot => cases o <;> exact shows.same shows'
  | opens =>
    refine ⟨?_, shows'.timers.trans shows.timers.symm⟩
    have taken : u.mailbox = w.mailbox.tail := by
      rw [shows'.mailbox, shows.mailbox, ← List.map_tail]
      rfl
    rw [taken]
    exact ⟨_, (List.cons_head_tail (filled rfl)).symm⟩
  | closes => cases o <;> exact shows.same shows'
  | drops => exact shows.same shows'

/-! ### Deliveries -/

theorem Settled.mailbox_ne_nil (settled : Settled care r b p.world p.opened)
    (fits : Move.Fits .opens p) : p.world.mailbox ≠ [] := by
  have isNil := settled.kept.mail.chain.isNil
  rw [fits.2] at isNil
  rw [settled.kept.mailbox]
  rintro empty
  rw [List.map_eq_nil_iff] at empty
  simp [empty] at isNil

/-- What comes of delivering the first message of `p`: the behavior of its target acts on it, unless
there is none to be found, or the delivery is to be printed and cannot be. -/
def Delivered [DecidableEq α] (p : Point L α γ) (target message : Ref L) : Prop :=
  (∃ d, (p.after .opens).opened = some d ∧ d.delivery = ⟨target, message⟩ ∧
    (p.after .opens).world.behaviorAt? target = some d.behavior ∧
    ∀ host : Host L α γ, dispatch host p.logged =
      (do act host d.behavior d.delivery; closeLetter d; return true : WorldTask L α γ Bool)
        (p.after .opens).logged) ∨
  ¬Deliverable (p.after .opens).world ⟨target, message⟩ ∧
    ∃ f, (p.moved .opens).outcome = .error f ∧
      ∀ host : Host L α γ, dispatch host p.logged = .error f (p.after .opens).logged

theorem Settled.delivered [DecidableEq α] (settled : Settled care r b p.world p.opened)
    (fits : Move.Fits .opens p)
    (admits : ∀ l ∈ b.mail.head?, care.Admits p.world.heap l.entry.note.target) :
    ∃ target message rest, p.world.mailbox = (target, message) :: rest ∧
      Delivered p target message := by
  have filled := settled.mailbox_ne_nil fits
  rw [settled.kept.mailbox] at filled ⊢
  cases shape : b.mail with
  | nil => simp [shape] at filled
  | cons l mail =>
    refine ⟨_, _, _, rfl, ?_⟩
    have ends := openLetter_ends (s := p.logged) settled.kept shape (admits l (by simp [shape]))
    have first := fits.2
    unfold Delivered
    simp only [Point.moved, Point.after, Move.next]
    cases ran : openLetter p.logged with
    | ok d u =>
      obtain ⟨-, -, told, found, -⟩ := ends.of_ok ran
      refine Or.inl ⟨d, rfl, told, found, fun host => ?_⟩
      rw [dispatch_eq, Task.bind_apply, Task.view_apply]
      dsimp only
      rw [show p.logged.state.mailFirst.isNil = false from first, if_neg (by simp),
        Task.bind_apply, ran]
    | error f u =>
      obtain ⟨-, -, never⟩ := ends.of_error ran
      refine Or.inr ⟨never, f, rfl, fun host => ?_⟩
      rw [dispatch_eq, Task.bind_apply, Task.view_apply]
      dsimp only
      rw [show p.logged.state.mailFirst.isNil = false from first, if_neg (by simp),
        Task.bind_apply, ran]

theorem Settled.idle [DecidableEq α] (settled : Settled care r b p.world p.opened)
    (empty : p.world.mailbox = []) (host : Host L α γ) :
    dispatch host p.logged = .ok false p.logged := by
  rw [settled.kept.mailbox, List.map_eq_nil_iff] at empty
  have isNil := settled.kept.mail.chain.isNil
  rw [empty] at isNil
  rw [dispatch_eq, Task.bind_apply, Task.view_apply]
  dsimp only
  rw [show p.logged.state.mailFirst.isNil = true from isNil]
  rfl

/-! ### The agenda of a course -/

theorem Record.line_after (r : Record L) (d : Moved L α γ) :
    r.agenda.line.Sublist (r.after d).agenda.line ∧
      (r.agenda.Ordered → (r.after d).agenda.Ordered) := by
  obtain ⟨m, o⟩ := d
  have silent : r.agenda.line.Sublist r.agenda.line ∧ (r.agenda.Ordered → r.agenda.Ordered) :=
    ⟨.refl _, id⟩
  cases m with
  | call c =>
    cases c with
    | send target message =>
      cases o with
      | ok a => exact ⟨r.agenda.line_post target message, fun ordered => ordered.post target message⟩
      | error f => exact silent
    | sendAfter delay target message =>
      simp only [after, afterDelay]
      split
      · split
        · exact ⟨r.agenda.line_delay _ _ _, fun ordered => ordered.delay _ _ _⟩
        · exact silent
      · exact silent
      · exact silent
    | tick reading =>
      cases o with
      | ok a =>
        refine ⟨?_, fun ordered => ordered.tick reading⟩
        simp only [after]
        rw [Agenda.line_tick]
      | error f => exact silent
    | heap | function | aside | gatherRoots => exact silent
    | addRoot => cases o <;> exact silent
  | opens =>
    refine ⟨?_, Agenda.Ordered.take⟩
    simp only [after]
    rw [Agenda.line_take]
  | closes => cases o <;> exact silent
  | drops => exact silent

theorem Record.ordered (now : Moment) (trace : List (Moved L α γ)) :
    (of now trace).agenda.Ordered := by
  induction trace using List.reverseRecOn with
  | nil => exact Agenda.ordered_empty now
  | append_singleton trace d ih =>
    rw [of_concat]
    exact (line_after _ d).2 ih

/-- What was in line once stays in line, in its place. -/
theorem Record.line_mono (now : Moment) (earlier later : List (Moved L α γ)) :
    (of now earlier).agenda.line.Sublist (of now (earlier ++ later)).agenda.line := by
  induction later using List.reverseRecOn with
  | nil => simp
  | append_singleton later d ih =>
    rw [← List.append_assoc, of_concat]
    exact ih.trans (line_after _ d).1

/-! ### Courses -/

section
variable [DecidableEq α]

/-- Mailbox and timers after the trace `trace`, which has led to `p`. -/
structure Queues (now : Moment) (trace : List (Moved L α γ)) (p : Point L α γ) : Prop where
  shows : Shows p.world (Record.of now trace).agenda
  /-- Every message sent so far was taken out, waits in the mailbox or is among the timers: once. -/
  once : ((Record.of now trace).agenda.line.map Note.stamp).Perm
    (List.range (Record.of now trace).agenda.sent)
  /-- Messages in line keep their order. -/
  order : ∀ earlier later, trace = earlier ++ later →
    (Record.of now earlier).agenda.line.Sublist (Record.of now trace).agenda.line
  moves : ∀ m : Move L α γ, m.Fits p → Proper trace p m →
    (p.moved m).outcome ≠ .error .arenaExhausted →
      m.Verdict p.world (p.moved m).outcome ∧ Moved.Shifts p.world (p.after m).world (p.moved m)
  delivers : Move.Fits .opens p → Proper trace p .opens →
    ∃ target message rest, p.world.mailbox = (target, message) :: rest ∧ Delivered p target message
  idles : p.world.mailbox = [] → ∀ host : Host L α γ, dispatch host p.logged = .ok false p.logged

theorem Settled.next_shifts (settled : Settled lenient (Record.of now trace) b p.world p.opened)
    (fits : m.Fits p) (proper : Proper trace p m)
    (enough : (p.moved m).outcome ≠ .error .arenaExhausted) :
    m.Verdict p.world (p.moved m).outcome ∧
      Moved.Shifts p.world (p.after m).world (p.moved m) := by
  obtain ⟨verdict, b', settled'⟩ := (settled.proper fits proper).enough enough
  refine ⟨verdict, settled.shows.shifts settled'.shows verdict ?_⟩
  rintro rfl
  exact settled.mailbox_ne_nil fits

/-- Mailbox and timers are at any time what the trace says, whatever else is done in the world. -/
theorem Course.queues
    (course : Course Proper (Point.new capacity traced now guest journal) trace p) :
    Queues now trace p := by
  obtain ⟨b, settled⟩ := course.settled
  exact
    { shows := settled.shows
      once := (Record.ordered now trace).stamps
      order := fun earlier later shape => shape ▸ Record.line_mono now earlier later
      moves := fun m fits proper enough => settled.next_shifts fits proper enough
      delivers := fun fits proper => settled.delivered fits fun l on => proper.held _ (by
        rw [Move.operands, settled.kept.mailbox, List.head?_map]
        simp [Option.mem_def.mp on])
      idles := settled.idle }

/-- A permanent cell that was handed out stays in use. -/
theorem Course.granted_holds {i : Nat} {v : Ref L}
    (course : Course Proper (Point.new capacity traced now guest journal) trace p)
    (granted : i ∈ trace.flatMap Moved.granted) (target : v.target? = some i) :
    p.world.heap.Holds v := by
  obtain ⟨b, settled⟩ := course.settled
  rw [← Record.granted_of now, ← settled.granted] at granted
  intro j named
  obtain rfl : i = j := by simpa [target] using named
  exact Or.inr (settled.kept.stock.fixed (List.mem_append_right _ granted))

end

/-! ### An errand -/

open Eager (eagerly) in
/-- An actor on a permanent cell is sent one message at once and three later on, two of them for one time.
The clock is read, the first message is taken up, and its delivery is dropped. The actor is registered, and
its heap ages. -/
theorem errand : ∃ trace p, Course Proper quiet trace p ∧
    (p.world.inDelivery.isNil = false ∧ p.world.heap.collecting = true ∧ p.world.now = ⟨0, 5⟩ ∧
      ∃ a : Ref .twoLow, a.isActor = true ∧ p.world.heap.Holds a ∧
        p.world.timerList = [(⟨0, 9⟩, a, .nil), (⟨0, 9⟩, a, a)]) ∧
    p.world.mailbox.length = 1 ∧ p.world.poolUsed = 11 := by
  obtain ⟨f, c, a, noCell, cell, actor, isActor, worked⟩ : ∃ f c a : Ref .twoLow,
      f.target? = none ∧ c.target? = some 261 ∧ a.target? = some 261 ∧ a.isActor = true ∧
      (eagerly (quiet.after (.call (.function .sink))) fun p₁ =>
        eagerly (p₁.after (.call (.heap (.act (.perm f .nil))))) fun p₂ =>
        eagerly (p₂.after (.call (.send a .nil))) fun p₃ =>
        eagerly (p₃.after (.call (.sendAfter 9 a .nil))) fun p₄ =>
        eagerly (p₄.after (.call (.sendAfter 5 a .nil))) fun p₅ =>
        eagerly (p₅.after (.call (.sendAfter 9 a a))) fun p₆ =>
        eagerly (p₆.after (.call (.tick ⟨0, 5⟩))) fun p₇ =>
        eagerly (p₇.after .opens) fun p₈ => eagerly (p₈.after .drops) fun p₉ =>
        eagerly (p₉.after (.call (.addRoot a))) fun p₁₀ =>
        eagerly (p₁₀.after (.call (.heap .age))) fun p₁₁ => decide (
          (quiet.moved (.call (.function .sink))).outcome = .ok (some f) ∧
          (p₁.moved (.call (.heap (.act (.perm f .nil))))).outcome = .ok (some c) ∧
          (p₂.moved (.call (.send a .nil))).outcome = .ok none ∧
          (p₃.moved (.call (.sendAfter 9 a .nil))).outcome = .ok none ∧
          (p₄.moved (.call (.sendAfter 5 a .nil))).outcome = .ok none ∧
          (p₅.moved (.call (.sendAfter 9 a a))).outcome = .ok none ∧
          (p₆.moved (.call (.tick ⟨0, 5⟩))).outcome = .ok none ∧ (p₇.moved .opens).outcome = .ok none ∧
          (p₉.moved (.call (.addRoot a))).outcome = .ok none ∧
          (p₁₀.moved (.call (.heap .age))).outcome = .ok none ∧ p₇.world.mailFirst.isNil = false ∧
          p₇.world.mailbox.head? = some (a, .nil) ∧ p₈.opened.isSome = true ∧
          p₁₁.world.inDelivery.isNil = false ∧ p₁₁.world.heap.collecting = true ∧
          p₁₁.world.now = ⟨0, 5⟩ ∧ p₁₁.world.timerList = [(⟨0, 9⟩, a, .nil), (⟨0, 9⟩, a, a)] ∧
          p₁₁.world.mailbox.length = 1 ∧ p₁₁.world.poolUsed = 11)) = true := by
    refine ⟨⟨6, by decide⟩, ⟨1044, by decide⟩, ⟨1045, by decide⟩, by decide, by decide, by decide,
      by decide, ?_⟩
    simp only [Point.after, Point.moved, Move.next, Call.task, Op.task, Act.task, send, sendAfter, enqueue,
      take, spareCell, Heap.perm, Heap.takeReserved, Heap.refillEmpty, Heap.refill, Heap.extend_eq_lengthen]
    decide +kernel
  obtain ⟨p₁, is₁, worked⟩ := Eager.of_eagerly worked
  obtain ⟨p₂, is₂, worked⟩ := Eager.of_eagerly worked
  obtain ⟨p₃, is₃, worked⟩ := Eager.of_eagerly worked
  obtain ⟨p₄, is₄, worked⟩ := Eager.of_eagerly worked
  obtain ⟨p₅, is₅, worked⟩ := Eager.of_eagerly worked
  obtain ⟨p₆, is₆, worked⟩ := Eager.of_eagerly worked
  obtain ⟨p₇, is₇, worked⟩ := Eager.of_eagerly worked
  obtain ⟨p₈, is₈, worked⟩ := Eager.of_eagerly worked
  obtain ⟨p₉, is₉, worked⟩ := Eager.of_eagerly worked
  obtain ⟨p₁₀, is₁₀, worked⟩ := Eager.of_eagerly worked
  obtain ⟨p₁₁, is₁₁, worked⟩ := Eager.of_eagerly worked
  obtain ⟨out₁, out₂, out₃, out₄, out₅, out₆, out₇, out₈, out₁₀, out₁₁, filled, first, opened, left, busy, clock,
    timers, mail, used⟩ := of_decide_eq_true worked
  have made : 261 ∈ (p₁.moved (.call (.heap (.act (.perm f .nil))))).granted := by
    change 261 ∈ Deed.granted ⟨_, (p₁.moved (.call (.heap (.act (.perm f .nil))))).outcome⟩
    simp [out₂, Deed.granted, cell]
  have blank : ∀ {h : Heap .twoLow} {v : Ref .twoLow}, v.target? = none → h.Holds v :=
    fun none i target => by simp [none] at target
  have inner : ∀ {call : Call .twoLow Empty Unit} {p : Point .twoLow Empty Unit},
      call.isOuter = false → Move.Fits (.call call) p := fun inner outer => by simp [inner] at outer
  have held : ∀ {trace : List (Moved .twoLow Empty Unit)} {p : Point .twoLow Empty Unit},
      Course Proper quiet trace p → p₁.moved (.call (.heap (.act (.perm f .nil)))) ∈ trace →
        ∀ v ∈ [a, .nil], p.world.heap.Holds v := by
    intro trace p course on v operand
    rcases List.mem_pair.mp operand with rfl | rfl
    · exact course.granted_holds (List.mem_flatMap.mpr ⟨_, on, made⟩) actor
    · exact blank Ref.target?_nil
  have c₀ : Course Proper quiet [] quiet := .start
  have c₁ := c₀.snoc _ is₁ out₁ (inner rfl)
    ⟨by simp [Move.operands, Call.operands], by simp [Move.writes]⟩
  have c₂ := c₁.snoc _ is₂ out₂ (inner rfl)
    ⟨by simp [Move.operands, Call.operands, Op.operands, Act.operands, blank, noCell],
      by simp [Move.writes, Op.writes, Act.writes]⟩
  have c₃ := c₂.snoc _ is₃ out₃ (inner rfl) ⟨held c₂ (by simp), by simp [Move.writes]⟩
  have c₄ := c₃.snoc _ is₄ out₄ (inner rfl) ⟨held c₃ (by simp), by simp [Move.writes]⟩
  have c₅ := c₄.snoc _ is₅ out₅ (inner rfl) ⟨held c₄ (by simp), by simp [Move.writes]⟩
  have c₆ := c₅.snoc _ is₆ out₆ (inner rfl)
    ⟨fun v on => held c₅ (by simp) v (by rcases List.mem_pair.mp on with rfl | rfl <;> simp),
      by simp [Move.writes]⟩
  have idle : p₆.opened = none := by rw [is₆, is₅, is₄, is₃, is₂, is₁]; rfl
  have c₇ := c₆.snoc _ is₇ out₇ (fun _ => idle)
    ⟨by simp [Move.operands, Call.operands], by simp [Move.writes]⟩
  have c₈ := c₇.snoc _ is₈ out₈ ⟨by rw [is₇]; exact idle, filled⟩
    ⟨fun v on => held c₇ (by simp) v (by
      simp only [Move.operands, first, Option.map_some, Option.toList_some, List.mem_singleton] at on
      simp [on]), by simp [Move.writes]⟩
  have c₉ := c₈.snoc .drops is₉ rfl opened ⟨by simp [Move.operands], by simp [Move.writes]⟩
  have c₁₀ := c₉.snoc _ is₁₀ out₁₀ (fun _ => is₉ ▸ rfl)
    ⟨fun v on => held c₉ (by simp) v (by
      rw [List.mem_singleton.mp on]
      simp), by simp [Move.writes]⟩
  have c₁₁ := c₁₀.snoc _ is₁₁ out₁₁ (inner rfl)
    ⟨by simp [Move.operands, Call.operands, Op.operands], by simp [Move.writes, Op.writes]⟩
  exact ⟨_, _, c₁₁, ⟨left, busy, clock, a, isActor, held c₁₁ (by simp) a (by simp), timers⟩, mail, used⟩

/-- The second message waits in the mailbox. -/
theorem errand_queues : ∃ trace p, Course Proper quiet trace p ∧ p.world.mailbox.length = 1 ∧
    Queues .zero trace p := by
  obtain ⟨trace, p, course, -, mail, -⟩ := errand
  exact ⟨trace, p, course, mail, course.queues⟩

end Treadmill.World

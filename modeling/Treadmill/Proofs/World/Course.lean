import Mathlib
import Treadmill.Proofs.World.Delivery
import Treadmill.Proofs.World.Work

/-!
The course of a world: calls from outside or by the behavior of a delivery under way, and deliveries
that are opened, closed or dropped. A record is kept of what each move comes to.
-/

namespace Treadmill.World
variable {L : Layout} {α γ : Type}

/-! ### Moves -/

/-- What can be asked of a world at one time. -/
inductive Call (L : Layout) (α γ : Type)
  /-- Work on the heap. -/
  | heap (op : Op L)
  /-- A function reference for a behavior. -/
  | function (b : Behavior α)
  | send (target message : Ref L)
  | sendAfter (delay : Int) (target message : Ref L)
  /-- The names, the data of the host and the journal become these. -/
  | aside (symbols : Symbols) (guest : γ) (journal : Journal)
  | addRoot (r : Ref L)
  | gatherRoots
  | tick (reading : Moment)

inductive Move (L : Layout) (α γ : Type)
  | call (c : Call L α γ)
  /-- A delivery is begun. -/
  | opens
  /-- The behavior has done its work. -/
  | closes
  /-- The behavior has given up. -/
  | drops

/-- A world, and the delivery that is under way if there is one. -/
structure Point (L : Layout) (α γ : Type) where
  logged : Logged (World L α γ)
  opened : Option (Opened L α)

/-- A move together with what came of it. -/
structure Moved (L : Layout) (α γ : Type) where
  move : Move L α γ
  outcome : Except Fault (Option (Ref L))

namespace Call

def task [DecidableEq α] : Call L α γ → WorldTask L α γ (Option (Ref L))
  | heap op => onHeap op.task
  | function b => do return some (← World.function b)
  | send target message => do World.send target message; return none
  | sendAfter delay target message => do World.sendAfter delay target message; return none
  | aside symbols guest journal => fun s => .ok none ⟨{ s.state with symbols, guest }, journal⟩
  | addRoot r => do World.addRoot r; return none
  | gatherRoots => do let _ ← World.gatherRoots; return none
  | tick reading => do World.tick reading; return none

def operands : Call L α γ → List (Ref L)
  | heap op => op.operands
  | send target message | sendAfter _ target message => [target, message]
  | addRoot r => [r]
  | function _ | aside .. | gatherRoots | tick _ => []

/-- Whether no behavior can ask for it. -/
def isOuter : Call L α γ → Bool
  | addRoot _ | gatherRoots | tick _ => true
  | heap _ | function _ | send .. | sendAfter .. | aside .. => false

end Call

namespace Point

/-- A new world. -/
def new (capacity : Nat) (traced : Bool) (now : Moment) (guest : γ) (journal : Journal) :
    Point L α γ :=
  ⟨⟨World.empty capacity traced now guest, journal⟩, none⟩

def world (p : Point L α γ) : World L α γ := p.logged.state

end Point

/-- A new world without behaviors of a host, in which no log line is kept. -/
def quiet : Point .twoLow Empty Unit := Point.new 10 false .zero () ⟨none, #[]⟩

/-- What a move comes to, and where it leads. -/
def Move.next [DecidableEq α] :
    Move L α γ → Point L α γ → Except Fault (Option (Ref L)) × Point L α γ
  | call c, p => (outcomeOf (c.task p.logged), ⟨stateAfter (c.task p.logged), p.opened⟩)
  | opens, p =>
    match openLetter p.logged with
    | .ok d s => (.ok none, ⟨s, some d⟩)
    | .error f s => (.error f, ⟨s, none⟩)
  | closes, p =>
    match p.opened with
    | none => (.ok none, p)
    | some d =>
      match closeLetter d p.logged with
      | .ok _ s => (.ok none, ⟨s, none⟩)
      | .error f s => (.error f, ⟨s, none⟩)
  | drops, p => (.ok none, ⟨p.logged, none⟩)

/-- How a move from `w` ends, as long as there is room for what it takes. -/
def Move.Verdict (w : World L α γ) (o : Except Fault (Option (Ref L))) : Move L α γ → Prop
  | call (.send target _) =>
    o = if target.isActor then .ok none else .error (.misuse .send target.value)
  | call (.sendAfter delay target _) =>
    if target.isActor then
      match w.now.shift delay with
      | .ok due =>
        o = if Ref.minNumber L ≤ due.s ∧ due.s ≤ Ref.maxNumber L then .ok none
          else .error (.numberRange due.s L)
      | .error f => o = .error f
    else o = .error (.misuse .send target.value)
  | call (.aside ..) | call (.addRoot _) | call .gatherRoots | call (.tick _) | closes | drops =>
    o = .ok none
  | call (.heap _) | call (.function _) | opens => ∀ f, o = .error f → f.isGrave = false

/-- When a move is possible at all. -/
def Move.Fits : Move L α γ → Point L α γ → Prop
  | call c, p => c.isOuter = true → p.opened = none
  | opens, p => p.opened = none ∧ p.world.mailFirst.isNil = false
  | closes, p | drops, p => p.opened.isSome = true

section
variable [DecidableEq α]

def Point.after (p : Point L α γ) (m : Move L α γ) : Point L α γ := (m.next p).2

def Point.moved (p : Point L α γ) (m : Move L α γ) : Moved L α γ := ⟨m, (m.next p).1⟩

/-- Moves one after another, each of them allowed by what came before. A course ends when the arena
is exhausted: that takes more cells than there are addresses for. -/
inductive Course (allows : List (Moved L α γ) → Point L α γ → Move L α γ → Prop)
    (start : Point L α γ) : List (Moved L α γ) → Point L α γ → Prop
  | start : Course allows start [] start
  | move {trace : List (Moved L α γ)} {p : Point L α γ} (course : Course allows start trace p)
      (m : Move L α γ) (fits : m.Fits p) (allowed : allows trace p m)
      (enough : (p.moved m).outcome ≠ .error .arenaExhausted) :
      Course allows start (trace ++ [p.moved m]) (p.after m)

theorem Course.snoc {allows : List (Moved L α γ) → Point L α γ → Move L α γ → Prop}
    {start p q : Point L α γ} {trace : List (Moved L α γ)} {answer : Option (Ref L)}
    (course : Course allows start trace p) (m : Move L α γ) (next : q = p.after m)
    (done : (p.moved m).outcome = .ok answer) (fits : m.Fits p) (allowed : allows trace p m) :
    Course allows start (trace ++ [p.moved m]) q :=
  next ▸ course.move m fits allowed (by simp [done])

/-- A course with a last move has come to where that move was made. -/
theorem Course.of_concat {allows : List (Moved L α γ) → Point L α γ → Move L α γ → Prop}
    {start q : Point L α γ} {trace : List (Moved L α γ)} {d : Moved L α γ}
    (course : Course allows start (trace ++ [d]) q) :
    ∃ p m, Course allows start trace p ∧ m.Fits p ∧ allows trace p m ∧
      (p.moved m).outcome ≠ .error .arenaExhausted ∧ d = p.moved m ∧ q = p.after m := by
  generalize whole : trace ++ [d] = all at course
  cases course with
  | start => simp at whole
  | move course m fits allowed enough =>
    obtain ⟨rfl, last⟩ := List.append_inj' whole rfl
    exact ⟨_, m, course, fits, allowed, enough, by simpa using last, rfl⟩

end

/-! ### The record -/

/-- What a trace says about the world it has led to: what waits to be delivered, how many entries are
under delivery or were abandoned, the roots that were registered, the latest first, and which permanent
cells have been handed out. -/
structure Record (L : Layout) where
  agenda : Agenda L
  outside : Nat
  registered : List (Ref L)
  granted : List Nat

namespace Record

def empty (now : Moment) : Record L := ⟨.empty now, 0, [], []⟩

/-- The registered roots, and target and message of everything that waits to be delivered. -/
def refs (r : Record L) : List (Ref L) :=
  r.registered ++ (r.agenda.mail ++ r.agenda.timers.map Timer.note).flatMap Note.refs

/-- A delayed message whose due time no number can hold abandons its entry. -/
def afterDelay (r : Record L) (delay : Int) (target message : Ref L) :
    Except Fault (Option (Ref L)) → Record L
  | .ok _ =>
    match r.agenda.now.shift delay with
    | .ok due => { r with agenda := r.agenda.delay due target message }
    | .error _ => r
  | .error (.numberRange _ _) => { r with outside := r.outside + 1 }
  | .error _ => r

def after (r : Record L) : Moved L α γ → Record L
  | ⟨.call (.heap op), o⟩ => { r with granted := r.granted ++ Deed.granted ⟨op, o⟩ }
  | ⟨.call (.send target message), .ok _⟩ => { r with agenda := r.agenda.post target message }
  | ⟨.call (.sendAfter delay target message), o⟩ => r.afterDelay delay target message o
  | ⟨.call (.addRoot v), .ok _⟩ => { r with registered := v :: r.registered }
  | ⟨.call (.tick reading), .ok _⟩ => { r with agenda := r.agenda.tick reading }
  | ⟨.opens, _⟩ => { r with agenda := r.agenda.take, outside := r.outside + 1 }
  | ⟨.closes, .ok _⟩ => { r with outside := r.outside - 1 }
  | _ => r

/-- The record of a trace. -/
def of (now : Moment) (trace : List (Moved L α γ)) : Record L := trace.foldl after (empty now)

@[simp] theorem of_nil (now : Moment) : of now ([] : List (Moved L α γ)) = empty now := rfl

@[simp] theorem of_concat (now : Moment) (trace : List (Moved L α γ)) (m : Moved L α γ) :
    of now (trace ++ [m]) = (of now trace).after m := by
  simp [of]

end Record

end Treadmill.World

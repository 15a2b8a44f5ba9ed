import Treadmill.Data.Show
import Treadmill.Heap.Collect
import Treadmill.Moment

/-!
# Worlds

A world is a heap of actors with a mailbox and a queue of timers. Its queues are made of permanent
cells of its own heap. The host that embeds a world may bring behaviors of its own, named by `α`,
and keep data of its own beside the world, of type `γ`.
-/

namespace Treadmill

/-- What an actor does with a message. -/
inductive Behavior (α : Type)
  /-- Ignores every message. -/
  | sink
  /-- Reports every message as an error. -/
  | reportError
  /-- Waits for one message that equals the one in its state. -/
  | check
  /-- Traces one cell for each message, until the cycle under way can end. -/
  | trace
  | printText
  | printLine
  | hello
  | countdown
  | eachSecond
  | ticker
  | host (name : α)
deriving DecidableEq

/-- The mailbox is a list of entries, pairs of a target and a message. A timer is a node that holds
a due time and an entry; the timers are a list in due order. Cells that the queues do not need at
the moment are chained in the pool. -/
structure World (L : Layout) (α γ : Type) where
  heap : Heap L
  symbols : Symbols
  /-- The behaviors met so far; a function reference is an index into them. -/
  behaviors : Array (Behavior α)
  mailFirst : Ref L
  mailLast : Ref L
  pending : Nat
  /-- The most messages that may be pending without complaint. -/
  capacity : Nat
  /-- The entry under delivery. -/
  inDelivery : Ref L
  timers : Ref L
  delayed : Nat
  roots : Ref L
  pool : Ref L
  poolUsed : Nat
  poolMax : Nat
  delivered : Nat
  now : Moment
  /-- Whether each delivery is printed. -/
  traced : Bool
  guest : γ

/-- A message on its way: the actor it is for, and the message itself. -/
structure Delivery (L : Layout) where
  this : Ref L
  what : Ref L

abbrev WorldTask (L : Layout) (α γ : Type) := Task (World L α γ)

namespace World
variable {L : Layout} {α γ β : Type}

/-- A world with nothing in it, which came to be at the moment `now`. -/
def empty (capacity : Nat) (traced : Bool) (now : Moment) (guest : γ) : World L α γ where
  heap := .empty traced
  symbols := .empty
  behaviors := #[]
  mailFirst := .nil
  mailLast := .nil
  pending := 0
  capacity
  inDelivery := .nil
  timers := .nil
  delayed := 0
  roots := .nil
  pool := .nil
  poolUsed := 0
  poolMax := 0
  delivered := 0
  now
  traced
  guest

/-- A new world and the journal that its making begins. -/
def create (capacity : Nat) (traced : Bool) (now : Moment) (guest : γ)
    (threshold : Option Level) : Logged (World L α γ) where
  state := empty capacity traced now guest
  journal := Journal.add ⟨threshold, #[]⟩ (.worldMade capacity)

/-- The heap that stands in while the heap of a world is being worked on. -/
def noHeap : Heap L :=
  ⟨#[], ⟨0, 0, 0, 0, 0⟩, .p1, .p0, false, 0, false⟩

/-- Works on the heap of a world. -/
def onHeap (t : HeapTask L β) : WorldTask L α γ β :=
  Task.onPart (·.heap) (fun h w => { w with heap := h }) noHeap t

instance : MonadLift (HeapTask L) (WorldTask L α γ) := ⟨onHeap⟩

/-! ### Names and text -/

/-- The atom of a name. -/
def atom (name : String) : WorldTask L α γ (Ref L) :=
  Task.attempt fun w => do
    let (id, table) ← w.symbols.intern name
    return (.atom id, { w with symbols := table })

/-- The name of an atom, if the reference is an atom that has one. -/
def atomName? (w : World L α γ) (r : Ref L) : Option String :=
  match r.value with
  | .atom id => w.symbols.name? id
  | _ => none

/-- A value as text. -/
def showRef (w : World L α γ) (r : Ref L) : Writing :=
  Data.showRef w.heap w.symbols r

def shown (r : Ref L) : WorldTask L α γ String := do
  Task.ofExcept (← Task.view (·.showRef r)).toExcept

/-! ### Behaviors -/

variable [DecidableEq α]

/-- The function reference of a behavior, which gets the next index when it is new. -/
def function (b : Behavior α) : WorldTask L α γ (Ref L) := do
  let known ← Task.view (·.behaviors)
  match known.idxOf? b with
  | some i => Task.ofExcept (Ref.func i)
  | none =>
    Task.alter fun w => { w with behaviors := w.behaviors.push b }
    Task.ofExcept (Ref.func known.size)

omit [DecidableEq α] in
/-- The behavior that an actor has now. -/
def behaviorOf (actor : Ref L) : WorldTask L α γ (Behavior α) := do
  let i ← Task.ofExcept (← Heap.behavior actor).asFunc
  let known ← Task.view (·.behaviors)
  match known[i]? with
  | some b => return b
  | none => throw (.outOfBounds known.size i)

/-- A new actor. -/
def createActor (b : Behavior α) (state : Ref L) : WorldTask L α γ (Ref L) := do
  Heap.actorCell (← function b) state

/-- Gives an actor another behavior and state from its next message on. -/
def becomeActor (actor : Ref L) (b : Behavior α) (state : Ref L) : WorldTask L α γ Unit := do
  Heap.setActor actor (← function b) state

/-! ### Reports -/

omit [DecidableEq α] in
def stats (w : World L α γ) : Stats :=
  ⟨w.delivered, w.pending, w.capacity, w.delayed, w.poolUsed, w.poolMax, w.behaviors.size⟩

omit [DecidableEq α] in
/-- Logs the counters of the world and the lengths of its rings. -/
def report : WorldTask L α γ Unit := do
  Task.note (.statsReport (← Task.view (·.stats)))
  let _ ← onHeap Heap.reportUsage

end World

end Treadmill

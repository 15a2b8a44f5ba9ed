import Treadmill.Heap.Links
import Treadmill.Task

/-!
# Access and allocation

Reading and writing the slots of cells, and handing out new ones. While a cycle is under way every
cell that is read, written or stored is promoted: a candidate among them moves to the scan ring,
so the cycle keeps it.
-/

namespace Treadmill

abbrev HeapTask (L : Layout) := Task (Heap L)

namespace Heap
variable {L : Layout}

/-- The cell at an index, which must lie in the arena. -/
def fetch (i : Nat) : HeapTask L (Cell L) := fun s =>
  match s.state.cells[i]? with
  | some c => .ok c s
  | none => .error (.outOfBounds s.state.cells.size i) s

/-- The mark on the cell that a pair or an actor names. -/
def markOf (r : Ref L) : HeapTask L Mark := do
  return (← fetch (← Task.ofExcept r.cell)).mark

/-! ### Promotion -/

/-- The heap once the candidate `i` has moved to the end of the scan ring. -/
def promote (h : Heap L) (i : Nat) : Heap L :=
  let m := h.phase
  ((h.withdraw .aged i).setMark i m).pushBack .scan i

/-- Promotes a cell if its mark makes it a candidate. -/
def scanCell (i : Nat) : HeapTask L Unit := do
  let c ← fetch i
  let last ← Task.view (·.lastPhase)
  if c.mark = last then
    let candidates ← Task.view (·.size .aged)
    Task.require (0 < candidates) (.noCandidates i c.mark)
    Task.alter (·.promote i)

/-- Promotes the cell that a pair or an actor names. -/
def scanValue (r : Ref L) : HeapTask L Unit := do
  if r.isCons || r.isActor then
    scanCell (← Task.ofExcept r.cell)

/-- Promotes what a stored reference names, while a cycle is under way. -/
def shade (r : Ref L) : HeapTask L Unit := do
  if ← Task.view (·.collecting) then scanValue r

/-- Promotes the cell that a reference names and answers with its index. -/
def approach (r : Ref L) : HeapTask L Nat := do
  let i ← Task.ofExcept r.cell
  scanCell i
  return i

/-! ### Slots -/

/-- The first slot of a pair; the empty list is its own. -/
def first (r : Ref L) : HeapTask L (Ref L) := do
  if r.isNil then return .nil
  Task.require r.isPair (.misuse .first r.value)
  return (← fetch (← approach r)).first

/-- The rest slot of a pair; the empty list is its own. -/
def rest (r : Ref L) : HeapTask L (Ref L) := do
  if r.isNil then return .nil
  Task.require r.isPair (.misuse .rest r.value)
  return (← fetch (← approach r)).rest

def setFirst (r v : Ref L) : HeapTask L Unit := do
  Task.require r.isCons (.misuse .setFirst r.value)
  let i ← approach r
  Task.alter (·.modifyCell i fun c => { c with first := v })
  shade v

def setRest (r v : Ref L) : HeapTask L Unit := do
  Task.require r.isCons (.misuse .setRest r.value)
  let i ← approach r
  Task.alter (·.modifyCell i fun c => { c with rest := v })
  shade v

/-- The behavior of an actor, as a function reference. -/
def behavior (a : Ref L) : HeapTask L (Ref L) := do
  Task.require a.isActor (.misuse .behavior a.value)
  return (← fetch (← approach a)).first

/-- The state of an actor. -/
def state (a : Ref L) : HeapTask L (Ref L) := do
  Task.require a.isActor (.misuse .state a.value)
  return (← fetch (← approach a)).rest

/-- Gives an actor another behavior and state. -/
def setActor (a beh st : Ref L) : HeapTask L Unit := do
  Task.require a.isActor (.misuse .become a.value)
  Task.require beh.isFunc (.notFunction beh.value)
  let i ← approach a
  Task.alter (·.setSlots i beh st)
  shade st

/-! ### Allocation -/

/-- Adds a block of cells to a ring. -/
def refill (r : Ring) : HeapTask L Unit := do
  let arena ← Task.view (·.cells.size)
  Task.require (arena + blockCells ≤ Ref.maxCell L) .arenaExhausted
  Task.alter (·.extend r)
  Task.note (.blockAdded r (arena + blockCells))

/-- Adds a block of cells to a ring that has no cells on record. -/
def refillEmpty (r : Ring) : HeapTask L Unit := do
  if (← Task.view (·.size r)) = 0 then refill r

/-- Takes a cell from the free ring, which is refilled first when it has no cells on record. -/
def takeFree : HeapTask L Nat := do
  refillEmpty .free
  match ← Task.change (·.popFront .free) with
  | some i => return i
  | none => throw .nothingFree

/-- Takes a cell from the reserve of permanent cells, which is refilled first when it has no cells
on record. -/
def takeReserved : HeapTask L Nat := do
  refillEmpty .perm
  match ← Task.change (·.popBack .perm) with
  | some i => return i
  | none => throw .nothingReserved

/-- Notes an event if the heap is traced. -/
def noteTraced (e : Heap L → Event) : HeapTask L Unit := do
  Task.when (← Task.view (·.traced)) (Task.note (← Task.view e))

/-- The heap once the unlinked cell `i` is in use with these slots. -/
def enroll (h : Heap L) (i : Nat) (first rest : Ref L) : Heap L :=
  let m := h.phase
  ((h.setMark i m).setSlots i first rest).pushBack .fresh i

/-- A new cell, which the collector may reclaim. -/
def cons (first rest : Ref L) : HeapTask L (Ref L) := do
  let i ← takeFree
  Task.alter (·.enroll i first rest)
  shade first
  shade rest
  noteTraced fun h => .cellBorn i h.phase
  Task.ofExcept (Ref.pair i)

/-- A new permanent cell, which the collector neither traces nor reclaims. -/
def perm (first rest : Ref L) : HeapTask L (Ref L) := do
  let i ← takeReserved
  Task.alter fun h => (h.setMark i .x).setSlots i first rest
  shade first
  shade rest
  noteTraced fun _ => .cellFixed i
  Task.ofExcept (Ref.pair i)

/-- A new actor cell, which the collector may reclaim. -/
def actorCell (beh st : Ref L) : HeapTask L (Ref L) := do
  Task.require beh.isFunc (.notFunction beh.value)
  let p ← cons beh st
  Task.ofExcept (Ref.actor (← Task.ofExcept p.cell))

/-- New cells that hold the items in order, in front of `tail`. The last item gets its cell
first. -/
def consAll (items : List (Ref L)) (tail : Ref L) : HeapTask L (Ref L) :=
  items.foldrM cons tail

/-- A new proper list of the items. -/
def ofList (items : List (Ref L)) : HeapTask L (Ref L) :=
  consAll items .nil

/-! ### Walks -/

/-- More steps than any walk over cells takes that comes to an end. A walk that only reads meets no
cell, and no pair of cells, twice. One that allocates may also meet the cells it has made and, in
cells that were free, slots that changed under it, but each free cell changes only once. -/
def walkLimit : HeapTask L Nat := do
  let n := (← Task.view (·.cells.size)) + blockCells
  return 4 * n * n

end Heap

end Treadmill

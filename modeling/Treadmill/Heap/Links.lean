import Treadmill.Heap.Basic

/-!
# Links

The rings of a heap are threaded through the links of its cells. `members` reads a ring as a
sequence, from the cell after the head to the cell before it.
-/

namespace Treadmill

namespace Heap
variable {L : Layout}

/-- The cells met by following links from `i` up to `stop`, at most `n` of them. -/
def membersFrom (h : Heap L) (stop : Nat) : Nat → Nat → List Nat
  | 0, _ => []
  | n + 1, i => if i = stop then [] else i :: membersFrom h stop n (h.next i)

/-- The cells of a ring, in order. -/
def members (h : Heap L) (r : Ring) : List Nat :=
  h.membersFrom r.head h.cells.size (h.next r.head)

/-- Links `x` in just before `y`. -/
def insertBefore (h : Heap L) (y x : Nat) : Heap L :=
  let p := h.prev y
  (((h.setNext x y).setPrev x p).setNext p x).setPrev y x

/-- Links `x` in just after `y`. -/
def insertAfter (h : Heap L) (y x : Nat) : Heap L :=
  let n := h.next y
  (((h.setPrev x y).setNext x n).setPrev n x).setNext y x

/-- Takes `x` out of the ring that holds it and links it to itself. -/
def extract (h : Heap L) (x : Nat) : Heap L :=
  let p := h.prev x
  let n := h.next x
  (((h.setNext p n).setPrev n p).setNext x x).setPrev x x

/-- Puts a cell in front of a ring. -/
def pushFront (h : Heap L) (r : Ring) (x : Nat) : Heap L :=
  let n := h.size r
  (h.insertAfter r.head x).setSize r (n + 1)

/-- Puts a cell at the end of a ring. -/
def pushBack (h : Heap L) (r : Ring) (x : Nat) : Heap L :=
  let n := h.size r
  (h.insertBefore r.head x).setSize r (n + 1)

/-- Takes `x` out of the ring `r` and records the loss. -/
def withdraw (h : Heap L) (r : Ring) (x : Nat) : Heap L :=
  let n := h.size r
  (h.extract x).setSize r (n - 1)

/-- Takes the first cell off a ring; a ring with no cells stays as it is. -/
def popFront (h : Heap L) (r : Ring) : Option Nat × Heap L :=
  let x := h.next r.head
  if x = r.head then (none, h) else (some x, h.withdraw r x)

/-- Takes the last cell off a ring; a ring with no cells stays as it is. -/
def popBack (h : Heap L) (r : Ring) : Option Nat × Heap L :=
  let x := h.prev r.head
  if x = r.head then (none, h) else (some x, h.withdraw r x)

/-- Moves all cells of `source` to the end of `target`. -/
def splice (h : Heap L) (target source : Ring) : Heap L :=
  let first := h.next source.head
  if first = source.head then h
  else
    let last := h.prev source.head
    let tail := h.prev target.head
    let n := h.size target + h.size source
    let joined := (((h.setNext tail first).setPrev first tail).setNext last target.head).setPrev
      target.head last
    let emptied := (joined.setNext source.head source.head).setPrev source.head source.head
    (emptied.setSize target n).setSize source 0

/-- The cell at place `k` of a block that starts at `base` and is linked in a row, between the cells
`before` and `after`. -/
def blockCell (base before after k : Nat) : Cell L where
  first := .nil
  rest := .nil
  back := UInt64.ofNat (if k = 0 then before else base + k - 1)
  forth := UInt64.ofNat (if k + 1 = blockCells then after else base + k + 1)

/-- Adds a block of cells that were never used to the end of a ring. -/
def extend (h : Heap L) (r : Ring) : Heap L :=
  let base := h.cells.size
  let tail := h.prev r.head
  let n := h.size r
  let block := Array.ofFn fun k : Fin blockCells => blockCell base tail r.head k
  let grown := { h with cells := h.cells ++ block }
  ((grown.setNext tail base).setPrev r.head (base + blockCells - 1)).setSize r (n + blockCells)

end Heap

end Treadmill

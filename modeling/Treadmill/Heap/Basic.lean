import Treadmill.Heap.Cell

/-!
# Heaps

A heap is an arena of cells together with the recorded lengths of its rings and the state of the
cycle under way.
-/

namespace Treadmill

/-- The recorded length of each ring. -/
structure Sizes where
  free : Nat
  fresh : Nat
  aged : Nat
  scan : Nat
  perm : Nat
deriving DecidableEq

namespace Sizes

def get (s : Sizes) : Ring → Nat
  | .free => s.free
  | .fresh => s.fresh
  | .aged => s.aged
  | .scan => s.scan
  | .perm => s.perm

def set (s : Sizes) (n : Nat) : Ring → Sizes
  | .free => { s with free := n }
  | .fresh => { s with fresh := n }
  | .aged => { s with aged := n }
  | .scan => { s with scan := n }
  | .perm => { s with perm := n }

theorem get_set (s : Sizes) (n : Nat) (r q : Ring) :
    (s.set n r).get q = if q = r then n else s.get q := by
  cases r <;> cases q <;> rfl

def total (s : Sizes) : Nat := s.free + s.fresh + s.aged + s.scan + s.perm

end Sizes

/-- An arena of cells and the state of its collector. Cell 0 is the empty list, cells 1 to 5 head
the rings, and the cells from 6 on are the ones handed out. -/
structure Heap (L : Layout) where
  cells : Array (Cell L)
  sizes : Sizes
  /-- The mark of cells that are alive as far as the collector knows. -/
  phase : Mark
  /-- The mark of candidates. -/
  lastPhase : Mark
  /-- A cycle is under way: the candidates are being traced. -/
  collecting : Bool
  /-- How many cycles have come to their end. -/
  cycles : Nat
  /-- Whether the birth and death of each cell are printed. -/
  traced : Bool

/-- The first cell that is neither the empty list nor a ring head. -/
def firstCell : Nat := 6

/-- How many cells are added at a time. -/
def blockCells : Nat := 256

namespace Heap
variable {L : Layout}

def empty (traced : Bool) : Heap L where
  cells := Array.ofFn fun i : Fin firstCell => Cell.unlinked i
  sizes := ⟨0, 0, 0, 0, 0⟩
  phase := .p1
  lastPhase := .p0
  collecting := false
  cycles := 0
  traced := traced

def size (h : Heap L) (r : Ring) : Nat := h.sizes.get r

/-- The cell at an index. Outside the arena this is cell 0's initial content, and no operation
looks there before it has checked the index. -/
def cellAt (h : Heap L) (i : Nat) : Cell L := h.cells.getD i default

def next (h : Heap L) (i : Nat) : Nat := (h.cellAt i).next

def prev (h : Heap L) (i : Nat) : Nat := (h.cellAt i).prev

def mark (h : Heap L) (i : Nat) : Mark := (h.cellAt i).mark

/-- The heap with one cell changed. -/
def modifyCell (h : Heap L) (i : Nat) (f : Cell L → Cell L) : Heap L :=
  { h with cells := h.cells.modify i f }

def setNext (h : Heap L) (i n : Nat) : Heap L := h.modifyCell i (·.setNext n)

def setPrev (h : Heap L) (i p : Nat) : Heap L := h.modifyCell i (·.setPrev p)

def setMark (h : Heap L) (i : Nat) (m : Mark) : Heap L := h.modifyCell i (·.setMark m)

def setSlots (h : Heap L) (i : Nat) (first rest : Ref L) : Heap L :=
  h.modifyCell i fun c => { c with first, rest }

/-- Only the cell that is changed changes, and only inside the arena. -/
theorem cellAt_modifyCell (h : Heap L) (i j : Nat) (f : Cell L → Cell L) :
    (h.modifyCell i f).cellAt j =
      if i = j ∧ j < h.cells.size then f (h.cellAt j) else h.cellAt j := by
  by_cases inside : j < h.cells.size
  · by_cases same : i = j <;>
      simp [cellAt, modifyCell, inside, same, Array.getD, Array.getElem_modify]
  · simp [cellAt, modifyCell, inside, Array.getD]

@[simp] theorem size_cells_modifyCell (h : Heap L) (i : Nat) (f : Cell L → Cell L) :
    (h.modifyCell i f).cells.size = h.cells.size := by
  simp [modifyCell]

def setSize (h : Heap L) (r : Ring) (n : Nat) : Heap L := { h with sizes := h.sizes.set n r }

end Heap

/-- The lengths of the rings at one moment, with `fixed` the permanent cells in use and `total`
all cells but the empty list and the ring heads. -/
structure Usage where
  free : Nat
  fresh : Nat
  aged : Nat
  scan : Nat
  perm : Nat
  fixed : Nat
  total : Nat
deriving DecidableEq

namespace Usage

def text (u : Usage) : String :=
  s!"free={u.free} fresh={u.fresh} aged={u.aged} scan={u.scan} perm={u.perm} fixed={u.fixed} " ++
    s!"total={u.total}"

end Usage

end Treadmill

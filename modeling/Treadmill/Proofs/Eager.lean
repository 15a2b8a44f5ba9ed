import Mathlib
import Treadmill.Heap.Collect

/-!
Runs on given worlds, evaluated by the kernel. What is asked of a state is asked of the state worked
out: otherwise every question would run again all that leads there. And a block of cells is put
behind the arena as one list, not cell by cell.
-/

namespace Treadmill
variable {L : Layout} {α β : Type}

/-! ### Values worked out -/

/-- A way to ask something of a value that has the value worked out first. -/
class Eager (α : Type) where
  work : α → (α → Bool) → Bool
  work_eq : ∀ a ask, work a ask = ask a

namespace Eager

/-- Asks something of a value once that is worked out. It is no projection: to compare two questions the
kernel compares what is asked of which value, and works nothing out. -/
def eagerly [Eager α] (a : α) (ask : α → Bool) : Bool := work a ask

@[simp] theorem eagerly_eq [Eager α] (a : α) (ask : α → Bool) : eagerly a ask = ask a := work_eq a ask

/-- The number is worked out by the match. -/
def number (n : Nat) (ask : (m : Nat) → m = n → Bool) : Bool :=
  match n, ask with
  | 0, ask => ask 0 rfl
  | m + 1, ask => ask (m + 1) rfl

@[simp] theorem number_eq (n : Nat) (ask : (m : Nat) → m = n → Bool) : number n ask = ask n rfl := by
  cases n <;> rfl

instance : Eager Nat where
  work n ask := number n fun m _ => ask m
  work_eq := by simp

instance : Eager Int where
  work n ask :=
    match n with
    | .ofNat m => number m fun m _ => ask (.ofNat m)
    | .negSucc m => number m fun m _ => ask (.negSucc m)
  work_eq n _ := by cases n <;> simp

instance : Eager Bool where
  work b ask :=
    match b with
    | false => ask false
    | true => ask true
  work_eq b _ := by cases b <;> rfl

instance : Eager Mark where
  work m ask :=
    match m with
    | .z => ask .z
    | .x => ask .x
    | .p0 => ask .p0
    | .p1 => ask .p1
  work_eq m _ := by cases m <;> rfl

instance : Eager UInt64 where
  work w ask := number w.toNat fun n _ => ask (.ofNat n)
  work_eq := by simp

instance : Eager (Ref L) where
  work r ask := number r.word.toNat fun n same => ask ⟨.ofNat n, by simpa [same] using r.valid⟩
  work_eq := by simp

def list [Eager α] : List α → (List α → Bool) → Bool
  | [], ask => ask []
  | a :: as, ask => eagerly a fun a => list as fun as => ask (a :: as)

theorem list_eq [Eager α] (as : List α) (ask : List α → Bool) : list as ask = ask as := by
  induction as generalizing ask with
  | nil => rfl
  | cons a as ih => simp [list, ih]

instance [Eager α] : Eager (List α) := ⟨list, list_eq⟩

instance [Eager α] : Eager (Array α) where
  work as ask := eagerly as.toList fun as => ask ⟨as⟩
  work_eq := by simp

instance [Eager α] : Eager (Option α) where
  work o ask :=
    match o with
    | none => ask none
    | some a => eagerly a fun a => ask (some a)
  work_eq o _ := by cases o <;> simp

instance [Eager α] : Eager (Except β α) where
  work e ask :=
    match e with
    | .ok a => eagerly a fun a => ask (.ok a)
    | .error f => ask (.error f)
  work_eq e _ := by cases e <;> simp

instance : Eager (Cell L) where
  work c ask :=
    eagerly c.first fun first => eagerly c.rest fun rest =>
      eagerly c.back fun back => eagerly c.forth fun forth => ask ⟨first, rest, back, forth⟩
  work_eq := by simp

instance : Eager Sizes where
  work s ask :=
    eagerly s.free fun free => eagerly s.fresh fun fresh => eagerly s.aged fun aged =>
      eagerly s.scan fun scan => eagerly s.perm fun perm => ask ⟨free, fresh, aged, scan, perm⟩
  work_eq := by simp

instance : Eager (Heap L) where
  work h ask :=
    eagerly h.cells fun cells => eagerly h.sizes fun sizes => eagerly h.phase fun phase =>
      eagerly h.lastPhase fun lastPhase => eagerly h.collecting fun collecting =>
        eagerly h.cycles fun cycles => eagerly h.traced fun traced =>
          ask ⟨cells, sizes, phase, lastPhase, collecting, cycles, traced⟩
  work_eq := by simp

instance : Eager Journal where
  work j ask :=
    match j.threshold with
    | none => ask ⟨none, j.events⟩
    | some l => ask ⟨some l, j.events⟩
  work_eq j _ := by obtain ⟨_ | _, _⟩ := j <;> rfl

instance [Eager α] : Eager (Logged α) where
  work s ask := eagerly s.state fun state => eagerly s.journal fun journal => ask ⟨state, journal⟩
  work_eq := by simp

/-- A value that was worked out can be named. -/
theorem of_eagerly [Eager α] {a : α} {ask : α → Bool} (worked : eagerly a ask = true) :
    ∃ x, x = a ∧ ask x = true := ⟨a, rfl, by simpa using worked⟩

/-- What holds of a value that is spelled out as a computation is decided by working it out. -/
instance [Eager α] {a : α} {P : α → Prop} [DecidablePred P] : Decidable (∃ x, x = a ∧ P x) :=
  decidable_of_iff (eagerly a (fun x => decide (P x)) = true) (by simp)

end Eager

/-! ### Blocks as lists -/

namespace Heap

/-- `extend` with the arena and the block taken as lists. -/
def lengthen (h : Heap L) (r : Ring) : Heap L :=
  let base := h.cells.size
  let tail := h.prev r.head
  let n := h.size r
  let block := (List.range blockCells).map (blockCell base tail r.head)
  let grown := { h with cells := ⟨h.cells.toList ++ block⟩ }
  ((grown.setNext tail base).setPrev r.head (base + blockCells - 1)).setSize r (n + blockCells)

theorem extend_eq_lengthen (h : Heap L) (r : Ring) : h.extend r = h.lengthen r := by
  have block (base tail head : Nat) :
      (h.cells ++ Array.ofFn fun k : Fin blockCells => blockCell base tail head k) =
        ⟨h.cells.toList ++ (List.range blockCells).map (blockCell base tail head)⟩ := by
    apply Array.toList_inj.mp
    rw [Array.toList_append, Array.toList_ofFn, List.ofFn_eq_map, ← List.map_coe_finRange_eq_range,
      List.map_map]
    rfl
  simp only [extend, lengthen, block]

end Heap

end Treadmill

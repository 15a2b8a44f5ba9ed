import Treadmill.Heap.Access
import Treadmill.Proofs.Heap.Block
import Treadmill.Proofs.Target

/-!
Which cells are in use, and what holds of a heap even in the middle of an operation (`Tidy`). In a
tidy heap the mark of a cell in use tells whether it is a candidate, so promoting what references
name moves candidates to the scan ring and does nothing else (`Promoted`).
-/

namespace Treadmill.Heap
variable {L : Layout} {h k : Heap L} {i j : Nat}

/-- A cell in use that the collector may reclaim. -/
def Collectable (h : Heap L) (i : Nat) : Prop :=
  i ∈ h.members .fresh ∨ i ∈ h.members .aged ∨ i ∈ h.members .scan

/-- A permanent cell in use, which stands on no ring. -/
def Fixed (h : Heap L) (i : Nat) : Prop :=
  firstCell ≤ i ∧ i < h.cells.size ∧ ∀ r, i ∉ h.members r

def InUse (h : Heap L) (i : Nat) : Prop := h.Collectable i ∨ h.Fixed i

/-- The cell that a reference names, if it names one, is in use. -/
def Holds (h : Heap L) (v : Ref L) : Prop := ∀ i, v.target? = some i → h.InUse i

/-- The cell that a reference names, if it names one, is no candidate. -/
def Clear (h : Heap L) (v : Ref L) : Prop := ∀ i, v.target? = some i → i ∉ h.members .aged

structure Tidy (h : Heap L) : Prop where
  threaded : h.Threaded h.members
  parked : h.Parked h.members
  phases : h.phase = .p0 ∧ h.lastPhase = .p1 ∨ h.phase = .p1 ∧ h.lastPhase = .p0
  fresh : ∀ i ∈ h.members .fresh, h.mark i = h.phase
  scan : ∀ i ∈ h.members .scan, h.mark i = h.phase
  aged : ∀ i ∈ h.members .aged, h.mark i = h.lastPhase
  fixed : ∀ i, h.Fixed i → h.mark i ≠ h.lastPhase
  heads : ∀ i < firstCell, h.mark i = .z
  idle : h.collecting = false → h.members .aged = [] ∧ h.members .scan = []
  nil : h.slots 0 = [.nil, .nil]
  room : h.cells.size ≤ Ref.maxCell L
  held : ∀ i, h.Collectable i → ∀ v ∈ h.slots i, h.Holds v

theorem Tidy.phase_ne (tidy : h.Tidy) : h.phase ≠ h.lastPhase := by
  rcases tidy.phases with ⟨same, last⟩ | ⟨same, last⟩ <;> rw [same, last] <;> decide

theorem Threaded.inside_of_collectable (t : h.Threaded h.members) (use : h.Collectable i) :
    firstCell ≤ i ∧ i < h.cells.size := by
  rcases use with fresh | aged | scan
  · exact t.inside fresh
  · exact t.inside aged
  · exact t.inside scan

theorem Threaded.inside_of_inUse (t : h.Threaded h.members) (use : h.InUse i) :
    firstCell ≤ i ∧ i < h.cells.size := by
  rcases use with collectable | fixed
  · exact t.inside_of_collectable collectable
  · exact ⟨fixed.1, fixed.2.1⟩

/-- The cells in use are those that are neither free nor in reserve. -/
theorem Threaded.inUse_iff (t : h.Threaded h.members) :
    h.InUse i ↔ firstCell ≤ i ∧ i < h.cells.size ∧ i ∉ h.members .free ∧ i ∉ h.members .perm := by
  constructor
  · intro use
    refine ⟨(t.inside_of_inUse use).1, (t.inside_of_inUse use).2, ?_, ?_⟩ <;> intro other
    all_goals rcases use with (on | on | on) | fixed
    all_goals first
      | exact absurd (t.apart on other) (by decide)
      | exact fixed.2.2 _ other
  · rintro ⟨low, high, notFree, notPerm⟩
    by_cases use : h.Collectable i
    · exact Or.inl use
    · refine Or.inr ⟨low, high, fun r => ?_⟩
      unfold Collectable at use
      push Not at use
      cases r with
      | free => exact notFree
      | fresh => exact use.1
      | aged => exact use.2.1
      | scan => exact use.2.2
      | perm => exact notPerm

theorem fixed_iff : h.Fixed i ↔ firstCell ≤ i ∧ i < h.cells.size ∧ i ∉ h.members .free ∧
    i ∉ h.members .fresh ∧ i ∉ h.members .aged ∧ i ∉ h.members .scan ∧ i ∉ h.members .perm := by
  unfold Fixed
  refine and_congr_right fun _ => and_congr_right fun _ => ⟨fun off => ?_, fun off r => ?_⟩
  · exact ⟨off _, off _, off _, off _, off _⟩
  · cases r <;> simp only [off, not_false_eq_true]

/-! ### Writing a cell -/

theorem Threaded.congr {rows : Ring → List Nat} (t : h.Threaded rows)
    (next : ∀ i, k.next i = h.next i) (prev : ∀ i, k.prev i = h.prev i)
    (size : ∀ r, k.size r = h.size r) (arena : k.cells.size = h.cells.size) : k.Threaded rows where
  circle r := (t.circle r).congr (fun i _ => next i) (fun i _ => prev i)
  recorded r := (size r).trans (t.recorded r)
  nodup := t.nodup
  apart := t.apart
  inside member := by rw [arena]; exact t.inside member
  heads := by rw [arena]; exact t.heads
  narrow := by rw [arena]; exact t.narrow

theorem Parked.congr {rows : Ring → List Nat} (parked : h.Parked rows)
    (next : ∀ i, k.next i = h.next i) (prev : ∀ i, k.prev i = h.prev i)
    (arena : k.cells.size = h.cells.size) : k.Parked rows := by
  intro i low high loose
  rw [next, prev]
  exact parked i low (by rwa [← arena]) loose

theorem Threaded.setMark {rows : Ring → List Nat} (t : h.Threaded rows) (i : Nat) (m : Mark) :
    (h.setMark i m).Threaded rows :=
  t.congr (next_setMark i m) (prev_setMark i m) (fun _ => rfl) (arena_setMark i m)

theorem Parked.setMark {rows : Ring → List Nat} (parked : h.Parked rows) (i : Nat) (m : Mark) :
    (h.setMark i m).Parked rows :=
  parked.congr (next_setMark i m) (prev_setMark i m) (arena_setMark i m)

theorem Threaded.setSlots {rows : Ring → List Nat} (t : h.Threaded rows) (i : Nat) (a b : Ref L) :
    (h.setSlots i a b).Threaded rows :=
  t.congr (next_setSlots i a b) (prev_setSlots i a b) (fun _ => rfl) (arena_setSlots i a b)

theorem Parked.setSlots {rows : Ring → List Nat} (parked : h.Parked rows) (i : Nat) (a b : Ref L) :
    (h.setSlots i a b).Parked rows :=
  parked.congr (next_setSlots i a b) (prev_setSlots i a b) (arena_setSlots i a b)

/-! ### Promotion -/

/-- `k` is `h` with some candidates moved to the scan ring. -/
structure Promoted (h k : Heap L) : Prop extends SameCycle h k where
  arena : k.cells.size = h.cells.size
  slots : ∀ i, k.slots i = h.slots i
  mark : ∀ i, i ∉ h.members .aged → k.mark i = h.mark i
  others : ∀ r, r ≠ .aged → r ≠ .scan → k.members r = h.members r
  aged : ∀ i ∈ k.members .aged, i ∈ h.members .aged
  scan : ∀ i, i ∈ k.members .scan ↔
    i ∈ h.members .scan ∨ i ∈ h.members .aged ∧ i ∉ k.members .aged
  count : (k.members .aged).length + (k.members .scan).length =
    (h.members .aged).length + (h.members .scan).length

namespace Promoted

theorem refl (h : Heap L) : Promoted h h where
  toSameCycle := .refl h
  arena := rfl
  slots _ := rfl
  mark _ _ := rfl
  others _ _ _ := rfl
  aged _ member := member
  scan _ := ⟨Or.inl, fun on => on.elim id fun both => absurd both.1 both.2⟩
  count := rfl

theorem trans {m : Heap L} (first : Promoted h k) (second : Promoted k m) : Promoted h m where
  toSameCycle := first.toSameCycle.trans second.toSameCycle
  arena := second.arena.trans first.arena
  slots i := (second.slots i).trans (first.slots i)
  mark i old := (second.mark i fun member => old (first.aged i member)).trans (first.mark i old)
  others r notAged notScan := (second.others r notAged notScan).trans (first.others r notAged notScan)
  aged i member := first.aged i (second.aged i member)
  scan i := by
    have one := first.scan i
    have two := second.scan i
    have inOne := first.aged i
    have inTwo := second.aged i
    tauto
  count := second.count.trans first.count

variable (p : Promoted h k)
include p

theorem collectable_iff : k.Collectable i ↔ h.Collectable i := by
  have fresh := p.others .fresh (by decide) (by decide)
  have aged := p.aged i
  have scan := p.scan i
  unfold Collectable
  rw [fresh]
  tauto

theorem fixed_iff : k.Fixed i ↔ h.Fixed i := by
  have aged := p.aged i
  have scan := p.scan i
  have off : (∀ r, i ∉ k.members r) ↔ ∀ r, i ∉ h.members r := by
    constructor <;> intro off r
    · cases r with
      | aged => exact fun member => off .scan (scan.mpr (Or.inr ⟨member, off .aged⟩))
      | scan => exact fun member => off .scan (scan.mpr (Or.inl member))
      | free | fresh | perm => rw [← p.others _ (by decide) (by decide)]; exact off _
    · cases r with
      | aged => exact fun member => off .aged (aged member)
      | scan => exact fun member => (scan.mp member).elim (off .scan) fun both => off .aged both.1
      | free | fresh | perm => rw [p.others _ (by decide) (by decide)]; exact off _
  rw [Fixed, Fixed, p.arena, off]

theorem inUse_iff : k.InUse i ↔ h.InUse i := by
  rw [InUse, InUse, p.collectable_iff, p.fixed_iff]

theorem holds_iff {v : Ref L} : k.Holds v ↔ h.Holds v := by
  unfold Holds
  simp only [p.inUse_iff]

theorem clear {v : Ref L} (clear : h.Clear v) : k.Clear v :=
  fun i target member => clear i target (p.aged i member)

end Promoted

/-- The heap once the cell `i`, which is in use, is known to be alive. -/
def keep (h : Heap L) (i : Nat) : Heap L :=
  if h.mark i = h.lastPhase then h.promote i else h

/-- The heap once the cell that a reference names is known to be alive. -/
def keepTarget (h : Heap L) (v : Ref L) : Heap L :=
  match v.target? with
  | some i => h.keep i
  | none => h

/-- The cell that a reference names, if it names one, is in the arena, and marked as a candidate
only if it is one. -/
def Regular (h : Heap L) (v : Ref L) : Prop :=
  ∀ i, v.target? = some i →
    i < h.cells.size ∧ (h.mark i = h.lastPhase → i ∈ h.members .aged)

end Treadmill.Heap

import Mathlib
import Treadmill.Proofs.Heap.Run

/-!
The representation of a heap in every state of a run (`Runs.shape`): its rings, the recorded
lengths, the marks and the empty list. The permanent cells in use are exactly those that the run
has handed out.
-/

namespace Treadmill
variable {L : Layout} {h k : Heap L} {s t : Logged (Heap L)} {deeds : List (Deed L)}
  {traced : Bool} {journal : Journal} {i : Nat}
open Heap

/-- A permanent cell that an operation of the run has answered with. -/
def HandedOut (deeds : List (Deed L)) (i : Nat) : Prop :=
  ∃ a b r, (⟨.act (.perm a b), .ok (some r)⟩ : Deed L) ∈ deeds ∧ r.target? = some i

/-- The representation of a heap that has handed out just the permanent cells `handed`. -/
structure Shape (h : Heap L) (handed : Nat → Prop) : Prop where
  /-- The links lead from the head of a ring through its cells and back. -/
  circle : ∀ r, h.Circle r.head (h.members r)
  inverse : ∀ r, ∀ i ∈ r.head :: h.members r, h.prev (h.next i) = i ∧ h.next (h.prev i) = i
  nodup : ∀ r, (r.head :: h.members r).Nodup
  /-- A cell stands on one ring, or it is permanent, in use and linked to itself. -/
  place : ∀ i, firstCell ≤ i → i < h.cells.size →
    (∃! r, i ∈ h.members r) ∧ ¬handed i ∨
      (∀ r, i ∉ h.members r) ∧ handed i ∧ h.next i = i ∧ h.prev i = i
  handed_inside : ∀ i, handed i → firstCell ≤ i ∧ i < h.cells.size
  recorded : ∀ r, h.size r = (h.members r).length
  usage : ∃ fixed : List Nat, fixed.Nodup ∧ (∀ i, i ∈ fixed ↔ handed i) ∧
    ∀ journal, Heap.usage ⟨h, journal⟩ = .ok ⟨(h.members .free).length, (h.members .fresh).length,
      (h.members .aged).length, (h.members .scan).length, (h.members .perm).length, fixed.length,
      h.cells.size - firstCell⟩ ⟨h, journal⟩
  total : h.sizes.total ≤ h.cells.size - firstCell
  current : ∀ i, i ∈ h.members .fresh ∨ i ∈ h.members .scan → h.mark i = h.phase
  previous : ∀ i ∈ h.members .aged, h.mark i = h.lastPhase
  permanent : ∀ i, handed i → h.mark i = .x
  blank : ∀ i < firstCell, h.mark i = .z
  phases : h.phase = .p0 ∧ h.lastPhase = .p1 ∨ h.phase = .p1 ∧ h.lastPhase = .p0
  idle : h.collecting = false → h.members .aged = [] ∧ h.members .scan = []
  nil : (h.cellAt 0).first = .nil ∧ (h.cellAt 0).rest = .nil

namespace Heap

theorem Linked.inverse {row : List Nat} (linked : h.Linked row) :
    (∀ i ∈ row.dropLast, h.prev (h.next i) = i) ∧ ∀ j ∈ row.tail, h.next (h.prev j) = j := by
  induction row with
  | nil => simp
  | cons i row ih =>
    cases row with
    | nil => simp
    | cons j row =>
      obtain ⟨⟨there, back⟩, rest⟩ := List.isChain_cons_cons.mp linked
      obtain ⟨forth, home⟩ := ih rest
      refine ⟨fun x on => ?_, fun x on => ?_⟩
      · rw [List.dropLast_cons_cons] at on
        rcases List.mem_cons.mp on with rfl | on
        · rw [there, back]
        · exact forth x on
      · rcases List.mem_cons.mp on with rfl | on
        · rw [back, there]
        · exact home x on

theorem Circle.inverse {a : Nat} {row : List Nat} (circle : h.Circle a row) :
    ∀ i ∈ a :: row, h.prev (h.next i) = i ∧ h.next (h.prev i) = i := by
  obtain ⟨forth, home⟩ := Linked.inverse circle
  refine fun i on => ⟨forth i ?_, home i ?_⟩
  · rwa [List.dropLast_concat]
  · simp only [List.cons_append, List.tail_cons, List.mem_append, List.mem_singleton]
    exact (List.mem_cons.mp on).symm

theorem Sound.shaped (sound : h.Sound) : Shape h h.Fixed where
  circle := sound.threaded.circle
  inverse r := (sound.threaded.circle r).inverse
  nodup := sound.threaded.strung.circle_nodup
  place i low high := by
    by_cases on : ∃ r, i ∈ h.members r
    · obtain ⟨r, on⟩ := on
      exact Or.inl ⟨⟨r, on, fun q other => sound.threaded.apart other on⟩,
        fun fixed => fixed.2.2 r on⟩
    · have off : ∀ r, i ∉ h.members r := fun r member => on ⟨r, member⟩
      exact Or.inr ⟨off, ⟨low, high, off⟩, sound.parked i low high off⟩
  handed_inside i fixed := ⟨fixed.1, fixed.2.1⟩
  recorded := sound.threaded.recorded
  usage := ⟨h.fixedCells, List.Nodup.filter _ List.nodup_range',
    fun _ => sound.threaded.mem_fixedCells,
    fun journal => usage_apply (s := ⟨h, journal⟩) sound.threaded⟩
  total := by
    have := sound.threaded.total_add
    omega
  current i on := on.elim (sound.fresh i) (sound.scan i)
  previous := sound.aged
  permanent := sound.sealed
  blank := sound.heads
  phases := sound.phases
  idle := sound.idle
  nil := by simpa [slots, Cell.slots] using sound.nil

end Heap

theorem Step.fixed_iff {op : Op L} {o : Except Fault (Option (Ref L))} (step : Step op o h k) :
    k.Fixed i ↔ h.Fixed i ∨ HandedOut [⟨op, o⟩] i := by
  have none : ∀ {a : Op L} {f : Except Fault (Option (Ref L))},
      (∀ r, f ≠ .ok (some r)) → ¬HandedOut [⟨a, f⟩] i := by
    rintro a f other ⟨x, y, r, on, -⟩
    simp only [List.mem_singleton, Deed.mk.injEq] at on
    exact other r on.2.symm
  cases step with
  | refused => simp [none]
  | allTraced | nothingToSweep => simp [none]
  | aged _ begun | begun _ begun => simp [none, begun.fixed]
  | traced traced => simp [none, traced.fixed]
  | swept swept => simp [none, swept.fixed]
  | collected turned => simp [none, turned.fixed]
  | acted effect =>
    rename_i act answer
    rw [effect.fixed]
    refine or_congr_right ⟨?_, ?_⟩
    · rintro ⟨lasting, -, r, rfl, target⟩
      cases act <;> cases lasting
      exact ⟨_, _, r, List.mem_singleton.mpr rfl, target⟩
    · rintro ⟨a, b, r, on, target⟩
      simp only [List.mem_singleton, Deed.mk.injEq, Op.act.injEq, Except.ok.injEq] at on
      obtain ⟨rfl, rfl⟩ := on
      exact ⟨rfl, rfl, r, rfl, target⟩

theorem handedOut_append {more : List (Deed L)} :
    HandedOut (deeds ++ more) i ↔ HandedOut deeds i ∨ HandedOut more i := by
  simp only [HandedOut, List.mem_append, or_and_right, exists_or]

theorem Runs.fixed_iff (run : Runs s deeds t) (sound : s.state.Sound)
    (none : ¬s.state.Fixed i) : t.state.Fixed i ↔ HandedOut deeds i := by
  induction run with
  | nil => simpa [HandedOut] using none
  | snoc run op held ih =>
    rw [(op.step (run.sound sound) held).fixed_iff, handedOut_append, ih]

/-- Whatever is done to a heap, its representation stays in order. -/
theorem Runs.shape (run : Runs ⟨Heap.empty traced, journal⟩ deeds t) :
    Shape t.state (HandedOut deeds) := by
  have same : t.state.Fixed = HandedOut deeds := funext fun i => propext
    (run.fixed_iff (sound_empty traced) (not_fixed_empty traced i))
  rw [← same]
  exact run.sound_of_empty.shaped

/-- Some permanent and some ordinary cells, and a cycle over them. -/
theorem shape_after_cycle :
    ∃ deeds t, Runs ⟨(Heap.empty false : Heap .twoLow), ⟨none, #[]⟩⟩ deeds t ∧ deeds.length = 4 ∧
      Shape t.state (HandedOut deeds) := by
  have blank : ∀ {h : Heap .twoLow}, ∀ v ∈ [(.nil : Ref .twoLow), .nil], h.Holds v := by
    simp [Holds]
  have run := (((Runs.nil ⟨(Heap.empty false : Heap .twoLow), ⟨none, #[]⟩⟩).snoc
    (.act (.perm .nil .nil)) blank).snoc (.act (.cons .nil .nil)) blank).snoc (.age) (by simp [Op.operands])
      |>.snoc (.fullCollect []) (by simp [Op.operands])
  exact ⟨_, _, run, rfl, run.shape⟩

end Treadmill

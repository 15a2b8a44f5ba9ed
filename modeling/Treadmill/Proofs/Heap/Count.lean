import Mathlib
import Treadmill.Heap.Check
import Treadmill.Proofs.Heap.Tidy

/-!
In a threaded heap every ring passes its check, and the recorded lengths leave over exactly the
permanent cells in use.
-/

namespace Treadmill.Heap
variable {L : Layout} {h : Heap L} {r : Ring} {s : Logged (Heap L)}

/-! ### Checking rings -/

theorem countFrom_eq {stop p n seen : Nat} {row : List Nat}
    (linked : h.Linked (p :: row ++ [stop])) (outside : stop ∉ row)
    (inside : ∀ i ∈ stop :: row, i < h.cells.size) (enough : row.length ≤ n) :
    h.countFrom stop n seen p = .ok (seen + row.length) := by
  induction row generalizing n seen p with
  | nil =>
    obtain ⟨there, back⟩ := (List.isChain_cons_cons.mp linked).1
    have low := inside stop (by simp)
    cases n <;> simp [countFrom, there, back, Nat.not_le.mpr low]
  | cons i row ih =>
    obtain ⟨n, rfl⟩ : ∃ m, n = m + 1 := ⟨n - 1, by simp at enough; omega⟩
    obtain ⟨⟨there, back⟩, rest⟩ := List.isChain_cons_cons.mp linked
    have low := inside i (by simp)
    have other : i ≠ stop := fun same => outside (by simp [same])
    have counted : h.countFrom stop n (seen + 1) i = .ok (seen + 1 + row.length) :=
      ih rest (fun on => outside (by simp [on]))
        (fun j on => inside j (by simp only [List.mem_cons] at on ⊢; tauto)) (by simpa using enough)
    simp only [countFrom, there, back, Nat.not_le.mpr low, ne_eq, not_true_eq_false, or_self,
      if_false, other, counted, List.length_cons]
    congr 1
    omega

theorem Threaded.countChecked (t : h.Threaded h.members) (r : Ring) :
    h.countChecked r = .ok (h.size r) := by
  have length := t.length_le r
  unfold Heap.countChecked
  rw [countFrom_eq (t.circle r) (t.head_not_mem r r) (fun i on => t.strung.lt_arena on) (by omega),
    t.recorded, Nat.zero_add]

theorem checkRing_apply (t : s.state.Threaded s.state.members) (r : Ring) :
    checkRing r s = .ok () s := by
  simp [checkRing, Task.bind_apply, t.countChecked]

theorem checkAllRings_apply (t : s.state.Threaded s.state.members) :
    checkAllRings s = .ok () s := by
  simp [checkAllRings, Ring.all, Task.bind_apply, checkRing_apply t]

/-! ### Usage -/

/-- The lengths on record are only read. -/
theorem usage_cases (s : Logged (Heap L)) :
    (∃ u, usage s = .ok u s) ∨ usage s = .error .subtractOverflow s := by
  simp only [usage, Task.bind_apply, Task.view_apply]
  cases decide (s.state.sizes.total ≤ s.state.cells.size - firstCell) with
  | false => exact Or.inr rfl
  | true => exact Or.inl ⟨_, rfl⟩

/-- A report that comes before a fault leaves the heap as it is. -/
theorem reported_fault {α : Type} (l : Level) (e : Usage → Event) (f : Fault) (s : Logged (Heap L)) :
    ∃ g j, (Task.noteFrom l (do return e (← usage)) >>= fun _ => (throw f : HeapTask L α)) s =
      .error g ⟨s.state, j⟩ ∧ (g = f ∨ g = .subtractOverflow) := by
  simp only [Task.noteFrom, Task.bind_apply, Task.admits]
  cases s.journal.admits l with
  | false => exact ⟨f, s.journal, rfl, Or.inl rfl⟩
  | true =>
    simp only [if_true, Task.bind_apply]
    obtain ⟨u, reported⟩ | failed := usage_cases s
    · rw [reported]
      exact ⟨f, _, rfl, Or.inl rfl⟩
    · rw [failed]
      exact ⟨_, s.journal, rfl, Or.inr rfl⟩

/-- The cells on the five rings. -/
def listed (h : Heap L) : List Nat := Ring.all.flatMap h.members

/-- The permanent cells in use, in the order of their indices. -/
def fixedCells (h : Heap L) : List Nat :=
  (List.range' firstCell (h.cells.size - firstCell)).filter (· ∉ h.listed)

theorem mem_listed {i : Nat} : i ∈ h.listed ↔ ∃ r, i ∈ h.members r := by
  have every : ∀ r, r ∈ Ring.all := fun r => by cases r <;> decide
  simp [listed, List.mem_flatMap, every]

theorem Threaded.mem_fixedCells (t : h.Threaded h.members) {i : Nat} :
    i ∈ h.fixedCells ↔ h.Fixed i := by
  have heads := t.heads
  simp only [fixedCells, List.mem_filter, List.mem_range'_1, decide_eq_true_eq, mem_listed, Fixed,
    not_exists]
  rw [show firstCell + (h.cells.size - firstCell) = h.cells.size by omega, and_assoc]

theorem Threaded.listed_nodup (t : h.Threaded h.members) : h.listed.Nodup := by
  refine List.nodup_flatMap.mpr ⟨fun r _ => t.nodup r, ?_⟩
  have different : Ring.all.Pairwise (· ≠ ·) := by decide
  refine different.imp fun other i one two => ?_
  exact other (t.apart one two)

/-- The cells on the rings and the permanent cells in use are all cells but the first few. -/
theorem Threaded.listed_perm (t : h.Threaded h.members) :
    (h.listed ++ h.fixedCells).Perm (List.range' firstCell (h.cells.size - firstCell)) := by
  have heads := t.heads
  have apart : List.Disjoint h.listed h.fixedCells := fun i listed fixed => by
    obtain ⟨r, on⟩ := mem_listed.mp listed
    exact (t.mem_fixedCells.mp fixed).2.2 r on
  refine (List.perm_ext_iff_of_nodup ((t.listed_nodup).append ?_ apart) List.nodup_range').mpr
    fun i => ?_
  · exact List.Nodup.filter _ List.nodup_range'
  · rw [List.mem_append, mem_listed, t.mem_fixedCells, List.mem_range'_1,
      show firstCell + (h.cells.size - firstCell) = h.cells.size by omega]
    constructor
    · rintro (⟨r, on⟩ | fixed)
      · exact t.inside on
      · exact ⟨fixed.1, fixed.2.1⟩
    · intro inside
      by_cases on : ∃ r, i ∈ h.members r
      · exact Or.inl on
      · exact Or.inr ⟨inside.1, inside.2, fun r member => on ⟨r, member⟩⟩

theorem Threaded.total_eq (t : h.Threaded h.members) : h.sizes.total = h.listed.length := by
  have recorded := t.recorded
  simp only [size, Sizes.get] at recorded
  simp only [Sizes.total, listed, Ring.all, List.flatMap_cons, List.flatMap_nil, List.length_append,
    List.append_nil, ← recorded]
  omega

theorem Threaded.total_add (t : h.Threaded h.members) :
    h.sizes.total + h.fixedCells.length = h.cells.size - firstCell := by
  have counted := t.listed_perm.length_eq
  rw [List.length_append, List.length_range'] at counted
  rw [t.total_eq, counted]

/-- The lengths on record always add up, and what they leave over is in permanent use. -/
theorem usage_apply (t : s.state.Threaded s.state.members) :
    usage s = .ok ⟨(s.state.members .free).length, (s.state.members .fresh).length,
      (s.state.members .aged).length, (s.state.members .scan).length,
      (s.state.members .perm).length, s.state.fixedCells.length,
      s.state.cells.size - firstCell⟩ s := by
  have counted := t.total_add
  have enough : s.state.sizes.total ≤ s.state.cells.size - firstCell := by omega
  have left : s.state.cells.size - firstCell - s.state.sizes.total = s.state.fixedCells.length := by
    omega
  simp only [← t.recorded]
  simp [usage, Task.bind_apply, enough, left, size, Sizes.get]

end Treadmill.Heap

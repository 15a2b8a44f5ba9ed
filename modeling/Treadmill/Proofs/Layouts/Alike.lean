import Mathlib
import Treadmill.Heap.Collect
import Treadmill.Proofs.Codec
import Treadmill.Proofs.Heap.Block

/-!
# Heaps in two layouts

Two heaps whose words are laid out differently are alike when their links, marks and counts are the
same and what they store means the same. What is done to the links of both keeps them alike.
-/

namespace Treadmill
variable {L M : Layout}

/-! ### References -/

namespace Ref
variable {r s : Ref L} {u v : Ref M}

theorem isNil_iff_value : r.isNil = true ↔ r.value = .nil := by
  rw [isNil_iff, ← value_inj, nil_value]

theorem isNil_congr (same : r.value = u.value) : r.isNil = u.isNil := by
  rw [Bool.eq_iff_iff, isNil_iff_value, isNil_iff_value, same]

theorem kind_congr (same : r.value = u.value) : r.kind = u.kind := by
  rw [← kind_value, ← kind_value, same]

theorem isPair_congr (same : r.value = u.value) : r.isPair = u.isPair := by
  rw [isPair, isPair, kind_congr same]

theorem isActor_congr (same : r.value = u.value) : r.isActor = u.isActor := by
  rw [isActor, isActor, kind_congr same]

theorem isFunc_congr (same : r.value = u.value) : r.isFunc = u.isFunc := by
  rw [isFunc, isFunc, kind_congr same]

theorem isCons_congr (same : r.value = u.value) : r.isCons = u.isCons := by
  rw [isCons, isCons, isPair_congr same, isNil_congr same]

theorem cell_congr (same : r.value = u.value) : r.cell = u.cell := by
  rw [cell_eq, cell_eq, same]

theorem eq_congr (same : r.value = u.value) (same' : s.value = v.value) : r = s ↔ u = v := by
  rw [← value_inj, ← value_inj, same, same']

end Ref

/-! ### Cells -/

/-- Cells with the same links and mark whose slots mean the same. -/
structure Cell.Alike (c : Cell L) (d : Cell M) : Prop where
  next : c.next = d.next
  prev : c.prev = d.prev
  mark : c.mark = d.mark
  first : c.first.value = d.first.value
  rest : c.rest.value = d.rest.value

namespace Cell.Alike
variable {c : Cell L} {d : Cell M}

theorem setNext (a : c.Alike d) (i : Nat) : (c.setNext i).Alike (d.setNext i) where
  next := rfl
  prev := by rw [prev_setNext, prev_setNext, a.prev]
  mark := by rw [mark_setNext, mark_setNext, a.mark]
  first := a.first
  rest := a.rest

theorem setPrev (a : c.Alike d) (i : Nat) : (c.setPrev i).Alike (d.setPrev i) where
  next := by rw [next_setPrev, next_setPrev, a.next]
  prev := by
    simp only [Cell.prev, Cell.setPrev, span_mod (div_span_lt _) (mod_span_lt _)]
  mark := by rw [mark_setPrev, mark_setPrev, a.mark]
  first := a.first
  rest := a.rest

theorem setMark (a : c.Alike d) (m : Mark) : (c.setMark m).Alike (d.setMark m) where
  next := by rw [next_setMark, next_setMark, a.next]
  prev := by rw [prev_setMark, prev_setMark, a.prev]
  mark := by rw [mark_setMark, mark_setMark]
  first := a.first
  rest := a.rest

theorem setSlots (a : c.Alike d) {x y : Ref L} {u v : Ref M} (first : x.value = u.value)
    (rest : y.value = v.value) :
    Cell.Alike { c with first := x, rest := y } { d with first := u, rest := v } :=
  ⟨a.next, a.prev, a.mark, first, rest⟩

end Cell.Alike

/-! ### Heaps -/

namespace Heap
variable {h : Heap L} {k : Heap M}

/-- Heaps with the same links, marks, counts and stage of the cycle whose slots mean the same. -/
structure Alike (h : Heap L) (k : Heap M) : Prop where
  arena : h.cells.size = k.cells.size
  cells : ∀ i < h.cells.size, (h.cellAt i).Alike (k.cellAt i)
  sizes : h.sizes = k.sizes
  phase : h.phase = k.phase
  lastPhase : h.lastPhase = k.lastPhase
  collecting : h.collecting = k.collecting
  cycles : h.cycles = k.cycles

namespace Alike

theorem cell (a : h.Alike k) (i : Nat) : (h.cellAt i).Alike (k.cellAt i) := by
  by_cases inside : i < h.cells.size
  · exact a.cells i inside
  · have outside : ¬ i < k.cells.size := by rw [← a.arena]; exact inside
    simp only [cellAt, Array.getD, inside, outside, dif_neg, not_false_eq_true]
    exact ⟨rfl, rfl, rfl, by rw [show (default : Cell L).first = .nil from rfl,
      show (default : Cell M).first = .nil from rfl, Ref.nil_value, Ref.nil_value],
      by rw [show (default : Cell L).rest = .nil from rfl,
      show (default : Cell M).rest = .nil from rfl, Ref.nil_value, Ref.nil_value]⟩

theorem next (a : h.Alike k) (i : Nat) : h.next i = k.next i := (a.cell i).next

theorem prev (a : h.Alike k) (i : Nat) : h.prev i = k.prev i := (a.cell i).prev

theorem size (a : h.Alike k) (r : Ring) : h.size r = k.size r := by
  rw [Heap.size, Heap.size, a.sizes]

theorem modifyCell (a : h.Alike k) (i : Nat) {f : Cell L → Cell L} {g : Cell M → Cell M}
    (same : ∀ {c d}, c.Alike d → (f c).Alike (g d)) :
    (h.modifyCell i f).Alike (k.modifyCell i g) where
  arena := by rw [size_cells_modifyCell, size_cells_modifyCell, a.arena]
  cells j _ := by
    rw [cellAt_modifyCell, cellAt_modifyCell, a.arena]
    split
    · exact same (a.cell j)
    · exact a.cell j
  sizes := a.sizes
  phase := a.phase
  lastPhase := a.lastPhase
  collecting := a.collecting
  cycles := a.cycles

theorem setNext (a : h.Alike k) (i n : Nat) : (h.setNext i n).Alike (k.setNext i n) :=
  a.modifyCell i fun c => c.setNext n

theorem setPrev (a : h.Alike k) (i n : Nat) : (h.setPrev i n).Alike (k.setPrev i n) :=
  a.modifyCell i fun c => c.setPrev n

theorem setMark (a : h.Alike k) (i : Nat) (m : Mark) : (h.setMark i m).Alike (k.setMark i m) :=
  a.modifyCell i fun c => c.setMark m

theorem setSlots (a : h.Alike k) (i : Nat) {x y : Ref L} {u v : Ref M} (first : x.value = u.value)
    (rest : y.value = v.value) : (h.setSlots i x y).Alike (k.setSlots i u v) :=
  a.modifyCell i fun c => c.setSlots first rest

theorem setSize (a : h.Alike k) (r : Ring) (n : Nat) : (h.setSize r n).Alike (k.setSize r n) where
  arena := a.arena
  cells := a.cells
  sizes := by simp only [Heap.setSize, a.sizes]
  phase := a.phase
  lastPhase := a.lastPhase
  collecting := a.collecting
  cycles := a.cycles

/-! ### Rings -/

theorem insertBefore (a : h.Alike k) (y x : Nat) : (h.insertBefore y x).Alike (k.insertBefore y x) := by
  simp only [Heap.insertBefore, a.prev]
  exact (((a.setNext x y).setPrev x _).setNext _ x).setPrev y x

theorem insertAfter (a : h.Alike k) (y x : Nat) : (h.insertAfter y x).Alike (k.insertAfter y x) := by
  simp only [Heap.insertAfter, a.next]
  exact (((a.setPrev x y).setNext x _).setPrev _ x).setNext y x

theorem extract (a : h.Alike k) (x : Nat) : (h.extract x).Alike (k.extract x) := by
  simp only [Heap.extract, a.next, a.prev]
  exact (((a.setNext _ _).setPrev _ _).setNext x x).setPrev x x

theorem pushFront (a : h.Alike k) (r : Ring) (x : Nat) : (h.pushFront r x).Alike (k.pushFront r x) := by
  simp only [Heap.pushFront, a.size]
  exact (a.insertAfter _ x).setSize r _

theorem pushBack (a : h.Alike k) (r : Ring) (x : Nat) : (h.pushBack r x).Alike (k.pushBack r x) := by
  simp only [Heap.pushBack, a.size]
  exact (a.insertBefore _ x).setSize r _

theorem withdraw (a : h.Alike k) (r : Ring) (x : Nat) : (h.withdraw r x).Alike (k.withdraw r x) := by
  simp only [Heap.withdraw, a.size]
  exact (a.extract x).setSize r _

theorem popFront (a : h.Alike k) (r : Ring) :
    (h.popFront r).1 = (k.popFront r).1 ∧ (h.popFront r).2.Alike (k.popFront r).2 := by
  simp only [Heap.popFront, a.next]
  split
  · exact ⟨rfl, a⟩
  · exact ⟨rfl, a.withdraw r _⟩

theorem popBack (a : h.Alike k) (r : Ring) :
    (h.popBack r).1 = (k.popBack r).1 ∧ (h.popBack r).2.Alike (k.popBack r).2 := by
  simp only [Heap.popBack, a.prev]
  split
  · exact ⟨rfl, a⟩
  · exact ⟨rfl, a.withdraw r _⟩

theorem splice (a : h.Alike k) (target source : Ring) :
    (h.splice target source).Alike (k.splice target source) := by
  simp only [Heap.splice, a.next, a.prev, a.size]
  split
  · exact a
  · exact (((((((a.setNext _ _).setPrev _ _).setNext _ _).setPrev _ _).setNext _ _).setPrev _ _).setSize
      _ _).setSize _ _

theorem blockCell (base before after n : Nat) :
    (Heap.blockCell base before after n : Cell L).Alike
      (Heap.blockCell base before after n : Cell M) where
  next := rfl
  prev := rfl
  mark := rfl
  first := Ref.nil_value.trans Ref.nil_value.symm
  rest := Ref.nil_value.trans Ref.nil_value.symm

theorem grown_cell (a : h.Alike k) (r : Ring) {i : Nat} (inside : i < (h.grown r).cells.size) :
    ((h.grown r).cellAt i).Alike ((k.grown r).cellAt i) := by
  by_cases old : i < h.cells.size
  · rw [cellAt_grown_old old, cellAt_grown_old (a.arena ▸ old)]
    exact a.cell i
  · rw [arena_grown] at inside
    obtain ⟨n, rfl⟩ : ∃ n, i = h.cells.size + n := ⟨i - h.cells.size, by omega⟩
    have new : n < blockCells := by omega
    rw [cellAt_grown_new new, a.arena, cellAt_grown_new new, a.prev]
    exact blockCell _ _ _ n

theorem grown (a : h.Alike k) (r : Ring) : (h.grown r).Alike (k.grown r) where
  arena := by rw [arena_grown, arena_grown, a.arena]
  cells i inside := a.grown_cell r inside
  sizes := by simp only [Heap.grown, a.sizes]
  phase := by simp only [Heap.grown, a.phase]
  lastPhase := by simp only [Heap.grown, a.lastPhase]
  collecting := by simp only [Heap.grown, a.collecting]
  cycles := by simp only [Heap.grown, a.cycles]

theorem extend (a : h.Alike k) (r : Ring) : (h.extend r).Alike (k.extend r) := by
  rw [extend_eq, extend_eq, a.prev, a.arena, a.size]
  exact (((a.grown r).setNext _ _).setPrev _ _).setSize r _

/-! ### The collector -/

theorem promote (a : h.Alike k) (i : Nat) : (h.promote i).Alike (k.promote i) := by
  simp only [Heap.promote, a.phase]
  exact ((a.withdraw .aged i).setMark i _).pushBack .scan i

theorem enroll (a : h.Alike k) (i : Nat) {x y : Ref L} {u v : Ref M} (first : x.value = u.value)
    (rest : y.value = v.value) : (h.enroll i x y).Alike (k.enroll i u v) := by
  simp only [Heap.enroll, a.phase]
  exact ((a.setMark i _).setSlots i first rest).pushBack .fresh i

theorem aged (a : h.Alike k) : h.aged.Alike k.aged := by
  have spliced := a.splice .aged .fresh
  exact ⟨spliced.arena, spliced.cells, spliced.sizes, by simp only [Heap.aged, spliced.phase],
    spliced.phase, rfl, spliced.cycles⟩

theorem swept (a : h.Alike k) : h.swept.Alike k.swept := by
  have spliced := a.splice .free .aged
  exact ⟨spliced.arena, spliced.cells, spliced.sizes, spliced.phase, spliced.lastPhase, rfl,
    by simp only [Heap.swept, spliced.cycles]⟩

theorem membersFrom (a : h.Alike k) (stop n i : Nat) :
    h.membersFrom stop n i = k.membersFrom stop n i := by
  induction n generalizing i with
  | zero => rfl
  | succ n ih => rw [Heap.membersFrom, Heap.membersFrom, a.next, ih]

theorem members (a : h.Alike k) (r : Ring) : h.members r = k.members r := by
  rw [Heap.members, Heap.members, a.arena, a.next, a.membersFrom]

theorem countFrom (a : h.Alike k) (stop n seen p : Nat) :
    h.countFrom stop n seen p = k.countFrom stop n seen p := by
  induction n generalizing seen p with
  | zero => simp only [Heap.countFrom, a.next, a.prev, a.arena]
  | succ n ih => simp only [Heap.countFrom, a.next, a.prev, a.arena, ih]

theorem countChecked (a : h.Alike k) (r : Ring) : h.countChecked r = k.countChecked r := by
  rw [Heap.countChecked, Heap.countChecked, a.arena, a.countFrom]

end Alike
end Heap

end Treadmill

import Treadmill.Proofs.Heap.Rows

/-!
A block of new cells at the end of a ring. The cells that were there before keep their marks and
slots, and the new ones stand in the order of their indices.
-/

namespace Treadmill.Heap
variable {L : Layout} {h k : Heap L} {rows : Ring → List Nat} {r : Ring}

section
variable {base before after n : Nat}

theorem prev_blockCell (small : before < 2 ^ 62) (room : base + n < 2 ^ 62) :
    (blockCell base before after n : Cell L).prev = if n = 0 then before else base + n - 1 := by
  have bound : (if n = 0 then before else base + n - 1) < 2 ^ 62 := by split <;> omega
  simp only [Cell.prev, blockCell, UInt64.toNat_mod, UInt64.toNat_ofNat', Cell.toNat_linkSpan]
  rw [Nat.mod_eq_of_lt (Nat.lt_trans bound (by omega)), Nat.mod_eq_of_lt bound]

theorem next_blockCell (small : after < 2 ^ 62) (room : base + n + 1 < 2 ^ 63) :
    (blockCell base before after n : Cell L).next =
      if n + 1 = blockCells then after else base + n + 1 := by
  simp only [Cell.next, blockCell, UInt64.toNat_ofNat']
  apply Nat.mod_eq_of_lt
  split <;> omega

end

/-- The heap with a block in its arena that no cell of it links to yet. -/
def grown (h : Heap L) (r : Ring) : Heap L :=
  { h with cells := h.cells ++
      Array.ofFn fun n : Fin blockCells => blockCell h.cells.size (h.prev r.head) r.head n }

theorem arena_grown : (h.grown r).cells.size = h.cells.size + blockCells := by
  simp [grown]

theorem size_grown (q : Ring) : (h.grown r).size q = h.size q := by
  simp only [size, grown]

theorem cellAt_grown_old {j : Nat} (old : j < h.cells.size) : (h.grown r).cellAt j = h.cellAt j := by
  have : j < (h.grown r).cells.size := by rw [arena_grown]; omega
  simp only [cellAt, Array.getD, this, old, ↓reduceDIte]
  exact Array.getElem_append_left old

theorem cellAt_grown_new {n : Nat} (new : n < blockCells) :
    (h.grown r).cellAt (h.cells.size + n) =
      blockCell h.cells.size (h.prev r.head) r.head n := by
  have : h.cells.size + n < (h.grown r).cells.size := by rw [arena_grown]; omega
  simp only [cellAt, Array.getD, this, ↓reduceDIte]
  exact (Array.getElem_append_right (by omega)).trans (by simp)

theorem extend_eq (h : Heap L) (r : Ring) :
    h.extend r = (((h.grown r).setNext (h.prev r.head) h.cells.size).setPrev r.head
      (h.cells.size + blockCells - 1)).setSize r (h.size r + blockCells) := rfl

theorem sameCycle_extend (h : Heap L) (r : Ring) : SameCycle h (h.extend r) := by
  have block : SameCycle h (h.grown r) := by
    constructor <;> simp only [grown]
  rw [extend_eq]
  exact ((block.trans (sameCycle_modifyCell _ _ _)).trans (sameCycle_modifyCell _ _ _)).trans
    (relinked_setSize _ _ _).toSameCycle

theorem arena_extend (h : Heap L) (r : Ring) :
    (h.extend r).cells.size = h.cells.size + blockCells := by
  rw [extend_eq, arena_setSize, arena_setPrev, arena_setNext, arena_grown]

theorem mark_extend {j : Nat} (old : j < h.cells.size) : (h.extend r).mark j = h.mark j := by
  rw [extend_eq, mark_setSize, mark_setPrev, mark_setNext, mark, cellAt_grown_old old, mark]

theorem slots_extend {j : Nat} (old : j < h.cells.size) : (h.extend r).slots j = h.slots j := by
  rw [extend_eq, slots_setSize, slots_setPrev, slots_setNext, slots, cellAt_grown_old old, slots]

theorem Strung.next_extend (t : h.Strung rows) (room : h.cells.size + blockCells ≤ 2 ^ 62)
    (j : Nat) : (h.extend r).next j =
      if j = (rows r).getLastD r.head then h.cells.size else (h.grown r).next j := by
  have tail : (rows r).getLastD r.head < h.cells.size := t.lt_arena List.getLastD_mem_cons
  have narrow : h.cells.size < 2 ^ 62 := by unfold blockCells at room; omega
  rw [extend_eq, next_setSize, next_setPrev, t.prev_head,
    next_setNext (by rw [arena_grown]; omega) narrow]

theorem Strung.prev_extend (t : h.Strung rows) (room : h.cells.size + blockCells ≤ 2 ^ 62)
    (j : Nat) : (h.extend r).prev j =
      if j = r.head then h.cells.size + blockCells - 1 else (h.grown r).prev j := by
  have head := t.head_lt r
  rw [extend_eq, prev_setSize, prev_setPrev (by rw [arena_setNext, arena_grown]; omega) (by omega),
    prev_setNext]

theorem Strung.block_linked (t : h.Strung rows) (room : h.cells.size + blockCells ≤ 2 ^ 62) :
    (h.extend r).Linked (List.range' h.cells.size blockCells) := by
  have narrow := t.narrow
  have tail : (rows r).getLastD r.head < h.cells.size := t.lt_arena List.getLastD_mem_cons
  have head := t.head_lt r
  refine (List.isChain_range' h.cells.size blockCells 1).imp_of_mem_imp ?_
  intro i j hi hj after
  simp only [List.mem_range'_1] at hi hj
  obtain ⟨n, rfl⟩ : ∃ n, i = h.cells.size + n := ⟨i - h.cells.size, by omega⟩
  obtain rfl : j = h.cells.size + (n + 1) := by omega
  constructor
  · rw [t.next_extend room, if_neg (by omega), next, cellAt_grown_new (by omega),
      next_blockCell (by omega) (by omega), if_neg (by omega), Nat.add_assoc]
  · rw [t.prev_extend room, if_neg (by omega), prev, cellAt_grown_new (by omega),
      prev_blockCell (by rw [t.prev_head]; omega) (by omega), if_neg (by omega)]
    omega

theorem Strung.extend (t : h.Strung rows) (r : Ring)
    (room : h.cells.size + blockCells ≤ 2 ^ 62) :
    (h.extend r).Strung
      (Function.update rows r (rows r ++ List.range' h.cells.size blockCells)) := by
  have narrow := t.narrow
  have positive : 0 < blockCells := by decide
  have tailMem : (rows r).getLastD r.head ∈ r.head :: rows r := List.getLastD_mem_cons
  have tail := t.lt_arena tailMem
  have head := t.head_lt r
  have sameNext : ∀ i < h.cells.size, i ≠ (rows r).getLastD r.head →
      (h.extend r).next i = h.next i := by
    intro i old other
    rw [t.next_extend room, if_neg other, next, cellAt_grown_old old, next]
  have samePrev : ∀ i < h.cells.size, i ≠ r.head → (h.extend r).prev i = h.prev i := by
    intro i old other
    rw [t.prev_extend room, if_neg other, prev, cellAt_grown_old old, prev]
  refine t.replace ?_ (fun q other => ?_) (fun q => ?_) ?_ (fun i member => ?_)
    (by rw [arena_extend]; omega) (by rw [arena_extend]; exact room)
  · have circle : h.Circle r.head (rows r ++ []) := by simpa using t.circle r
    have filled := circle.fill (u := h.cells.size) (v := h.cells.size + blockCells - 1)
      (by simpa using t.circle_nodup r) (t.block_linked (r := r) room)
      (by rw [List.head?_range', if_neg (by omega)])
      (by rw [List.getLast?_range', if_neg (by omega)])
      (fun i hi other => ?_) (fun i hi other => ?_) ⟨?_, ?_⟩ ⟨?_, ?_⟩
    · rwa [List.append_nil] at filled
    · rw [List.append_nil] at hi
      exact sameNext i (t.lt_arena hi) other
    · rw [List.append_nil] at hi
      exact samePrev i (t.lt_arena hi) other
    · rw [t.next_extend room, if_pos rfl]
    · have := cellAt_grown_new (h := h) (r := r) positive
      rw [Nat.add_zero] at this
      rw [t.prev_extend room, if_neg (by omega), prev, this,
        prev_blockCell (by rw [t.prev_head]; omega) (by omega), if_pos rfl, t.prev_head]
    · have := cellAt_grown_new (h := h) (r := r) (n := blockCells - 1) (by omega)
      rw [← Nat.add_sub_assoc positive] at this
      rw [t.next_extend room, if_neg (by omega), next, this, next_blockCell (by omega) (by omega),
        if_pos (by omega), List.headD_nil]
    · rw [List.headD_nil, t.prev_extend room, if_pos rfl]
  · refine (t.circle q).congr (fun i hi => sameNext i (t.lt_arena hi) ?_)
      (fun i hi => samePrev i (t.lt_arena hi) ?_)
    · exact ne_of_mem_of_not_mem hi (t.circles_apart tailMem other)
    · exact ne_of_mem_of_not_mem hi (t.circles_apart List.mem_cons_self other)
  · rw [extend_eq, size_setSize, List.length_append, List.length_range', t.recorded r,
      size_setPrev, size_setNext, size_grown]
  · refine List.nodup_append.mpr ⟨t.nodup r, List.nodup_range', fun i hi j hj => ?_⟩
    have := t.inside hi
    simp only [List.mem_range'_1] at hj
    omega
  · rcases List.mem_append.mp member with onRow | inBlock
    · exact Or.inl onRow
    · simp only [List.mem_range'_1] at inBlock
      refine Or.inr ⟨fun q onCircle => ?_, by rw [arena_extend]; omega⟩
      have := t.lt_arena onCircle
      omega

theorem Threaded.extend (t : h.Threaded rows) (r : Ring)
    (room : h.cells.size + blockCells ≤ 2 ^ 62) :
    (h.extend r).Threaded
      (Function.update rows r (rows r ++ List.range' h.cells.size blockCells)) := by
  refine t.update (List.forall_mem_append.mpr ⟨fun i member => (t.inside member).1, fun i member => ?_⟩)
    (t.strung.extend r room)
  have := t.heads
  simp only [List.mem_range'_1] at member
  omega

theorem Threaded.extend_parked (t : h.Threaded rows) (parked : h.Parked rows) (r : Ring)
    (room : h.cells.size + blockCells ≤ 2 ^ 62) :
    (h.extend r).Parked
      (Function.update rows r (rows r ++ List.range' h.cells.size blockCells)) := by
  intro i low high loose
  have onR := loose r
  rw [Function.update_self, List.mem_append, not_or, List.mem_range'_1] at onR
  rw [arena_extend] at high
  have old : i < h.cells.size := by omega
  have notHead : i ≠ r.head := fun same => by
    have := Ring.head_lt r
    omega
  have notTail : i ≠ (rows r).getLastD r.head := by
    have : i ∉ r.head :: rows r := by simp [notHead, onR.1]
    exact (ne_of_mem_of_not_mem List.getLastD_mem_cons this).symm
  rw [t.strung.next_extend room, t.strung.prev_extend room, if_neg notTail, if_neg notHead, next, prev,
    cellAt_grown_old old]
  refine parked i low old fun q => ?_
  rcases eq_or_ne q r with rfl | other
  · exact onR.1
  · have := loose q
    rwa [Function.update_of_ne other] at this

end Treadmill.Heap

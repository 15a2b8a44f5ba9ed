import Mathlib
import Treadmill.Proofs.Heap.Run

/-!
What the operations on rings do to them as sequences (`Strung.sequences`). Any cell that is no head may stand
on a ring, also cell 0.
-/

namespace Treadmill.Heap
variable {L : Layout} {h k : Heap L} {rows : Ring → List Nat} {r q : Ring} {x : Nat} {pre post : List Nat}

theorem Relinked.refl (h : Heap L) : Relinked h h := ⟨.refl h, rfl, fun _ => rfl, fun _ => rfl⟩

theorem members_setSize (h : Heap L) (r : Ring) (n : Nat) : (h.setSize r n).members = h.members := by
  have walks (stop fuel : Nat) : ∀ i, (h.setSize r n).membersFrom stop fuel i = h.membersFrom stop fuel i := by
    induction fuel with
    | zero => exact fun _ => rfl
    | succ fuel ih =>
      intro i
      simp only [membersFrom, next_setSize, ih]
  funext q
  exact walks ..

/-! ### Taking off the ends -/

theorem Strung.withdraw_front (t : h.Strung rows) (shape : rows r = x :: post) :
    (h.withdraw r x).Strung (Function.update rows r post) := by
  have taken := t.withdraw (r := r) (x := x) (by simp [shape])
  rwa [shape, List.erase_cons_head] at taken

theorem Strung.withdraw_back (t : h.Strung rows) (shape : rows r = pre ++ [x]) :
    (h.withdraw r x).Strung (Function.update rows r pre) := by
  have taken := t.withdraw (r := r) (x := x) (by simp [shape])
  have distinct := t.nodup r
  rw [shape] at taken distinct
  have once : x ∉ pre := fun member => (List.nodup_append.mp distinct).2.2 x member x (by simp) rfl
  rwa [List.erase_append_right _ once, List.erase_cons_head, List.append_nil] at taken

theorem Strung.same_rows (t : h.Strung rows) (empty : rows r = []) :
    h.Strung (Function.update rows r []) := by
  rwa [← empty, Function.update_eq_self]

/-- What comes off the front of a ring, what is left on it and what the cell is linked to then. -/
theorem Strung.popFront (t : h.Strung rows) (r : Ring) :
    (h.popFront r).1 = (rows r).head? ∧
      (h.popFront r).2.Strung (Function.update rows r (rows r).tail) ∧ Relinked h (h.popFront r).2 ∧
      ∀ x ∈ (h.popFront r).1, (h.popFront r).2.next x = x ∧ (h.popFront r).2.prev x = x := by
  cases shape : rows r with
  | nil =>
    rw [t.popFront_nil shape]
    exact ⟨rfl, t.same_rows shape, Relinked.refl h, by simp⟩
  | cons x post =>
    have rem := t.withdraw_removed (r := r) (x := x) (by simp [shape])
    rw [t.popFront_cons shape]
    refine ⟨rfl, t.withdraw_front shape, relinked_withdraw h r x, fun y same => ?_⟩
    obtain rfl := Option.some.inj same
    exact ⟨by rw [rem.next, if_pos rfl], by rw [rem.prev, if_pos rfl]⟩

theorem Strung.popBack (t : h.Strung rows) (r : Ring) :
    (h.popBack r).1 = (rows r).getLast? ∧
      (h.popBack r).2.Strung (Function.update rows r (rows r).dropLast) ∧ Relinked h (h.popBack r).2 ∧
      ∀ x ∈ (h.popBack r).1, (h.popBack r).2.next x = x ∧ (h.popBack r).2.prev x = x := by
  rcases List.eq_nil_or_concat (rows r) with shape | ⟨pre, x, shape⟩
  · rw [t.popBack_nil shape, shape]
    exact ⟨rfl, t.same_rows shape, Relinked.refl h, by simp⟩
  · rw [List.concat_eq_append] at shape
    have rem := t.withdraw_removed (r := r) (x := x) (by simp [shape])
    rw [t.popBack_concat shape, shape, List.getLast?_concat, List.dropLast_concat]
    refine ⟨rfl, t.withdraw_back shape, relinked_withdraw h r x, fun y same => ?_⟩
    obtain rfl := Option.some.inj same
    exact ⟨by rw [rem.next, if_pos rfl], by rw [rem.prev, if_pos rfl]⟩

/-! ### Marks -/

/-- The mark shares its word with the back link, which is not changed by it. -/
theorem Strung.setMark (t : h.Strung rows) (i : Nat) (m : Mark) : (h.setMark i m).Strung rows where
  circle r := (t.circle r).congr (fun _ _ => next_setMark ..) (fun _ _ => prev_setMark ..)
  recorded := t.recorded
  nodup := t.nodup
  apart := t.apart
  inside member := by
    rw [arena_setMark]
    exact t.inside member
  body := t.body
  heads := by
    rw [arena_setMark]
    exact t.heads
  narrow := by
    rw [arena_setMark]
    exact t.narrow

/-! ### The operations -/

/-- What the operations make of the rings of `h`, which are `rows`. A heap that is `Relinked` has the same
marks and slots. -/
structure Sequences (h : Heap L) (rows : Ring → List Nat) : Prop where
  pushFront : ∀ (r : Ring) {x : Nat}, x < h.cells.size → (∀ q : Ring, x ∉ q.head :: rows q) →
    (h.pushFront r x).Strung (Function.update rows r (x :: rows r)) ∧ Relinked h (h.pushFront r x)
  pushBack : ∀ (r : Ring) {x : Nat}, x < h.cells.size → (∀ q : Ring, x ∉ q.head :: rows q) →
    (h.pushBack r x).Strung (Function.update rows r (rows r ++ [x])) ∧ Relinked h (h.pushBack r x)
  popFront : ∀ r : Ring, (h.popFront r).1 = (rows r).head? ∧
    (h.popFront r).2.Strung (Function.update rows r (rows r).tail) ∧ Relinked h (h.popFront r).2 ∧
    ∀ x ∈ (h.popFront r).1, (h.popFront r).2.next x = x ∧ (h.popFront r).2.prev x = x
  popBack : ∀ r : Ring, (h.popBack r).1 = (rows r).getLast? ∧
    (h.popBack r).2.Strung (Function.update rows r (rows r).dropLast) ∧ Relinked h (h.popBack r).2 ∧
    ∀ x ∈ (h.popBack r).1, (h.popBack r).2.next x = x ∧ (h.popBack r).2.prev x = x
  /-- The recorded lengths are left to the caller. -/
  extract : ∀ {r : Ring} {x : Nat}, x ∈ rows r →
    (∀ q : Ring, (h.extract x).Circle q.head (Function.update rows r ((rows r).erase x) q)) ∧
      (h.extract x).members = Function.update rows r ((rows r).erase x) ∧
      (h.extract x).next x = x ∧ (h.extract x).prev x = x ∧ Relinked h (h.extract x) ∧
      ∀ q, (h.extract x).size q = h.size q
  splice : ∀ {r q : Ring}, r ≠ q →
    (h.splice r q).Strung (Function.update (Function.update rows r (rows r ++ rows q)) q []) ∧
      Relinked h (h.splice r q)
  extend : ∀ r : Ring, h.cells.size + blockCells ≤ 2 ^ 62 →
    (h.extend r).Strung (Function.update rows r (rows r ++ List.range' h.cells.size blockCells)) ∧
      ∀ i < h.cells.size, (h.extend r).mark i = h.mark i ∧ (h.extend r).slots i = h.slots i
  setMark : ∀ (i : Nat) (m : Mark), (h.setMark i m).Strung rows ∧
    (∀ j, (h.setMark i m).next j = h.next j ∧ (h.setMark i m).prev j = h.prev j ∧
      (h.setMark i m).slots j = h.slots j) ∧
    (i < h.cells.size → ∀ j, (h.setMark i m).mark j = if j = i then m else h.mark j)

theorem Strung.sequences (t : h.Strung rows) : Sequences h rows where
  pushFront r _ inside loose := ⟨t.pushFront r loose inside, relinked_pushFront h r _⟩
  pushBack r _ inside loose := ⟨t.pushBack r loose inside, relinked_pushBack h r _⟩
  popFront := t.popFront
  popBack := t.popBack
  extract {r x} onRow := by
    -- only the recorded length tells `extract` from `withdraw`
    have taken := t.withdraw onRow
    have rem := t.withdraw_removed onRow
    refine ⟨taken.circle, ?_, ?_, ?_, relinked_extract h x, size_extract x⟩
    · rw [← taken.members_eq, Heap.withdraw, members_setSize]
    · exact (rem.next x).trans (if_pos rfl)
    · exact (rem.prev x).trans (if_pos rfl)
  splice different := ⟨t.splice different, relinked_splice h _ _⟩
  extend r room := ⟨t.extend r room, fun _ old => ⟨mark_extend old, slots_extend old⟩⟩
  setMark i m := ⟨t.setMark i m, fun j => ⟨next_setMark i m j, prev_setMark i m j, slots_setMark i m j⟩,
    fun inside => mark_setMark inside m⟩

theorem sequences_first_block : ∃ rows : Ring → List Nat, ∃ h : Heap .twoLow, h.Strung rows ∧
    rows .free = List.range' 6 256 ∧ rows .fresh = [] ∧ Sequences h rows ∧
    (h.popFront .free).1 = some 6 ∧ (h.popBack .free).1 = some 261 ∧ (h.popBack .fresh).1 = none ∧
    (h.splice .fresh .free).Strung (fun r => if r = .fresh then List.range' 6 256 else []) := by
  have strung := ((threaded_empty (L := .twoLow) false).extend .free (by decide)).strung
  have operations := strung.sequences
  refine ⟨_, _, strung, rfl, rfl, operations, (operations.popFront .free).1, (operations.popBack .free).1,
    (operations.popBack .fresh).1, ?_⟩
  convert (operations.splice (r := .fresh) (q := .free) (by decide)).1 using 1
  funext r
  cases r <;> rfl

end Treadmill.Heap

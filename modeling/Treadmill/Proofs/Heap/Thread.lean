import Mathlib
import Treadmill.Heap.Links

/-!
Rings as rows of cells. `Circle` says that the links of a heap lead round a row and back, and
`Strung` that each ring has a row of its own. The rows of a strung heap are what `members` reads off
(`Strung.members_eq`). In a threaded heap they are made of cells that are handed out.
-/

namespace Treadmill

def Cell.slots {L : Layout} (c : Cell L) : List (Ref L) := [c.first, c.rest]

namespace Heap
variable {L : Layout} {h k : Heap L}

/-! ### Single cells -/

/-- What a cell holds. -/
def slots (h : Heap L) (i : Nat) : List (Ref L) := (h.cellAt i).slots

/-- The first slot of a cell and the rest slot. -/
def contents (h : Heap L) (i : Nat) : Ref L × Ref L := ((h.cellAt i).first, (h.cellAt i).rest)

theorem slots_eq (h : Heap L) (i : Nat) : h.slots i = [(h.contents i).1, (h.contents i).2] := rfl

theorem slots_eq_iff {a b : Ref L} : h.slots i = [a, b] ↔ h.contents i = (a, b) := by
  simp [slots_eq, Prod.ext_iff]

theorem contents_congr (same : k.slots i = h.slots i) : k.contents i = h.contents i := by
  simpa [slots_eq, Prod.ext_iff] using same

theorem cellAt_modify (inside : i < h.cells.size) (f : Cell L → Cell L) (j : Nat) :
    (h.modifyCell i f).cellAt j = if j = i then f (h.cellAt j) else h.cellAt j := by
  rw [cellAt_modifyCell]
  by_cases same : j = i
  · subst same; simp [inside]
  · simp [same, Ne.symm same]

theorem next_setNext (inside : i < h.cells.size) (narrow : n < 2 ^ 62) (j : Nat) :
    (h.setNext i n).next j = if j = i then n else h.next j := by
  unfold next setNext
  rw [cellAt_modify inside]
  split
  · exact Cell.next_setNext narrow _
  · rfl

theorem prev_setPrev (inside : i < h.cells.size) (narrow : n < 2 ^ 62) (j : Nat) :
    (h.setPrev i n).prev j = if j = i then n else h.prev j := by
  unfold prev setPrev
  rw [cellAt_modify inside]
  split
  · exact Cell.prev_setPrev narrow _
  · rfl

theorem mark_setMark (inside : i < h.cells.size) (m : Mark) (j : Nat) :
    (h.setMark i m).mark j = if j = i then m else h.mark j := by
  unfold mark setMark
  rw [cellAt_modify inside]
  split
  · exact Cell.mark_setMark _ _
  · rfl

theorem slots_setSlots (inside : i < h.cells.size) (a b : Ref L) (j : Nat) :
    (h.setSlots i a b).slots j = if j = i then [a, b] else h.slots j := by
  unfold slots setSlots
  rw [cellAt_modify inside]
  split <;> rfl

/-- Whatever a change of one cell leaves alone there, it leaves alone everywhere. -/
theorem modifyCell_frame {β : Type} (p : Cell L → β) (f : Cell L → Cell L)
    (frame : ∀ c, p (f c) = p c) (h : Heap L) (i j : Nat) :
    p ((h.modifyCell i f).cellAt j) = p (h.cellAt j) := by
  rw [cellAt_modifyCell]
  split
  · exact frame _
  · rfl

@[simp] theorem prev_setNext (i n j : Nat) : (h.setNext i n).prev j = h.prev j :=
  modifyCell_frame Cell.prev (·.setNext n) (Cell.prev_setNext n) h i j

@[simp] theorem mark_setNext (i n j : Nat) : (h.setNext i n).mark j = h.mark j :=
  modifyCell_frame Cell.mark (·.setNext n) (Cell.mark_setNext n) h i j

@[simp] theorem next_setPrev (i n j : Nat) : (h.setPrev i n).next j = h.next j :=
  modifyCell_frame Cell.next (·.setPrev n) (Cell.next_setPrev n) h i j

@[simp] theorem mark_setPrev (i n j : Nat) : (h.setPrev i n).mark j = h.mark j :=
  modifyCell_frame Cell.mark (·.setPrev n) (Cell.mark_setPrev n) h i j

@[simp] theorem next_setMark (i : Nat) (m : Mark) (j : Nat) : (h.setMark i m).next j = h.next j :=
  modifyCell_frame Cell.next (·.setMark m) (Cell.next_setMark m) h i j

@[simp] theorem prev_setMark (i : Nat) (m : Mark) (j : Nat) : (h.setMark i m).prev j = h.prev j :=
  modifyCell_frame Cell.prev (·.setMark m) (Cell.prev_setMark m) h i j

@[simp] theorem next_setSlots (i : Nat) (a b : Ref L) (j : Nat) :
    (h.setSlots i a b).next j = h.next j :=
  modifyCell_frame Cell.next (fun c => { c with first := a, rest := b }) (fun _ => rfl) h i j

@[simp] theorem prev_setSlots (i : Nat) (a b : Ref L) (j : Nat) :
    (h.setSlots i a b).prev j = h.prev j :=
  modifyCell_frame Cell.prev (fun c => { c with first := a, rest := b }) (fun _ => rfl) h i j

@[simp] theorem mark_setSlots (i : Nat) (a b : Ref L) (j : Nat) :
    (h.setSlots i a b).mark j = h.mark j :=
  modifyCell_frame Cell.mark (fun c => { c with first := a, rest := b }) (fun _ => rfl) h i j

@[simp] theorem slots_setNext (i n j : Nat) : (h.setNext i n).slots j = h.slots j :=
  modifyCell_frame Cell.slots (·.setNext n) (fun _ => rfl) h i j

@[simp] theorem slots_setPrev (i n j : Nat) : (h.setPrev i n).slots j = h.slots j :=
  modifyCell_frame Cell.slots (·.setPrev n) (fun _ => rfl) h i j

@[simp] theorem slots_setMark (i : Nat) (m : Mark) (j : Nat) :
    (h.setMark i m).slots j = h.slots j :=
  modifyCell_frame Cell.slots (·.setMark m) (fun _ => rfl) h i j

@[simp] theorem arena_setNext (i n : Nat) : (h.setNext i n).cells.size = h.cells.size :=
  size_cells_modifyCell h i _

@[simp] theorem arena_setPrev (i n : Nat) : (h.setPrev i n).cells.size = h.cells.size :=
  size_cells_modifyCell h i _

@[simp] theorem arena_setMark (i : Nat) (m : Mark) : (h.setMark i m).cells.size = h.cells.size :=
  size_cells_modifyCell h i _

@[simp] theorem arena_setSlots (i : Nat) (a b : Ref L) :
    (h.setSlots i a b).cells.size = h.cells.size :=
  size_cells_modifyCell h i _

@[simp] theorem size_setSize (r : Ring) (n : Nat) (q : Ring) :
    (h.setSize r n).size q = if q = r then n else h.size q :=
  Sizes.get_set h.sizes n r q

@[simp] theorem size_setNext (i n : Nat) (q : Ring) : (h.setNext i n).size q = h.size q := rfl

@[simp] theorem size_setPrev (i n : Nat) (q : Ring) : (h.setPrev i n).size q = h.size q := rfl

@[simp] theorem next_setSize (r : Ring) (n i : Nat) : (h.setSize r n).next i = h.next i := rfl

@[simp] theorem prev_setSize (r : Ring) (n i : Nat) : (h.setSize r n).prev i = h.prev i := rfl

@[simp] theorem mark_setSize (r : Ring) (n i : Nat) : (h.setSize r n).mark i = h.mark i := rfl

@[simp] theorem slots_setSize (r : Ring) (n i : Nat) : (h.setSize r n).slots i = h.slots i := rfl

@[simp] theorem arena_setSize (r : Ring) (n : Nat) :
    (h.setSize r n).cells.size = h.cells.size := rfl

/-- `k` is at the same point of the same cycle as `h`. -/
structure SameCycle (h k : Heap L) : Prop where
  phase : k.phase = h.phase
  lastPhase : k.lastPhase = h.lastPhase
  collecting : k.collecting = h.collecting
  cycles : k.cycles = h.cycles

theorem SameCycle.refl (h : Heap L) : SameCycle h h := ⟨rfl, rfl, rfl, rfl⟩

theorem SameCycle.trans {m : Heap L} (first : SameCycle h k) (second : SameCycle k m) :
    SameCycle h m where
  phase := second.phase.trans first.phase
  lastPhase := second.lastPhase.trans first.lastPhase
  collecting := second.collecting.trans first.collecting
  cycles := second.cycles.trans first.cycles

theorem sameCycle_modifyCell (h : Heap L) (i : Nat) (f : Cell L → Cell L) :
    SameCycle h (h.modifyCell i f) := ⟨rfl, rfl, rfl, rfl⟩

/-- `k` differs from `h` at most in its links and recorded lengths. -/
structure Relinked (h k : Heap L) : Prop extends SameCycle h k where
  arena : k.cells.size = h.cells.size
  mark : ∀ i, k.mark i = h.mark i
  slots : ∀ i, k.slots i = h.slots i

theorem Relinked.trans {m : Heap L} (first : Relinked h k) (second : Relinked k m) :
    Relinked h m where
  toSameCycle := first.toSameCycle.trans second.toSameCycle
  arena := second.arena.trans first.arena
  mark i := (second.mark i).trans (first.mark i)
  slots i := (second.slots i).trans (first.slots i)

theorem relinked_setNext (h : Heap L) (i n : Nat) : Relinked h (h.setNext i n) :=
  ⟨sameCycle_modifyCell h i _, arena_setNext i n, mark_setNext i n, slots_setNext i n⟩

theorem relinked_setPrev (h : Heap L) (i n : Nat) : Relinked h (h.setPrev i n) :=
  ⟨sameCycle_modifyCell h i _, arena_setPrev i n, mark_setPrev i n, slots_setPrev i n⟩

theorem relinked_setSize (h : Heap L) (r : Ring) (n : Nat) : Relinked h (h.setSize r n) :=
  ⟨⟨rfl, rfl, rfl, rfl⟩, rfl, fun _ => rfl, fun _ => rfl⟩

/-! ### Rows -/

/-- The links lead from each cell of the row to the next one and from that one back. -/
def Linked (h : Heap L) (row : List Nat) : Prop :=
  row.IsChain fun i j => h.next i = j ∧ h.prev j = i

/-- The links lead from `a` through the row and back to `a`. -/
def Circle (h : Heap L) (a : Nat) (row : List Nat) : Prop :=
  h.Linked (a :: row ++ [a])

theorem Linked.congr {row : List Nat} (linked : h.Linked row)
    (forth : ∀ i ∈ row.dropLast, k.next i = h.next i)
    (back : ∀ j ∈ row.tail, k.prev j = h.prev j) : k.Linked row := by
  induction row with
  | nil => exact .nil
  | cons i row ih =>
    cases row with
    | nil => exact .singleton i
    | cons j row =>
      obtain ⟨⟨there, andBack⟩, rest⟩ := List.isChain_cons_cons.mp linked
      refine .cons_cons ⟨?_, ?_⟩ (ih rest (fun x hx => forth x ?_) (fun x hx => back x ?_))
      · rw [forth i (by simp), there]
      · rw [back j (by simp), andBack]
      · rw [List.dropLast_cons_cons]
        exact List.mem_cons_of_mem _ hx
      · exact List.mem_of_mem_tail hx

theorem linked_join {l r : List Nat} {p n : Nat} :
    h.Linked (l ++ p :: n :: r) ↔
      h.Linked (l ++ [p]) ∧ (h.next p = n ∧ h.prev n = p) ∧ h.Linked (n :: r) :=
  List.isChain_append_cons_cons

theorem Circle.next_head {a : Nat} {row : List Nat} (circle : h.Circle a row) :
    h.next a = row.headD a := by
  unfold Circle at circle
  cases row with
  | nil => exact (List.isChain_cons_cons.mp circle).1.1
  | cons i row => exact (List.isChain_cons_cons.mp circle).1.1

theorem Circle.prev_head {a : Nat} {row : List Nat} (circle : h.Circle a row) :
    h.prev a = row.getLastD a := by
  rcases List.eq_nil_or_concat row with rfl | ⟨row, z, rfl⟩
  · exact (List.isChain_cons_cons.mp circle).1.2
  · have shape : a :: (row ++ [z]) ++ [a] = (a :: row) ++ z :: a :: [] := by simp
    unfold Circle at circle
    rw [List.concat_eq_append, shape, linked_join] at circle
    simpa using circle.2.1.2

theorem Circle.congr {a : Nat} {row : List Nat} (circle : h.Circle a row)
    (forth : ∀ i ∈ a :: row, k.next i = h.next i)
    (back : ∀ i ∈ a :: row, k.prev i = h.prev i) : k.Circle a row := by
  refine Linked.congr circle (fun i hi => forth i ?_) (fun j hj => back j ?_)
  · rwa [List.dropLast_concat] at hi
  · simp only [List.cons_append, List.tail_cons, List.mem_append, List.mem_singleton] at hj
    exact List.mem_cons.mpr hj.symm

theorem membersFrom_eq {a : Nat} {row : List Nat} (linked : h.Linked (row ++ [a]))
    (outside : a ∉ row) {n : Nat} (enough : row.length ≤ n) :
    h.membersFrom a n (row.headD a) = row := by
  induction row generalizing n with
  | nil => cases n <;> simp [membersFrom]
  | cons i row ih =>
    obtain ⟨n, rfl⟩ : ∃ m, n = m + 1 := ⟨n - 1, by simp at enough; omega⟩
    have step : h.next i = row.headD a := by
      cases row with
      | nil => exact (List.isChain_cons_cons.mp linked).1.1
      | cons j row => exact (List.isChain_cons_cons.mp linked).1.1
    simp only [List.mem_cons, not_or] at outside
    have rest := ih (List.IsChain.tail linked) outside.2 (n := n) (by simpa using enough)
    simp only [List.headD_cons, membersFrom, if_neg (Ne.symm outside.1), step, rest]

/-! ### Strung and threaded heaps -/

theorem Ring.head_injective {r q : Ring} (same : r.head = q.head) : r = q := by
  cases r <;> cases q <;> first | rfl | cases same

theorem Ring.head_lt (r : Ring) : r.head < firstCell := by
  cases r <;> decide

/-- Each ring has its own row of cells, none of them a head, and the recorded lengths are the lengths of
the rows. -/
structure Strung (h : Heap L) (rows : Ring → List Nat) : Prop where
  circle : ∀ r, h.Circle r.head (rows r)
  recorded : ∀ r, h.size r = (rows r).length
  nodup : ∀ r, (rows r).Nodup
  apart : ∀ {r q i}, i ∈ rows r → i ∈ rows q → r = q
  inside : ∀ {r i}, i ∈ rows r → i < h.cells.size
  body : ∀ {r i}, i ∈ rows r → ∀ q : Ring, i ≠ q.head
  heads : firstCell ≤ h.cells.size
  narrow : h.cells.size ≤ 2 ^ 62

/-- Each ring has its own row of cells, and the recorded lengths are the lengths of the rows. -/
structure Threaded (h : Heap L) (rows : Ring → List Nat) : Prop where
  circle : ∀ r, h.Circle r.head (rows r)
  recorded : ∀ r, h.size r = (rows r).length
  nodup : ∀ r, (rows r).Nodup
  apart : ∀ {r q i}, i ∈ rows r → i ∈ rows q → r = q
  inside : ∀ {r i}, i ∈ rows r → firstCell ≤ i ∧ i < h.cells.size
  heads : firstCell ≤ h.cells.size
  narrow : h.cells.size ≤ 2 ^ 62

/-- Every cell that stands on no ring is linked to itself. -/
def Parked (h : Heap L) (rows : Ring → List Nat) : Prop :=
  ∀ i, firstCell ≤ i → i < h.cells.size → (∀ r, i ∉ rows r) → h.next i = i ∧ h.prev i = i

variable {rows : Ring → List Nat}

theorem Threaded.strung (t : h.Threaded rows) : h.Strung rows where
  circle := t.circle
  recorded := t.recorded
  nodup := t.nodup
  apart := t.apart
  inside member := (t.inside member).2
  body member q same := by
    have := (t.inside member).1
    have := Ring.head_lt q
    omega
  heads := t.heads
  narrow := t.narrow

theorem Strung.threaded (t : h.Strung rows) (low : ∀ {r i}, i ∈ rows r → firstCell ≤ i) :
    h.Threaded rows where
  circle := t.circle
  recorded := t.recorded
  nodup := t.nodup
  apart := t.apart
  inside member := ⟨low member, t.inside member⟩
  heads := t.heads
  narrow := t.narrow

theorem Strung.head_lt (t : h.Strung rows) (r : Ring) : r.head < h.cells.size :=
  Nat.lt_of_lt_of_le (Ring.head_lt r) t.heads

theorem Strung.head_not_mem (t : h.Strung rows) (r q : Ring) : r.head ∉ rows q :=
  fun member => t.body member r rfl

theorem Strung.next_head (t : h.Strung rows) (r : Ring) : h.next r.head = (rows r).headD r.head :=
  (t.circle r).next_head

theorem Strung.prev_head (t : h.Strung rows) (r : Ring) :
    h.prev r.head = (rows r).getLastD r.head :=
  (t.circle r).prev_head

theorem Strung.length_le (t : h.Strung rows) (r : Ring) : (rows r).length ≤ h.cells.size := by
  have bounded : (rows r).Subperm (List.range h.cells.size) :=
    (t.nodup r).subperm fun i member => List.mem_range.mpr (t.inside member)
  simpa using bounded.length_le

theorem Strung.members_eq (t : h.Strung rows) : h.members = rows := by
  funext r
  have linked : h.Linked (rows r ++ [r.head]) := List.IsChain.tail (t.circle r)
  unfold members
  rw [t.next_head]
  exact membersFrom_eq linked (t.head_not_mem r r) (t.length_le r)

theorem Threaded.head_not_mem (t : h.Threaded rows) (r q : Ring) : r.head ∉ rows q :=
  t.strung.head_not_mem r q

theorem Threaded.length_le (t : h.Threaded rows) (r : Ring) : (rows r).length ≤ h.cells.size :=
  t.strung.length_le r

theorem Threaded.members_eq (t : h.Threaded rows) : h.members = rows :=
  t.strung.members_eq

theorem Threaded.members (t : h.Threaded rows) : h.Threaded h.members := by
  rw [t.members_eq]; exact t

end Heap

end Treadmill

import Treadmill.Proofs.Heap.Relink

/-!
The rings of a strung heap as sequences. Putting a cell on a ring, taking one off it, emptying
one ring onto another and adding a block of cells are what they are called on the rows
(`Strung.pushBack`, `Strung.withdraw`, `Strung.splice`, `Threaded.extend`), and none of them
changes a mark or a slot of a cell that was there before.
-/

namespace Treadmill.Heap
variable {L : Layout} {h k : Heap L} {rows : Ring → List Nat} {r q : Ring} {x : Nat}
  {pre post : List Nat}

theorem Strung.circles_apart (t : h.Strung rows) {i : Nat} (member : i ∈ r.head :: rows r)
    (other : q ≠ r) : i ∉ q.head :: rows q := by
  intro again
  rcases List.mem_cons.mp member with rfl | onRow
  · rcases List.mem_cons.mp again with same | onOther
    · exact other (Ring.head_injective same).symm
    · exact t.head_not_mem r q onOther
  · rcases List.mem_cons.mp again with rfl | onOther
    · exact t.head_not_mem q r onRow
    · exact other (t.apart onOther onRow)

theorem Strung.circle_nodup (t : h.Strung rows) (r : Ring) : (r.head :: rows r).Nodup :=
  List.nodup_cons.mpr ⟨t.head_not_mem r r, t.nodup r⟩

theorem Strung.lt_arena (t : h.Strung rows) {i : Nat} (member : i ∈ r.head :: rows r) :
    i < h.cells.size := by
  rcases List.mem_cons.mp member with rfl | onRow
  · exact t.head_lt r
  · exact t.inside onRow

/-- A cell that is handed out is no head. -/
theorem off_circle (loose : ∀ q, x ∉ rows q) (low : firstCell ≤ x) (q : Ring) :
    x ∉ q.head :: rows q := by
  intro member
  have := Ring.head_lt q
  rcases List.mem_cons.mp member with same | onRow
  · omega
  · exact loose q onRow

theorem perm_insert (x : Nat) (pre post : List Nat) : (pre ++ [x] ++ post).Perm (x :: (pre ++ post)) := by
  rw [List.append_assoc]
  exact List.perm_middle

/-- A heap stays strung when one ring gets another row. -/
theorem Strung.replace {row : List Nat} (t : h.Strung rows) (circle : k.Circle r.head row)
    (elsewhere : ∀ q, q ≠ r → k.Circle q.head (rows q))
    (sizes : ∀ q, k.size q = if q = r then row.length else h.size q) (nodup : row.Nodup)
    (members : ∀ i ∈ row, i ∈ rows r ∨
      (∀ q : Ring, i ∉ q.head :: rows q) ∧ i < k.cells.size)
    (arena : h.cells.size ≤ k.cells.size) (narrow : k.cells.size ≤ 2 ^ 62) :
    k.Strung (Function.update rows r row) := by
  have from_old : ∀ {q i}, i ∈ Function.update rows r row q →
      i ∈ rows q ∨ q = r ∧ (∀ p : Ring, i ∉ p.head :: rows p) ∧ i < k.cells.size := by
    intro q i member
    rcases eq_or_ne q r with rfl | other
    · rw [Function.update_self] at member
      exact (members i member).imp_right fun new => ⟨rfl, new⟩
    · rw [Function.update_of_ne other] at member
      exact Or.inl member
  refine ⟨fun q => ?_, fun q => ?_, fun q => ?_, ?_, ?_, ?_, Nat.le_trans t.heads arena, narrow⟩
  · rcases eq_or_ne q r with rfl | other
    · rwa [Function.update_self]
    · rw [Function.update_of_ne other]
      exact elsewhere q other
  · rw [sizes]
    rcases eq_or_ne q r with rfl | other
    · rw [if_pos rfl, Function.update_self]
    · rw [if_neg other, Function.update_of_ne other, t.recorded]
  · rcases eq_or_ne q r with rfl | other
    · rwa [Function.update_self]
    · rw [Function.update_of_ne other]
      exact t.nodup q
  · intro q p i first second
    rcases from_old first with onQ | ⟨rfl, new, -⟩
    · rcases from_old second with onP | ⟨rfl, new, -⟩
      · exact t.apart onQ onP
      · exact absurd (List.mem_cons_of_mem _ onQ) (new q)
    · rcases from_old second with onP | ⟨rfl, -⟩
      · exact absurd (List.mem_cons_of_mem _ onP) (new p)
      · rfl
  · intro q i member
    rcases from_old member with onQ | ⟨-, -, inside⟩
    · exact Nat.lt_of_lt_of_le (t.inside onQ) arena
    · exact inside
  · intro q i member p
    rcases from_old member with onQ | ⟨-, new, -⟩
    · exact t.body onQ p
    · exact List.ne_of_not_mem_cons (new p)

/-- Only the cells that the new row brings need a look. -/
theorem Threaded.update {row : List Nat} (t : h.Threaded rows) (low : ∀ i ∈ row, firstCell ≤ i)
    (strung : k.Strung (Function.update rows r row)) : k.Threaded (Function.update rows r row) := by
  refine strung.threaded fun {q i} member => ?_
  rcases eq_or_ne q r with rfl | other
  · rw [Function.update_self] at member
    exact low i member
  · rw [Function.update_of_ne other] at member
    exact (t.inside member).1

/-! ### Putting a cell on a ring -/

theorem Strung.insert (t : h.Strung rows) (shape : rows r = pre ++ post)
    (loose : ∀ q : Ring, x ∉ q.head :: rows q) (inside : x < h.cells.size)
    (ins : Inserted h k (pre.getLastD r.head) x (post.headD r.head))
    (arena : k.cells.size = h.cells.size)
    (sizes : ∀ q, k.size q = if q = r then h.size r + 1 else h.size q) :
    k.Strung (Function.update rows r (pre ++ [x] ++ post)) := by
  have perm := perm_insert x pre post
  rw [← shape] at perm
  refine t.replace ?_ (fun q other => ?_) (fun q => ?_) ?_ (fun i member => ?_)
    (Nat.le_of_eq arena.symm) (by rw [arena]; exact t.narrow)
  · have circle := t.circle r
    have distinct := t.circle_nodup r
    have new := loose r
    rw [shape] at circle distinct new
    exact circle.insert distinct new ins
  · refine (t.circle q).insert_elsewhere ins (t.circles_apart ?_ other) (loose q)
      (t.circles_apart ?_ other)
    · rw [shape]; exact getLastD_mem _ _ _
    · rw [shape]; exact headD_mem _ _ _
  · rw [sizes, perm.length_eq, List.length_cons, t.recorded r]
  · exact perm.nodup_iff.mpr (List.nodup_cons.mpr ⟨List.not_mem_of_not_mem_cons (loose r), t.nodup r⟩)
  · rcases List.mem_cons.mp (perm.mem_iff.mp member) with rfl | onRow
    · rw [arena]; exact Or.inr ⟨loose, inside⟩
    · exact Or.inl onRow

theorem Parked.insert (parked : h.Parked rows)
    (shape : rows r = pre ++ post) (ins : Inserted h k (pre.getLastD r.head) x (post.headD r.head))
    (arena : k.cells.size = h.cells.size) :
    k.Parked (Function.update rows r (pre ++ [x] ++ post)) := by
  intro i low high loose
  have onR := loose r
  rw [Function.update_self, (perm_insert x pre post).mem_iff, ← shape, List.mem_cons,
    not_or] at onR
  have notHead : i ≠ r.head := fun same => by
    have := Ring.head_lt r
    omega
  have onCircle : i ∉ r.head :: (pre ++ post) := by
    rw [← shape]
    simp [notHead, onR.2]
  have old := parked i low (by rwa [← arena]) fun q => by
    rcases eq_or_ne q r with rfl | other
    · exact onR.2
    · have := loose q
      rwa [Function.update_of_ne other] at this
  constructor
  · rw [ins.next, if_neg (ne_of_mem_of_not_mem (getLastD_mem _ _ _) onCircle).symm,
      if_neg onR.1]
    exact old.1
  · rw [ins.prev, if_neg (ne_of_mem_of_not_mem (headD_mem _ _ _) onCircle).symm, if_neg onR.1]
    exact old.2

theorem relinked_pushFront (h : Heap L) (r : Ring) (x : Nat) : Relinked h (h.pushFront r x) :=
  (relinked_insertAfter h _ _).trans (relinked_setSize _ _ _)

theorem relinked_pushBack (h : Heap L) (r : Ring) (x : Nat) : Relinked h (h.pushBack r x) :=
  (relinked_insertBefore h _ _).trans (relinked_setSize _ _ _)

theorem Strung.pushFront_inserted (t : h.Strung rows) (r : Ring) (hx : x < h.cells.size) :
    Inserted h (h.pushFront r x) r.head x ((rows r).headD r.head) := by
  have next := t.next_head r
  have nextIn : h.next r.head < h.cells.size := by
    rw [next]; exact t.lt_arena (headD_mem _ [] _)
  have ins := insertAfter_inserted t.narrow hx (t.head_lt r) nextIn
  rw [next] at ins
  exact ⟨ins.next, ins.prev⟩

theorem Strung.pushFront (t : h.Strung rows) (r : Ring) (loose : ∀ q : Ring, x ∉ q.head :: rows q)
    (inside : x < h.cells.size) : (h.pushFront r x).Strung (Function.update rows r (x :: rows r)) :=
  t.insert (show rows r = [] ++ rows r from rfl) loose inside (t.pushFront_inserted r inside)
    (relinked_pushFront h r x).arena
    (fun q => by simp only [Heap.pushFront, size_setSize, size_insertAfter])

theorem Threaded.pushFront (t : h.Threaded rows) (r : Ring) (loose : ∀ q, x ∉ rows q)
    (inside : firstCell ≤ x ∧ x < h.cells.size) :
    (h.pushFront r x).Threaded (Function.update rows r (x :: rows r)) :=
  t.update (List.forall_mem_cons.mpr ⟨inside.1, fun _ member => (t.inside member).1⟩)
    (t.strung.pushFront r (off_circle loose inside.1) inside.2)

theorem Threaded.pushFront_parked (t : h.Threaded rows) (parked : h.Parked rows) (r : Ring)
    (hx : x < h.cells.size) : (h.pushFront r x).Parked (Function.update rows r (x :: rows r)) :=
  parked.insert (show rows r = [] ++ rows r from rfl) (t.strung.pushFront_inserted r hx)
    (relinked_pushFront h r x).arena

theorem Strung.pushBack_inserted (t : h.Strung rows) (r : Ring) (hx : x < h.cells.size) :
    Inserted h (h.pushBack r x) ((rows r).getLastD r.head) x r.head := by
  have prev := t.prev_head r
  have prevIn : h.prev r.head < h.cells.size := by
    rw [prev]; exact t.lt_arena List.getLastD_mem_cons
  have ins := insertBefore_inserted t.narrow hx (t.head_lt r) prevIn
  rw [prev] at ins
  exact ⟨ins.next, ins.prev⟩

theorem Strung.pushBack (t : h.Strung rows) (r : Ring) (loose : ∀ q : Ring, x ∉ q.head :: rows q)
    (inside : x < h.cells.size) :
    (h.pushBack r x).Strung (Function.update rows r (rows r ++ [x])) := by
  have := t.insert (show rows r = rows r ++ [] by simp) loose inside
    (t.pushBack_inserted r inside) (relinked_pushBack h r x).arena
    (fun q => by simp only [Heap.pushBack, size_setSize, size_insertBefore])
  rwa [List.append_nil] at this

theorem Threaded.pushBack (t : h.Threaded rows) (r : Ring) (loose : ∀ q, x ∉ rows q)
    (inside : firstCell ≤ x ∧ x < h.cells.size) :
    (h.pushBack r x).Threaded (Function.update rows r (rows r ++ [x])) :=
  t.update (List.forall_mem_append.mpr
    ⟨fun _ member => (t.inside member).1, List.forall_mem_singleton.mpr inside.1⟩)
    (t.strung.pushBack r (off_circle loose inside.1) inside.2)

theorem Threaded.pushBack_parked (t : h.Threaded rows) (parked : h.Parked rows) (r : Ring)
    (hx : x < h.cells.size) : (h.pushBack r x).Parked (Function.update rows r (rows r ++ [x])) := by
  have := parked.insert (show rows r = rows r ++ [] by simp) (t.strung.pushBack_inserted r hx)
    (relinked_pushBack h r x).arena
  rwa [List.append_nil] at this

/-! ### Taking a cell off a ring -/

theorem Strung.remove (t : h.Strung rows) (shape : rows r = pre ++ [x] ++ post)
    (rem : Removed h k (h.prev x) x (h.next x)) (arena : k.cells.size = h.cells.size)
    (sizes : ∀ q, k.size q = if q = r then h.size r - 1 else h.size q) :
    k.Strung (Function.update rows r (pre ++ post)) := by
  have perm := perm_insert x pre post
  rw [← shape] at perm
  have circle := t.circle r
  rw [shape] at circle
  have onRow : x ∈ rows r := perm.mem_iff.mpr List.mem_cons_self
  have part : ∀ {i}, i ∈ r.head :: (pre ++ post) → i ∈ r.head :: rows r := by
    intro i member
    rcases List.mem_cons.mp member with rfl | rest
    · exact List.mem_cons_self ..
    · exact List.mem_cons_of_mem _ (perm.mem_iff.mpr (List.mem_cons_of_mem _ rest))
  refine t.replace ?_ (fun q other => ?_) (fun q => ?_) ?_ (fun i member => ?_)
    (Nat.le_of_eq arena.symm) (by rw [arena]; exact t.narrow)
  · exact circle.remove (by rw [← shape]; exact t.circle_nodup r) rem
  · refine (t.circle q).remove_elsewhere rem ?_
      (t.circles_apart (List.mem_cons_of_mem _ onRow) other) ?_
    · rw [circle.neighbours.1]
      exact t.circles_apart (part (getLastD_mem _ _ _)) other
    · rw [circle.neighbours.2]
      exact t.circles_apart (part (headD_mem _ _ _)) other
  · rw [sizes, t.recorded r, perm.length_eq, List.length_cons, Nat.add_sub_cancel]
  · exact (List.nodup_cons.mp (perm.nodup_iff.mp (t.nodup r))).2
  · exact Or.inl (perm.mem_iff.mpr (List.mem_cons_of_mem _ member))

theorem Strung.neighbours_mem (t : h.Strung rows) (onRow : x ∈ rows r) :
    h.prev x ∈ r.head :: rows r ∧ h.next x ∈ r.head :: rows r := by
  obtain ⟨pre, post, shape⟩ := List.append_of_mem onRow
  have circle := t.circle r
  rw [shape, ← List.singleton_append, ← List.append_assoc] at circle
  rw [circle.neighbours.1, circle.neighbours.2, shape]
  constructor
  · exact getLastD_mem _ _ _
  · cases post <;> simp

theorem Strung.next_lt (t : h.Strung rows) (onRow : x ∈ rows r) : h.next x < h.cells.size :=
  t.lt_arena (t.neighbours_mem onRow).2

theorem Strung.prev_lt (t : h.Strung rows) (onRow : x ∈ rows r) : h.prev x < h.cells.size :=
  t.lt_arena (t.neighbours_mem onRow).1

theorem relinked_withdraw (h : Heap L) (r : Ring) (x : Nat) : Relinked h (h.withdraw r x) :=
  (relinked_extract h _).trans (relinked_setSize _ _ _)

theorem Strung.withdraw_removed (t : h.Strung rows) (onRow : x ∈ rows r) :
    Removed h (h.withdraw r x) (h.prev x) x (h.next x) := by
  have rem := extract_removed t.narrow (t.inside onRow) (t.prev_lt onRow) (t.next_lt onRow)
  exact ⟨rem.next, rem.prev⟩

theorem Strung.withdraw (t : h.Strung rows) (onRow : x ∈ rows r) :
    (h.withdraw r x).Strung (Function.update rows r ((rows r).erase x)) := by
  obtain ⟨pre, post, shape⟩ := List.append_of_mem onRow
  have first : x ∉ pre := by
    have := t.nodup r
    rw [shape] at this
    exact fun member => (List.nodup_append.mp this).2.2 x member x (by simp) rfl
  have erased : (rows r).erase x = pre ++ post := by
    rw [shape, List.erase_append_right _ first, List.erase_cons_head]
  rw [erased]
  exact t.remove (by rw [shape]; simp) (t.withdraw_removed onRow) (relinked_withdraw h r x).arena
    (fun q => by simp only [Heap.withdraw, size_setSize, size_extract])

theorem Threaded.withdraw (t : h.Threaded rows) (onRow : x ∈ rows r) :
    (h.withdraw r x).Threaded (Function.update rows r ((rows r).erase x)) :=
  t.update (fun _ member => (t.inside (List.mem_of_mem_erase member)).1) (t.strung.withdraw onRow)

/-- A cell that was taken off its ring stands on no other. -/
theorem Strung.loose (t : h.Strung rows) (onRow : x ∈ rows r) (q : Ring) :
    x ∉ Function.update rows r ((rows r).erase x) q := by
  intro member
  rcases eq_or_ne q r with rfl | other
  · rw [Function.update_self, (t.nodup q).mem_erase_iff] at member
    exact member.1 rfl
  · rw [Function.update_of_ne other] at member
    exact other (t.apart member onRow)

/-- A cell that was taken off its ring is linked to itself. -/
theorem Threaded.withdraw_parked (t : h.Threaded rows) (parked : h.Parked rows)
    (onRow : x ∈ rows r) :
    (h.withdraw r x).Parked (Function.update rows r ((rows r).erase x)) := by
  intro i low high loose
  have rem := t.strung.withdraw_removed onRow
  by_cases same : i = x
  · rw [rem.next, rem.prev, if_pos same, if_pos same, same]
    exact ⟨rfl, rfl⟩
  have notOn : ∀ q, i ∉ rows q := by
    intro q member
    have := loose q
    rcases eq_or_ne q r with rfl | other
    · rw [Function.update_self] at this
      exact this ((List.mem_erase_of_ne same).mpr member)
    · rw [Function.update_of_ne other] at this
      exact this member
  have onCircle : i ∉ r.head :: rows r := off_circle notOn low r
  obtain ⟨prevMem, nextMem⟩ := t.strung.neighbours_mem onRow
  rw [rem.next, rem.prev, if_neg same, if_neg same,
    if_neg (ne_of_mem_of_not_mem prevMem onCircle).symm,
    if_neg (ne_of_mem_of_not_mem nextMem onCircle).symm]
  exact parked i low (by rwa [← (relinked_withdraw h r x).arena]) notOn

theorem Strung.popFront_nil (t : h.Strung rows) (empty : rows r = []) :
    h.popFront r = (none, h) := by
  simp [popFront, t.next_head, empty]

theorem Strung.popFront_cons (t : h.Strung rows) (shape : rows r = x :: post) :
    h.popFront r = (some x, h.withdraw r x) := by
  have : x ≠ r.head := by
    intro same
    exact t.head_not_mem r r (by rw [shape, same]; simp)
  simp [popFront, t.next_head, shape, this]

theorem Strung.popBack_nil (t : h.Strung rows) (empty : rows r = []) :
    h.popBack r = (none, h) := by
  simp [popBack, t.prev_head, empty]

theorem Strung.popBack_concat (t : h.Strung rows) (shape : rows r = pre ++ [x]) :
    h.popBack r = (some x, h.withdraw r x) := by
  have : x ≠ r.head := by
    intro same
    exact t.head_not_mem r r (by rw [shape, same]; simp)
  simp [popBack, t.prev_head, shape, this]

/-! ### Emptying a ring onto another -/

/-- The links of `k` are those of `h`, but the row from `f` to `z`, which stood between `s` and
itself, stands between `p` and `t`. -/
structure Spliced (h k : Heap L) (p t s f z : Nat) : Prop where
  next : ∀ j, k.next j = if j = s then s else if j = z then t else if j = p then f else h.next j
  prev : ∀ j, k.prev j = if j = s then s else if j = t then z else if j = f then p else h.prev j

theorem relinked_splice (h : Heap L) (r q : Ring) : Relinked h (h.splice r q) := by
  unfold splice
  dsimp only
  split
  · exact ⟨.refl h, rfl, fun _ => rfl, fun _ => rfl⟩
  · exact (((((((relinked_setNext h _ _).trans (relinked_setPrev _ _ _)).trans
      (relinked_setNext _ _ _)).trans (relinked_setPrev _ _ _)).trans (relinked_setNext _ _ _)).trans
      (relinked_setPrev _ _ _)).trans (relinked_setSize _ _ _)).trans (relinked_setSize _ _ _)

theorem Strung.splice_spliced (t : h.Strung rows) (filled : rows q ≠ []) :
    Spliced h (h.splice r q) ((rows r).getLastD r.head) r.head q.head ((rows q).headD q.head)
      ((rows q).getLastD q.head) ∧
    ∀ p, (h.splice r q).size p =
      if p = q then 0 else if p = r then h.size r + h.size q else h.size p := by
  have first := t.next_head q
  have last := t.prev_head q
  have tail := t.prev_head r
  have firstMem : (rows q).headD q.head ∈ rows q := by
    cases shape : rows q with
    | nil => exact absurd shape filled
    | cons z row => simp
  have firstNe : h.next q.head ≠ q.head := by
    rw [first]
    exact ne_of_mem_of_not_mem firstMem (t.head_not_mem q q)
  have narrow := t.narrow
  have headR := t.head_lt r
  have headQ := t.head_lt q
  have firstLt := t.lt_arena (List.mem_cons_of_mem q.head firstMem)
  have lastLt : (rows q).getLastD q.head < h.cells.size := t.lt_arena List.getLastD_mem_cons
  have tailLt : (rows r).getLastD r.head < h.cells.size := t.lt_arena List.getLastD_mem_cons
  unfold Heap.splice
  dsimp only
  rw [if_neg firstNe, first, last, tail]
  refine ⟨⟨fun j => ?_, fun j => ?_⟩, fun p => ?_⟩
  · rw [next_setSize, next_setSize, next_setPrev, next_setNext (by simpa using headQ) (by omega),
      next_setPrev, next_setNext (by simpa using lastLt) (by omega), next_setPrev,
      next_setNext tailLt (by omega)]
  · rw [prev_setSize, prev_setSize, prev_setPrev (by simpa using headQ) (by omega), prev_setNext,
      prev_setPrev (by simpa using headR) (by omega), prev_setNext,
      prev_setPrev (by simpa using firstLt) (by omega), prev_setNext]
  · simp only [size_setSize, size_setNext, size_setPrev]

theorem Strung.linked_row (t : h.Strung rows) (r : Ring) : h.Linked (rows r) :=
  List.IsChain.left_of_append (List.IsChain.tail (t.circle r))

theorem Strung.splice_circles {f : Nat} {row : List Nat} (t : h.Strung rows) (different : r ≠ q)
    (filled : rows q = f :: row)
    (sp : Spliced h k ((rows r).getLastD r.head) r.head q.head f (row.getLastD f)) :
    k.Circle r.head (rows r ++ rows q) ∧ k.Circle q.head [] ∧
      ∀ p, p ≠ r → p ≠ q → k.Circle p.head (rows p) := by
  have onFrom : ∀ {i}, i ∈ f :: row → i ∈ q.head :: rows q :=
    fun member => by rw [filled]; exact List.mem_cons_of_mem _ member
  have firstMem := onFrom (List.mem_cons_self : f ∈ f :: row)
  have lastMem := onFrom (List.getLastD_mem_cons : row.getLastD f ∈ f :: row)
  have tailMem : (rows r).getLastD r.head ∈ r.head :: rows r := List.getLastD_mem_cons
  have notHead : ∀ {i}, i ∈ f :: row → i ≠ q.head := fun member =>
    ne_of_mem_of_not_mem member (by rw [← filled]; exact t.head_not_mem q q)
  have across : ∀ {i j}, i ∈ q.head :: rows q → j ∈ r.head :: rows r → i ≠ j := fun hi hj =>
    ne_of_mem_of_not_mem hi (t.circles_apart hj different.symm)
  have headR : r.head ∈ r.head :: rows r := List.mem_cons_self
  have headQ : q.head ∈ q.head :: rows q := List.mem_cons_self
  have distinct : (f :: row).Nodup := by rw [← filled]; exact t.nodup q
  have linked : k.Linked (f :: row) := by
    have old := t.linked_row q
    rw [filled] at old
    refine old.congr (fun i hi => ?_) (fun j hj => ?_)
    · have member := List.mem_of_mem_dropLast hi
      have notLast : i ≠ row.getLastD f := by
        obtain ⟨l, shape⟩ := before_gap f row
        rw [shape] at distinct hi
        rw [List.dropLast_concat] at hi
        exact fun same => (List.nodup_append.mp distinct).2.2 i hi _ (by simp) same
      rw [sp.next, if_neg (notHead member), if_neg notLast,
        if_neg (across (onFrom member) tailMem)]
    · rw [List.tail_cons] at hj
      have member := List.mem_cons_of_mem f hj
      rw [sp.prev, if_neg (notHead member), if_neg (across (onFrom member) headR),
        if_neg (ne_of_mem_of_not_mem hj (List.nodup_cons.mp distinct).1)]
  refine ⟨?_, .cons_cons ⟨?_, ?_⟩ (.singleton _), fun p notR notQ => ?_⟩
  · have circle : h.Circle r.head (rows r ++ []) := by simpa using t.circle r
    have := circle.fill (u := f) (v := row.getLastD f) (by simpa using t.circle_nodup r) linked rfl
      (by rw [List.getLast?_cons, List.getLastD_eq_getLast?])
      (fun i hi other => ?_) (fun i hi other => ?_) ⟨?_, ?_⟩ ⟨?_, ?_⟩
    · rwa [List.append_nil, ← filled] at this
    · rw [List.append_nil] at hi
      rw [sp.next, if_neg (across headQ hi).symm, if_neg (across lastMem hi).symm, if_neg other]
    · rw [List.append_nil] at hi
      rw [List.headD_nil] at other
      rw [sp.prev, if_neg (across headQ hi).symm, if_neg other, if_neg (across firstMem hi).symm]
    · rw [sp.next, if_neg (across headQ tailMem).symm, if_neg (across lastMem tailMem).symm,
        if_pos rfl]
    · rw [sp.prev, if_neg (notHead List.mem_cons_self), if_neg (across firstMem headR), if_pos rfl]
    · rw [sp.next, if_neg (notHead List.getLastD_mem_cons), if_pos rfl, List.headD_nil]
    · rw [List.headD_nil, sp.prev, if_neg (across headQ headR).symm, if_pos rfl]
  · rw [sp.next, if_pos rfl]
  · rw [sp.prev, if_pos rfl]
  · have apartQ : ∀ {i j}, i ∈ p.head :: rows p → j ∈ q.head :: rows q → i ≠ j := fun hi hj =>
      ne_of_mem_of_not_mem hi (t.circles_apart hj notQ)
    have apartR : ∀ {i j}, i ∈ p.head :: rows p → j ∈ r.head :: rows r → i ≠ j := fun hi hj =>
      ne_of_mem_of_not_mem hi (t.circles_apart hj notR)
    refine (t.circle p).congr (fun i hi => ?_) (fun i hi => ?_)
    · rw [sp.next, if_neg (apartQ hi headQ), if_neg (apartQ hi lastMem), if_neg (apartR hi tailMem)]
    · rw [sp.prev, if_neg (apartQ hi headQ), if_neg (apartR hi headR), if_neg (apartQ hi firstMem)]

/-- The rows once the ring `q` is emptied onto the ring `r`. -/
def splicedRows (rows : Ring → List Nat) (r q : Ring) : Ring → List Nat :=
  Function.update (Function.update rows r (rows r ++ rows q)) q []

theorem splicedRows_source (rows : Ring → List Nat) (r q : Ring) : splicedRows rows r q q = [] :=
  Function.update_self ..

theorem splicedRows_target (rows : Ring → List Nat) (different : r ≠ q) :
    splicedRows rows r q r = rows r ++ rows q := by
  rw [splicedRows, Function.update_of_ne different, Function.update_self]

theorem splicedRows_other {p : Ring} (rows : Ring → List Nat) (notR : p ≠ r) (notQ : p ≠ q) :
    splicedRows rows r q p = rows p := by
  rw [splicedRows, Function.update_of_ne notQ, Function.update_of_ne notR]

theorem mem_splicedRows {p : Ring} {i : Nat} (different : r ≠ q) :
    i ∈ splicedRows rows r q p ↔ p ≠ q ∧ (i ∈ rows p ∨ p = r ∧ i ∈ rows q) := by
  rcases eq_or_ne p q with rfl | notQ
  · simp [splicedRows_source]
  rcases eq_or_ne p r with rfl | notR
  · simp [splicedRows_target rows different, notQ]
  · simp [splicedRows_other rows notR notQ, notQ, notR]

theorem Strung.splice (t : h.Strung rows) (different : r ≠ q) :
    (h.splice r q).Strung (splicedRows rows r q) := by
  cases filled : rows q with
  | nil =>
    have same : h.splice r q = h := by simp [Heap.splice, t.next_head, filled]
    rw [same, splicedRows, filled, List.append_nil, Function.update_eq_self, ← filled,
      Function.update_eq_self]
    exact t
  | cons f row =>
    obtain ⟨spliced, sizes⟩ := t.splice_spliced (r := r) (q := q) (by rw [filled]; simp)
    rw [filled, List.headD_cons, List.getLastD_cons] at spliced
    obtain ⟨onto, emptied, others⟩ := t.splice_circles different filled spliced
    have arena := (relinked_splice h r q).arena
    refine ⟨fun p => ?_, fun p => ?_, fun p => ?_, ?_, ?_, ?_, by rw [arena]; exact t.heads,
      by rw [arena]; exact t.narrow⟩
    · rcases eq_or_ne p q with rfl | notQ
      · rwa [splicedRows_source]
      rcases eq_or_ne p r with rfl | notR
      · rwa [splicedRows_target rows different]
      · rw [splicedRows_other rows notR notQ]
        exact others p notR notQ
    · rw [sizes]
      rcases eq_or_ne p q with rfl | notQ
      · rw [if_pos rfl, splicedRows_source, List.length_nil]
      rcases eq_or_ne p r with rfl | notR
      · rw [if_neg notQ, if_pos rfl, splicedRows_target rows different, List.length_append,
          t.recorded, t.recorded]
      · rw [if_neg notQ, if_neg notR, splicedRows_other rows notR notQ, t.recorded]
    · rcases eq_or_ne p q with rfl | notQ
      · rw [splicedRows_source]
        exact List.nodup_nil
      rcases eq_or_ne p r with rfl | notR
      · rw [splicedRows_target rows different]
        refine List.nodup_append.mpr ⟨t.nodup p, t.nodup q, fun i hi j hj same => ?_⟩
        subst same
        exact different (t.apart hi hj)
      · rw [splicedRows_other rows notR notQ]
        exact t.nodup p
    · intro p p' i first second
      rw [mem_splicedRows different] at first second
      obtain ⟨notQ, onP | ⟨rfl, onQ⟩⟩ := first
      · obtain ⟨-, onP' | ⟨rfl, onQ⟩⟩ := second
        · exact t.apart onP onP'
        · exact absurd (t.apart onP onQ) notQ
      · obtain ⟨notQ', onP' | ⟨rfl, -⟩⟩ := second
        · exact absurd (t.apart onP' onQ) notQ'
        · rfl
    · intro p i member
      rw [arena]
      obtain ⟨-, onP | ⟨-, onQ⟩⟩ := (mem_splicedRows different).mp member
      · exact t.inside onP
      · exact t.inside onQ
    · intro p i member
      obtain ⟨-, onP | ⟨-, onQ⟩⟩ := (mem_splicedRows different).mp member
      · exact t.body onP
      · exact t.body onQ

theorem Threaded.splice (t : h.Threaded rows) (different : r ≠ q) :
    (h.splice r q).Threaded (splicedRows rows r q) := by
  refine (t.strung.splice different).threaded fun {p i} member => ?_
  obtain ⟨-, onP | ⟨-, onQ⟩⟩ := (mem_splicedRows different).mp member
  · exact (t.inside onP).1
  · exact (t.inside onQ).1

theorem Threaded.splice_parked (t : h.Threaded rows) (parked : h.Parked rows) (different : r ≠ q) :
    (h.splice r q).Parked (splicedRows rows r q) := by
  intro i low high loose
  have arena := (relinked_splice h r q).arena
  have notOn : ∀ p, i ∉ rows p := by
    intro p member
    by_cases isQ : p = q
    · exact loose r ((mem_splicedRows different).mpr ⟨different, Or.inr ⟨rfl, isQ ▸ member⟩⟩)
    · exact loose p ((mem_splicedRows different).mpr ⟨isQ, Or.inl member⟩)
  have off : ∀ p : Ring, i ∉ p.head :: rows p := off_circle notOn low
  have old := parked i low (by rwa [← arena]) notOn
  by_cases filled : rows q = []
  · have same : h.splice r q = h := by simp [Heap.splice, t.strung.next_head, filled]
    rwa [same]
  · obtain ⟨sp, -⟩ := t.strung.splice_spliced (r := r) filled
    have away : ∀ {p : Ring} {j}, j ∈ p.head :: rows p → i ≠ j := fun member =>
      (ne_of_mem_of_not_mem member (off _)).symm
    rw [sp.next, sp.prev, if_neg (away (p := q) List.mem_cons_self),
      if_neg (away (p := q) List.mem_cons_self), if_neg (away (p := q) List.getLastD_mem_cons),
      if_neg (away (p := r) List.getLastD_mem_cons), if_neg (away (p := r) List.mem_cons_self),
      if_neg (away (p := q) (headD_mem _ [] _))]
    exact old

end Treadmill.Heap

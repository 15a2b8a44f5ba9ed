import Treadmill.Proofs.Heap.Thread

/-!
What the link operations do to circles. Each of them joins the cells `p` and `n` on either side of
a gap through other cells than before, and the rest of the circle stays as it is (`Circle.halves`).
-/

namespace Treadmill.Heap
variable {L : Layout} {h k : Heap L} {a p n x : Nat} {pre mid post l r : List Nat}

/-! ### Gaps -/

/-- The path once round a circle, cut open at its head: `p` is the last cell before a gap and `n`
the first one after it. -/
theorem path_eq (before : a :: pre = l ++ [p]) (after : post ++ [a] = n :: r) (mid : List Nat) :
    a :: (pre ++ mid ++ post) ++ [a] = l ++ [p] ++ mid ++ n :: r := by
  calc a :: (pre ++ mid ++ post) ++ [a] = (a :: pre) ++ mid ++ (post ++ [a]) := by simp
    _ = l ++ [p] ++ mid ++ n :: r := by rw [before, after]

theorem before_gap (a : Nat) (pre : List Nat) : ∃ l, a :: pre = l ++ [pre.getLastD a] := by
  rcases List.eq_nil_or_concat pre with rfl | ⟨pre, z, rfl⟩
  · exact ⟨[], rfl⟩
  · exact ⟨a :: pre, by simp⟩

theorem after_gap (a : Nat) (post : List Nat) : ∃ r, post ++ [a] = post.headD a :: r := by
  cases post with
  | nil => exact ⟨[], rfl⟩
  | cons z post => exact ⟨post ++ [a], rfl⟩

theorem headD_mem (a : Nat) (pre post : List Nat) : post.headD a ∈ a :: (pre ++ post) := by
  cases post <;> simp

theorem getLastD_mem (a : Nat) (pre post : List Nat) : pre.getLastD a ∈ a :: (pre ++ post) :=
  List.mem_append_left post List.getLastD_mem_cons

theorem Circle.neighbours (circle : h.Circle a (pre ++ [x] ++ post)) :
    h.prev x = pre.getLastD a ∧ h.next x = post.headD a := by
  obtain ⟨l, before⟩ := before_gap a pre
  obtain ⟨r, after⟩ := after_gap a post
  unfold Circle at circle
  rw [path_eq before after, List.append_assoc, List.append_assoc] at circle
  obtain ⟨-, ⟨-, back⟩, rest⟩ := linked_join.mp circle
  exact ⟨back, (List.isChain_cons_cons.mp rest).1.1⟩

/-- If only the forward link of `p` and the backward link of `n` change, both sides of the gap
stay linked. -/
theorem Circle.halves (circle : h.Circle a (pre ++ mid ++ post))
    (distinct : (a :: (pre ++ post)).Nodup)
    (before : a :: pre = l ++ [p]) (after : post ++ [a] = n :: r)
    (forth : ∀ i ∈ a :: (pre ++ post), i ≠ p → k.next i = h.next i)
    (back : ∀ i ∈ a :: (pre ++ post), i ≠ n → k.prev i = h.prev i) :
    k.Linked (l ++ [p]) ∧ k.Linked (n :: r) := by
  unfold Circle at circle
  rw [path_eq before after] at circle
  have left : h.Linked (l ++ [p]) := List.IsChain.left_of_append (List.IsChain.left_of_append circle)
  have right : h.Linked (n :: r) := List.IsChain.right_of_append circle
  have parts : (l ++ [p] ++ post).Nodup := by rw [← before]; exact distinct
  have back' : (n :: r).Nodup := by
    rw [← after]
    have : (a :: post).Nodup := distinct.sublist (by simp)
    exact (List.perm_append_singleton a post).nodup_iff.mpr this
  obtain ⟨frontNodup, -, apart⟩ := List.nodup_append.mp parts
  constructor
  · refine left.congr (fun i hi => ?_) (fun j hj => ?_)
    · rw [List.dropLast_concat] at hi
      have member : i ∈ a :: pre := by rw [before]; exact List.mem_append_left _ hi
      refine forth i (List.mem_append_left post member) fun same => ?_
      exact (List.nodup_append.mp frontNodup).2.2 i hi p (by simp) same
    · rw [← before, List.tail_cons] at hj
      refine back j (by simp [hj]) fun same => ?_
      have : n ∈ post ++ [a] := by rw [after]; simp
      subst same
      rcases List.mem_append.mp this with inPost | isHead
      · exact apart j (by rw [← before]; simp [hj]) j inPost rfl
      · rw [List.mem_singleton.mp isHead] at hj
        exact (List.nodup_cons.mp distinct).1 (List.mem_append_left _ hj)
  · refine right.congr (fun i hi => ?_) (fun j hj => ?_)
    · rw [← after, List.dropLast_concat] at hi
      refine forth i (by simp [hi]) fun same => ?_
      exact apart p (by simp) i hi same.symm
    · rw [List.tail_cons] at hj
      have member : j ∈ post ++ [a] := by rw [after]; simp [hj]
      refine back j ?_ fun same => ?_
      · rcases List.mem_append.mp member with inPost | isHead
        · simp [inPost]
        · simp [List.mem_singleton.mp isHead]
      · subst same
        exact (List.nodup_cons.mp back').1 hj

/-- A row that is linked in `k` fills a gap if `k` also links its ends to the cells `p` and `n` on
either side. -/
theorem Circle.fill {u v : Nat} (circle : h.Circle a (pre ++ post))
    (distinct : (a :: (pre ++ post)).Nodup) (linked : k.Linked mid)
    (first : mid.head? = some u) (last : mid.getLast? = some v)
    (forth : ∀ i ∈ a :: (pre ++ post), i ≠ pre.getLastD a → k.next i = h.next i)
    (back : ∀ i ∈ a :: (pre ++ post), i ≠ post.headD a → k.prev i = h.prev i)
    (enter : k.next (pre.getLastD a) = u ∧ k.prev u = pre.getLastD a)
    (leave : k.next v = post.headD a ∧ k.prev (post.headD a) = v) :
    k.Circle a (pre ++ mid ++ post) := by
  obtain ⟨l, before⟩ := before_gap a pre
  obtain ⟨r, after⟩ := after_gap a post
  have circle' : h.Circle a (pre ++ [] ++ post) := by simpa using circle
  obtain ⟨left, right⟩ := circle'.halves distinct before after forth back
  unfold Circle
  rw [path_eq before after]
  refine List.isChain_append.mpr ⟨List.isChain_append.mpr ⟨left, linked, ?_⟩, right, ?_⟩
  · intro x hx y hy
    rw [List.getLast?_concat, Option.mem_some_iff] at hx
    rw [first, Option.mem_some_iff] at hy
    subst hx hy
    exact enter
  · intro x hx y hy
    rw [List.getLast?_append, last, Option.some_or, Option.mem_some_iff] at hx
    rw [List.head?_cons, Option.mem_some_iff] at hy
    subst hx hy
    exact leave

/-! ### Insertion -/

/-- The links of `k` are those of `h`, but `x` stands between `p` and `n`. -/
structure Inserted (h k : Heap L) (p x n : Nat) : Prop where
  next : ∀ j, k.next j = if j = p then x else if j = x then n else h.next j
  prev : ∀ j, k.prev j = if j = n then x else if j = x then p else h.prev j

theorem insertBefore_inserted {y : Nat} (narrow : h.cells.size ≤ 2 ^ 62)
    (hx : x < h.cells.size) (hy : y < h.cells.size) (hp : h.prev y < h.cells.size) :
    Inserted h (h.insertBefore y x) (h.prev y) x y := by
  constructor <;> intro j
  · unfold insertBefore
    rw [next_setPrev, next_setNext (by simpa using hp) (by omega), next_setPrev,
      next_setNext hx (by omega)]
  · unfold insertBefore
    rw [prev_setPrev (by simpa using hy) (by omega), prev_setNext,
      prev_setPrev (by simpa using hx) (by omega), prev_setNext]

theorem insertAfter_inserted {y : Nat} (narrow : h.cells.size ≤ 2 ^ 62)
    (hx : x < h.cells.size) (hy : y < h.cells.size) (hn : h.next y < h.cells.size) :
    Inserted h (h.insertAfter y x) y x (h.next y) := by
  constructor <;> intro j
  · unfold insertAfter
    rw [next_setNext (by simpa using hy) (by omega), next_setPrev,
      next_setNext (by simpa using hx) (by omega), next_setPrev]
  · unfold insertAfter
    rw [prev_setNext, prev_setPrev (by simpa using hn) (by omega), prev_setNext,
      prev_setPrev hx (by omega)]

theorem relinked_insertBefore (h : Heap L) (y x : Nat) : Relinked h (h.insertBefore y x) :=
  (((relinked_setNext h _ _).trans (relinked_setPrev _ _ _)).trans
    (relinked_setNext _ _ _)).trans (relinked_setPrev _ _ _)

theorem relinked_insertAfter (h : Heap L) (y x : Nat) : Relinked h (h.insertAfter y x) :=
  (((relinked_setPrev h _ _).trans (relinked_setNext _ _ _)).trans
    (relinked_setPrev _ _ _)).trans (relinked_setNext _ _ _)

@[simp] theorem size_insertBefore (y x : Nat) (q : Ring) :
    (h.insertBefore y x).size q = h.size q := by
  simp only [insertBefore, size_setNext, size_setPrev]

@[simp] theorem size_insertAfter (y x : Nat) (q : Ring) :
    (h.insertAfter y x).size q = h.size q := by
  simp only [insertAfter, size_setNext, size_setPrev]

theorem Circle.insert (circle : h.Circle a (pre ++ post)) (distinct : (a :: (pre ++ post)).Nodup)
    (new : x ∉ a :: (pre ++ post)) (ins : Inserted h k (pre.getLastD a) x (post.headD a)) :
    k.Circle a (pre ++ [x] ++ post) := by
  have pNe : pre.getLastD a ≠ x := ne_of_mem_of_not_mem (getLastD_mem a pre post) new
  have nNe : post.headD a ≠ x := ne_of_mem_of_not_mem (headD_mem a pre post) new
  refine circle.fill (u := x) (v := x) distinct (.singleton x) rfl rfl (fun i hi other => ?_) (fun i hi other => ?_)
    ⟨?_, ?_⟩ ⟨?_, ?_⟩
  · rw [ins.next, if_neg other, if_neg (ne_of_mem_of_not_mem hi new)]
  · rw [ins.prev, if_neg other, if_neg (ne_of_mem_of_not_mem hi new)]
  · rw [ins.next, if_pos rfl]
  · rw [ins.prev, if_neg nNe.symm, if_pos rfl]
  · rw [ins.next, if_neg pNe.symm, if_pos rfl]
  · rw [ins.prev, if_pos rfl]

theorem Circle.insert_elsewhere {row : List Nat} (circle : h.Circle a row)
    (ins : Inserted h k p x n) (hp : p ∉ a :: row) (hx : x ∉ a :: row) (hn : n ∉ a :: row) :
    k.Circle a row := by
  refine circle.congr (fun i hi => ?_) (fun i hi => ?_)
  · rw [ins.next, if_neg (ne_of_mem_of_not_mem hi hp), if_neg (ne_of_mem_of_not_mem hi hx)]
  · rw [ins.prev, if_neg (ne_of_mem_of_not_mem hi hn), if_neg (ne_of_mem_of_not_mem hi hx)]

/-! ### Removal -/

/-- The links of `k` are those of `h`, but `x` is linked to itself and its neighbours `p` and `n`
to each other. -/
structure Removed (h k : Heap L) (p x n : Nat) : Prop where
  next : ∀ j, k.next j = if j = x then x else if j = p then n else h.next j
  prev : ∀ j, k.prev j = if j = x then x else if j = n then p else h.prev j

theorem extract_removed (narrow : h.cells.size ≤ 2 ^ 62) (hx : x < h.cells.size)
    (hp : h.prev x < h.cells.size) (hn : h.next x < h.cells.size) :
    Removed h (h.extract x) (h.prev x) x (h.next x) := by
  constructor <;> intro j
  · unfold extract
    rw [next_setPrev, next_setNext (by simpa using hx) (by omega), next_setPrev,
      next_setNext hp (by omega)]
  · unfold extract
    rw [prev_setPrev (by simpa using hx) (by omega), prev_setNext,
      prev_setPrev (by simpa using hn) (by omega), prev_setNext]

theorem relinked_extract (h : Heap L) (x : Nat) : Relinked h (h.extract x) :=
  (((relinked_setNext h _ _).trans (relinked_setPrev _ _ _)).trans
    (relinked_setNext _ _ _)).trans (relinked_setPrev _ _ _)

@[simp] theorem size_extract (x : Nat) (q : Ring) : (h.extract x).size q = h.size q := by
  simp only [extract, size_setNext, size_setPrev]

theorem Circle.remove (circle : h.Circle a (pre ++ [x] ++ post))
    (distinct : (a :: (pre ++ [x] ++ post)).Nodup) (rem : Removed h k (h.prev x) x (h.next x)) :
    k.Circle a (pre ++ post) := by
  obtain ⟨hp, hn⟩ := circle.neighbours
  obtain ⟨l, before⟩ := before_gap a pre
  obtain ⟨r, after⟩ := after_gap a post
  obtain ⟨new, distinct'⟩ : x ∉ a :: (pre ++ post) ∧ (a :: (pre ++ post)).Nodup := by
    have moved : (a :: (pre ++ [x] ++ post)).Perm (x :: a :: (pre ++ post)) := by
      rw [List.append_assoc]
      exact (List.perm_middle.cons a).trans (List.Perm.swap x a _)
    exact List.nodup_cons.mp (moved.nodup_iff.mp distinct)
  have pNe : h.prev x ≠ x := by
    rw [hp]; exact ne_of_mem_of_not_mem (getLastD_mem a pre post) new
  have nNe : h.next x ≠ x := by
    rw [hn]; exact ne_of_mem_of_not_mem (headD_mem a pre post) new
  rw [← hp] at before
  rw [← hn] at after
  obtain ⟨left, right⟩ := circle.halves (k := k) distinct' before after
    (fun i hi other => by rw [rem.next, if_neg (ne_of_mem_of_not_mem hi new), if_neg other])
    (fun i hi other => by rw [rem.prev, if_neg (ne_of_mem_of_not_mem hi new), if_neg other])
  have whole : k.Linked (l ++ h.prev x :: h.next x :: r) := by
    refine linked_join.mpr ⟨left, ⟨?_, ?_⟩, right⟩
    · rw [rem.next, if_neg pNe, if_pos rfl]
    · rw [rem.prev, if_neg nNe, if_pos rfl]
  have path := path_eq before after []
  simp only [List.append_nil, List.append_assoc] at path
  unfold Circle
  rw [path]
  exact whole

theorem Circle.remove_elsewhere {row : List Nat} (circle : h.Circle a row)
    (rem : Removed h k p x n) (hp : p ∉ a :: row) (hx : x ∉ a :: row) (hn : n ∉ a :: row) :
    k.Circle a row := by
  refine circle.congr (fun i hi => ?_) (fun i hi => ?_)
  · rw [rem.next, if_neg (ne_of_mem_of_not_mem hi hx), if_neg (ne_of_mem_of_not_mem hi hp)]
  · rw [rem.prev, if_neg (ne_of_mem_of_not_mem hi hx), if_neg (ne_of_mem_of_not_mem hi hn)]

end Treadmill.Heap

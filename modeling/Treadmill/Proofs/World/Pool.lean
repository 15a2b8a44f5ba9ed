import Mathlib
import Treadmill.Proofs.World.Books

/-!
Cells from the pool and back to it. A cell that is taken was in the pool or not in use, and its
contents are the two operands.
-/

namespace Treadmill.World
variable {L : Layout} {α γ β δ : Type} {s : Logged (World L α γ)} {w u : World L α γ} {b : Books L}
  {care : Care L} {i : Nat} {p first rest : Ref L} {h k : Heap L} {j : Journal}
  {t : HeapTask L β} {f : β → WorldTask L α γ δ} {after : δ → World L α γ → Prop}
  {failed : Fault → World L α γ → Prop} {fault : Fault} {a : β} {c : Ref L × Ref L}

/-- There is no room for another block of cells. -/
def Full (w : World L α γ) : Prop := Ref.maxCell L < w.heap.cells.size + blockCells

/-! ### Work on the heap -/

theorem onHeap_ok (ran : t ⟨s.state.heap, s.journal⟩ = .ok a ⟨k, j⟩) :
    onHeap t s = .ok a ⟨{ s.state with heap := k }, j⟩ := by
  obtain ⟨w, l⟩ := s
  simp only [onHeap, Task.onPart] at ran ⊢
  rw [ran]

theorem onHeap_error (ran : t ⟨s.state.heap, s.journal⟩ = .error fault ⟨k, j⟩) :
    onHeap t s = .error fault ⟨{ s.state with heap := k }, j⟩ := by
  obtain ⟨w, l⟩ := s
  simp only [onHeap, Task.onPart] at ran ⊢
  rw [ran]

theorem onHeap_refused (ran : t ⟨s.state.heap, s.journal⟩ = .error fault ⟨s.state.heap, s.journal⟩) :
    onHeap t s = .error fault s := onHeap_error ran

theorem ends_onHeap (ran : t ⟨s.state.heap, s.journal⟩ = .ok a ⟨k, j⟩)
    (next : (f a).Ends ⟨{ s.state with heap := k }, j⟩ after failed) :
    (onHeap t >>= f).Ends s after failed :=
  Task.ends_bind_ok (onHeap_ok ran) next

theorem ends_refused (ran : t ⟨s.state.heap, s.journal⟩ = .error fault ⟨s.state.heap, s.journal⟩)
    (unchanged : failed fault s.state) : (onHeap t >>= f).Ends s after failed :=
  Task.ends_bind_error (onHeap_refused ran) unchanged

/-- Reading a queue cell changes nothing. -/
theorem Kept.first_apply (kept : Kept care b s.state) (points : p.Points i) (on : i ∈ b.cells) :
    (onHeap (Heap.first p) : WorldTask L α γ (Ref L)) s = .ok (s.state.heap.contents i).1 s :=
  onHeap_ok (kept.stock.sound.first_own (s := ⟨s.state.heap, s.journal⟩) points (kept.stock.fixed on))

theorem Kept.rest_apply (kept : Kept care b s.state) (points : p.Points i) (on : i ∈ b.cells) :
    (onHeap (Heap.rest p) : WorldTask L α γ (Ref L)) s = .ok (s.state.heap.contents i).2 s :=
  onHeap_ok (kept.stock.sound.rest_own (s := ⟨s.state.heap, s.journal⟩) points (kept.stock.fixed on))

section
variable {f : Ref L → WorldTask L α γ δ}

theorem Kept.ends_first (kept : Kept care b s.state) (points : p.Points i) (on : i ∈ b.cells)
    (next : (f (s.state.heap.contents i).1).Ends s after failed) :
    (onHeap (Heap.first p) >>= f).Ends s after failed :=
  Task.ends_bind_ok (kept.first_apply points on) next

theorem Kept.ends_rest (kept : Kept care b s.state) (points : p.Points i) (on : i ∈ b.cells)
    (next : (f (s.state.heap.contents i).2).Ends s after failed) :
    (onHeap (Heap.rest p) >>= f).Ends s after failed :=
  Task.ends_bind_ok (kept.rest_apply points on) next

end

/-- A walk along cells of the books never comes to its limit. -/
theorem Kept.walkLimit_apply (kept : Kept care b s.state) {cells : List Nat} (nodup : cells.Nodup)
    (on : ∀ i ∈ cells, i ∈ b.cells) :
    ∃ limit, onHeap Heap.walkLimit s = .ok limit s ∧ cells.length < limit := by
  obtain ⟨limit, limited, enough⟩ := Heap.walkLimit_apply ⟨s.state.heap, s.journal⟩
  exact ⟨limit, onHeap_ok limited, Nat.lt_of_le_of_lt (kept.stock.length_le nodup on) enough⟩

theorem Kept.holds (kept : Kept care b w) (points : p.Points i) (on : i ∈ b.cells) :
    w.heap.Holds p :=
  Heap.holds_of_points points (kept.stock.fixed on)

/-! ### Taking and giving back -/

/-- The world `u` is `w` with the cell `i`, which holds two references, in hand. -/
structure Taken (care : Care L) (b : Books L) (first rest : Ref L) (w : World L α γ)
    (i : Nat) (u : World L α γ) : Prop where
  kept : Kept care (b.draw i) u
  filed : Heap.Filed w.heap u.heap i (first, rest)
  clearFirst : u.heap.Clear first
  clearRest : u.heap.Clear rest

theorem Kept.draw (kept : Kept care b w) (filed : Heap.Filed w.heap k i c)
    (stock : Stock care (b.draw i).cells b.refs k)
    (pool : w.heap.Leads p b.pool.tail .nil) (most : b.pool = [] ∨ b.pool.tail.length + 1 = b.pool.length) :
    Kept care (b.draw i) (countTaken { w with heap := k, pool := p }) := by
  have same : ∀ j ∈ (b.draw i).filed, k.contents j = w.heap.contents j := fun j on =>
    filed.contents j (kept.stock.inUse (Books.filed_cells (Books.filed_draw on))) fun it =>
      Books.not_filed_of_hand stock.distinct (b := b.draw i) (i := i) (by simp [Books.draw]) (it ▸ on)
  have queued : Queued (b.draw i) { w with pool := p } := { kept.toQueued with pool := pool }
  have moved := queued.withHeap same
  refine { toQueued := { moved with }, stock := stock, used := ?_, most := ?_ }
  · simp only [countTaken, kept.used, Books.taken, Books.draw, List.length_cons]
    omega
  · have := kept.most
    simp only [countTaken, Books.draw]
    rcases most with empty | one
    · simp [empty] at this ⊢
      omega
    · omega

theorem reuse_ends (kept : Kept care b s.state) {pool : List Nat} (shape : b.pool = i :: pool)
    (holdsFirst : s.state.heap.Holds first) (holdsRest : s.state.heap.Holds rest) :
    (reuse s.state.pool first rest).Ends s
      (fun p u => p.Points i ∧ Taken care b first rest s.state i (countTaken u)) failed := by
  have leads := kept.pool
  rw [shape] at leads
  obtain ⟨points, leads⟩ := leads
  have on : i ∈ b.cells := Books.filed_cells (Books.node_filed (Books.pool_node (by simp [shape])))
  have fixed := kept.stock.fixed on
  obtain ⟨m, j, wrote, one, clear⟩ := kept.stock.sound.setFirst_own
    (s := ⟨s.state.heap, s.journal⟩) points fixed holdsFirst
  obtain ⟨k, l, wrote', two, clearRest⟩ := one.sound.setRest_own (s := ⟨m, j⟩) points one.here
    (one.holds holdsRest)
  refine kept.ends_rest points on (Task.ends_alter (ends_onHeap wrote (ends_onHeap wrote'
    (Task.ends_pure ⟨points, ?_⟩))))
  have filed := one.again two
  have same : (m.contents i).1 = first := by rw [one.filled]
  rw [same] at filed
  have perm : (b.draw i).cells.Perm b.cells := List.perm_iff_count.mpr fun j => by
    simp only [Books.cells, Books.own, Books.filed, Books.nodes, Books.entries, Books.draw, shape,
      List.tail_cons, List.count_append, List.count_cons]
    omega
  have stock := (kept.stock.sorted perm kept.stock.kept).wrote filed
    (Books.hand_cells (by simp [Books.draw]))
  exact ⟨kept.draw filed stock (by rw [shape]; exact leads) (Or.inr (by simp [shape])), filed,
    two.clear clear, clearRest⟩

theorem spareCell_ends (kept : Kept care b s.state) (holdsFirst : s.state.heap.Holds first)
    (holdsRest : s.state.heap.Holds rest) (full : ∀ w, w.Full → failed .arenaExhausted w) :
    (spareCell first rest).Ends s
      (fun p u => ∃ i, p.Points i ∧ Taken care b first rest s.state i (countTaken u)) failed := by
  refine Task.ends_view ?_
  have isNil := kept.pool.isNil
  cases shape : b.pool with
  | nil =>
    rw [shape] at isNil
    rw [isNil]
    rcases kept.stock.sound.perm_own (s := ⟨s.state.heap, s.journal⟩) holdsFirst holdsRest with
      ⟨refused, short⟩ | ⟨p, i, k, j, made, points, new, filed, clearFirst, clearRest⟩
    · exact Task.ends_of_error (onHeap_refused refused) (full _ short)
    · refine Task.ends_of_ok (onHeap_ok made) ⟨i, points, ?_, filed, clearFirst, clearRest⟩
      have perm : (b.draw i).cells.Perm (i :: b.cells) := List.perm_iff_count.mpr fun j => by
        simp only [Books.cells, Books.own, Books.filed, Books.nodes, Books.entries, Books.draw, shape,
          List.tail_nil, List.count_append, List.count_cons]
        omega
      have born := kept.stock.born filed new
      have stock := born.sorted perm born.kept
      refine kept.draw filed stock ?_ (Or.inl shape)
      have := kept.pool
      rw [shape] at this ⊢
      exact this
  | cons i pool =>
    rw [shape] at isNil
    rw [isNil]
    exact (reuse_ends kept shape holdsFirst holdsRest).mono (fun p u taken => ⟨i, taken⟩) fun _ _ => id

theorem take_ends (kept : Kept care b s.state) (holdsFirst : s.state.heap.Holds first)
    (holdsRest : s.state.heap.Holds rest) (full : ∀ w, w.Full → failed .arenaExhausted w) :
    (take first rest).Ends s
      (fun p u => ∃ i, p.Points i ∧ Taken care b first rest s.state i u) failed :=
  (spareCell_ends kept holdsFirst holdsRest full).bind fun _ _ taken => Task.ends_alter taken

/-- An entry that was taken keeps its references from now on. -/
theorem Taken.entry (taken : Taken care b first rest w i u) (admitsFirst : care.Admits w.heap first)
    (admitsRest : care.Admits w.heap rest) (stamp : Nat) :
    Kept care { b.draw i with held := ⟨i, stamp, first, rest⟩ :: b.held, hand := b.hand } u := by
  refine taken.kept.sorted (List.perm_iff_count.mpr fun j => ?_) (fun e on => ?_) fun e on v slot => ?_
  · simp only [Books.draw, List.map_cons, List.count_append, List.count_cons]
    omega
  · rcases List.mem_cons.mp on with rfl | on
    · exact taken.filed.filled
    · exact taken.kept.entries e (Books.held_entry on)
  · rcases List.mem_cons.mp on with rfl | on
    · rcases List.mem_pair.mp slot with rfl | rfl
      · exact care.guards_of_clear (care.admits_filed taken.filed admitsFirst) taken.clearFirst
      · exact care.guards_of_clear (care.admits_filed taken.filed admitsRest) taken.clearRest
    · exact taken.kept.entry (Books.held_entry on) v slot

/-! ### Giving back -/

/-- The cell `i` in hand is put into the pool. -/
theorem Kept.recycled (kept : Kept care b w) {hand : List Nat} (inHand : b.hand = i :: hand)
    (points : p.Points i) (filed : Heap.Filed w.heap k i (.nil, w.pool)) :
    Kept care { b with pool := i :: b.pool, hand := hand }
      { w with heap := k, pool := p, poolUsed := w.poolUsed - 1 } := by
  have moved := kept.wrote filed (by simp [inHand])
  have used := kept.used
  have most := kept.most
  simp only [Books.taken, inHand, List.length_cons] at used
  refine { toQueued := { moved.toQueued with pool := ⟨points, ?_⟩ }, stock := ?_, used := ?_, most := ?_ }
  · rw [filed.filled]
    exact moved.pool
  · refine moved.stock.moved (List.perm_iff_count.mpr fun j => ?_) (fun _ => id) fun _ => id
    simp only [Books.cells, Books.own, Books.filed, Books.nodes, Books.entries, inHand, List.count_append,
      List.count_cons]
    omega
  · simp only [Books.taken]
    omega
  · simp only [List.length_cons]
    omega

theorem recycle_apply (sound : s.state.heap.Sound) (points : p.Points i)
    (fixed : s.state.heap.Fixed i) (holdsPool : s.state.heap.Holds s.state.pool)
    (used : 0 < s.state.poolUsed) :
    ∃ k j, recycle p s = .ok ()
      ⟨{ s.state with heap := k, pool := p, poolUsed := s.state.poolUsed - 1 }, j⟩ ∧
        Heap.Filed s.state.heap k i (.nil, s.state.pool) := by
  obtain ⟨m, j, wrote, one, -⟩ := sound.setFirst_own (s := ⟨s.state.heap, s.journal⟩) points fixed
    (Heap.plain_of_target? Ref.target?_nil).holds
  obtain ⟨k, l, wrote', two, -⟩ := one.sound.setRest_own (s := ⟨m, j⟩) points one.here
    (one.holds holdsPool)
  refine ⟨k, l, ?_, ?_⟩
  · rw [recycle]
    refine Task.bind_eq_ok.mpr ⟨(), _, onHeap_ok wrote, Task.bind_eq_ok.mpr ⟨_, _, rfl, ?_⟩⟩
    refine Task.bind_eq_ok.mpr ⟨(), _, onHeap_ok wrote', ?_⟩
    simp [Task.bind_apply, used]
  · have filed := one.again two
    rwa [one.filled] at filed

theorem Kept.holdsPool (kept : Kept care b w) : w.heap.Holds w.pool :=
  kept.pool.holds fun _ on => kept.stock.fixed (Books.filed_cells (Books.node_filed (Books.pool_node on)))

theorem recycle_ends (kept : Kept care b s.state) {hand : List Nat} (inHand : b.hand = i :: hand)
    (points : p.Points i) :
    (recycle p).Ends s
      (fun _ u => Kept care { b with pool := i :: b.pool, hand := hand } u) failed := by
  have on := Books.hand_cells (b := b) (i := i) (by simp [inHand])
  have used := kept.used
  simp only [Books.taken, inHand, List.length_cons] at used
  obtain ⟨k, j, done, filed⟩ := recycle_apply kept.stock.sound points (kept.stock.fixed on)
    kept.holdsPool (by omega)
  exact Task.ends_of_ok done (kept.recycled inHand points filed)

end Treadmill.World

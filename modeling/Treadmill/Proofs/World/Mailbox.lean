import Mathlib
import Treadmill.Proofs.World.Pool
import Treadmill.World.Mailbox

/-!
The mailbox. Each of its operations moves cells from one place in the books to another.
-/

namespace Treadmill.World
open Heap (Filed)
variable {L : Layout} {α γ : Type} {s : Logged (World L α γ)} {w : World L α γ} {b : Books L}
  {care : Care L} {n i : Nat} {e : Entry L} {entry node first last target message : Ref L}
  {h k : Heap L} {failed : Fault → World L α γ → Prop} {hand : List Nat}
  {held : List (Entry L)}

theorem mailed_single (points : node.Points n) (names : entry.Points e.cell)
    (filled : h.contents n = (entry, .nil)) : Mailed h node node [⟨n, e⟩] where
  chain := ⟨points, by rw [filled]; rfl⟩
  letters l on := by
    obtain rfl := List.mem_singleton.mp on
    rw [filled]
    exact names
  last := Or.inr ⟨[], _, rfl, points⟩

/-- A letter is linked behind the last one. -/
theorem Mailed.snoc {rest : List (Letter L)} {l : Letter L} (mailed : Mailed h first last (rest ++ [l]))
    (same : ∀ x ∈ rest, k.contents x.node = h.contents x.node)
    (linked : k.contents l.node = ((h.contents l.node).1, node)) (points : node.Points n)
    (names : entry.Points e.cell) (filled : k.contents n = (entry, .nil)) :
    Mailed k first node (rest ++ [l] ++ [⟨n, e⟩]) where
  chain := by
    have chain := mailed.chain
    rw [List.map_append, List.map_singleton, Heap.leads_concat] at chain
    obtain ⟨q, leads, points', -⟩ := chain
    simp only [List.map_append, List.map_cons, List.map_nil]
    refine Heap.leads_concat.mpr ⟨node, Heap.leads_concat.mpr ⟨q, leads.congr ?_, points', ?_⟩, points, ?_⟩
    · intro i on
      obtain ⟨x, member, rfl⟩ := List.mem_map.mp on
      exact same x member
    · rw [linked]
    · rw [filled]
  letters x on := by
    rw [List.mem_append, List.mem_append, List.mem_singleton, List.mem_singleton] at on
    rcases on with (on | rfl) | rfl
    · rw [same x on]
      exact mailed.letters x (by simp [on])
    · rw [linked]
      exact mailed.letters x (by simp)
    · rw [filled]
      exact names
  last := Or.inr ⟨_, _, rfl, points⟩

/-- Work on nodes of the queues leaves the roots and the entries as they are. -/
theorem Kept.beside_nodes {row : List Nat} (kept : Kept care b w) (node : ∀ i ∈ row, i ∈ b.nodes)
    (same : ∀ i ∈ b.filed, i ∉ row → k.contents i = w.heap.contents i) :
    (∀ x ∈ b.roots, k.contents x.cell = w.heap.contents x.cell) ∧
      ∀ e ∈ b.entries, k.contents e.cell = w.heap.contents e.cell := by
  refine ⟨fun x on => same _ (Books.root_filed on) fun other => ?_,
    fun e on => same _ (Books.entry_filed on) fun other => ?_⟩
  · exact (Books.not_kept_of_node kept.stock.distinct (node _ other)).1 (List.mem_map_of_mem on)
  · exact (Books.not_kept_of_node kept.stock.distinct (node _ other)).2 (List.mem_map_of_mem on)

/-- The entry `e` and the node `n` that holds it become the last letter. -/
theorem Kept.posted (kept : Kept care b w) (inHand : b.hand = n :: hand) (isHeld : b.held = e :: held)
    (stock : Stock care b.cells b.refs k)
    (same : ∀ i ∈ b.filed, i ∉ b.mail.map Letter.node → k.contents i = w.heap.contents i)
    (mailed : Mailed k first node (b.mail ++ [⟨n, e⟩])) :
    Kept care { b.post n e held with hand := hand }
      { w with heap := k, mailFirst := first, mailLast := node, pending := w.pending + 1 } := by
  have apart := fun i (on : i ∈ b.mail.map Letter.node) =>
    Books.mail_apart kept.stock.distinct on
  have node : ∀ i ∈ b.mail.map Letter.node, i ∈ b.nodes := fun i on => by simp [Books.nodes, on]
  obtain ⟨roots, entries⟩ := kept.beside_nodes node same
  have subset : ∀ x ∈ (b.post n e held).entries, x ∈ b.entries := fun x on => by
    simp only [Books.entries, Books.post, isHeld, List.map_append, List.map_cons, List.map_nil,
      List.mem_append, List.mem_cons, List.not_mem_nil, or_false] at on ⊢
    tauto
  refine
    { mail := mailed
      timers := kept.timers.congr ?_ ?_ ?_
      pool := kept.pool.congr ?_
      roots := kept.roots.congr fun i on => by
        obtain ⟨x, member, rfl⟩ := List.mem_map.mp on
        exact roots x member
      values := fun x on => by rw [roots x on, kept.values x on]
      entries := fun x on => by rw [entries x (subset x on), kept.entries x (subset x on)]
      pending := ?_
      delayed := kept.delayed
      current := kept.current
      clock := kept.clock
      stock := ?_
      used := ?_
      most := kept.most }
  · exact fun a on => same _ (Books.node_filed (Books.alarm_node on).1) fun other =>
      (apart _ other).1 (List.mem_map_of_mem on)
  · exact fun a on => same _ (Books.node_filed (Books.alarm_node on).2) fun other =>
      (apart _ other).2.1 (List.mem_map_of_mem on)
  · exact fun a on => same _ (Books.node_filed (Books.alarm_time on)) fun other =>
      (apart _ other).2.2.1 (List.mem_map_of_mem on)
  · exact fun i on => same _ (Books.node_filed (Books.pool_node on)) fun other =>
      (apart _ other).2.2.2 on
  · simp [kept.pending, Books.post]
  · refine stock.moved (List.perm_iff_count.mpr fun i => ?_) (fun _ => id) subset
    simp only [Books.cells, Books.own, Books.filed, Books.nodes, Books.entries, Books.post, inHand, isHeld,
      List.map_append, List.map_cons, List.map_nil, List.count_append, List.count_cons, List.count_nil]
    omega
  · rw [show w.poolUsed = _ from kept.used]
    simp only [Books.taken, Books.post, inHand, isHeld, List.length_append, List.length_cons, List.length_nil]
    omega

theorem enqueue_ends (kept : Kept care b s.state) (isHeld : b.held = e :: held)
    (names : entry.Points e.cell) (full : ∀ w, w.Full → failed .arenaExhausted w) :
    (enqueue entry).Ends s
      (fun _ u => ∃ n, Kept care ({ b with pool := b.pool.tail }.post n e held) u) failed := by
  refine (take_ends kept (kept.holds names (Books.head_cells isHeld))
    (care.holds (care.blank Ref.target?_nil)) full).bind ?_
  rintro node u ⟨n, points, taken⟩
  have kept' := taken.kept
  have filled := taken.filed.filled
  have isNil : u.state.mailFirst.isNil = (b.mail.map Letter.node).isEmpty := kept'.mail.chain.isNil
  have distinct := kept'.stock.distinct
  rcases kept'.mail.last with ⟨empty, -⟩ | ⟨rest, l, shape, points'⟩
  · have empty : b.mail = [] := empty
    have linked : linkMail node u = .ok () ⟨{ u.state with mailFirst := node }, u.journal⟩ := by
      simp [linkMail, Task.bind_apply, isNil, empty]
    refine Task.ends_bind_ok linked (Task.ends_of_ok (Task.alter_apply _ _) ⟨n, ?_⟩)
    refine kept'.posted (rfl : (b.draw n).hand = n :: b.hand) isHeld kept'.stock (fun _ _ _ => rfl) ?_
    change Mailed _ _ _ (b.mail ++ _)
    rw [empty]
    exact mailed_single points names filled
  · have shape : b.mail = rest ++ [l] := shape
    have lastNode : l.node ∈ (b.draw n).mail.map Letter.node := by simp [Books.draw, shape]
    have onNode : l.node ∈ (b.draw n).nodes := by simp [Books.nodes, lastNode]
    have onLast := Books.filed_cells (Books.node_filed onNode)
    obtain ⟨k, j, wrote, filed, -⟩ := kept'.stock.sound.setRest_own
      (s := ⟨u.state.heap, u.journal⟩) points' (kept'.stock.fixed onLast)
      (kept'.holds points (Books.hand_cells (b := b.draw n) (by simp [Books.draw])))
    have linked : linkMail node u = .ok () ⟨{ u.state with heap := k }, j⟩ := by
      have filledBox : u.state.mailFirst.isNil = false := by simp [isNil, shape]
      simp only [linkMail, Task.bind_apply, Task.view_apply, filledBox]
      exact onHeap_ok wrote
    have others : ∀ i ∈ (b.draw n).cells, i ≠ l.node → k.contents i = u.state.heap.contents i :=
      fun i on => filed.contents i (kept'.stock.inUse on)
    refine Task.ends_bind_ok linked (Task.ends_of_ok (Task.alter_apply _ _) ⟨n, ?_⟩)
    refine kept'.posted (rfl : (b.draw n).hand = n :: b.hand) isHeld (kept'.stock.wrote filed onLast)
      (fun i on other => others i (Books.filed_cells on) fun same => other (same ▸ lastNode)) ?_
    have mailed : Mailed u.state.heap u.state.mailFirst u.state.mailLast b.mail := kept'.mail
    change Mailed _ _ _ (b.mail ++ _)
    rw [shape] at mailed ⊢
    refine mailed.snoc (fun x on => ?_) filed.filled points names ?_
    · have inBox : x.node ∈ (b.draw n).mail.map Letter.node := by
        simp only [Books.draw, shape, List.map_append, List.mem_append]
        exact Or.inl (List.mem_map_of_mem on)
      exact others x.node (Books.filed_cells (Books.node_filed (by simp [Books.nodes, inBox])))
        (Books.last_apart distinct shape on)
    · have inHand : n ∈ (b.draw n).hand := by simp [Books.draw]
      rw [others n (Books.hand_cells inHand) ?_, filled]
      exact fun same => Books.not_filed_of_hand distinct inHand (same ▸ Books.node_filed onNode)

/-- A message that is sent becomes the last letter, unless its target is no actor. -/
theorem send_ends (kept : Kept care b s.state) (admitsTarget : care.Admits s.state.heap target)
    (admitsMessage : care.Admits s.state.heap message) (stamp : Nat)
    (full : ∀ w, w.Full → failed .arenaExhausted w)
    (refused : target.isActor = false → failed (.misuse .send target.value) s.state) :
    (send target message).Ends s
      (fun _ u => target.isActor = true ∧ ∃ l pool, l.entry.note = ⟨stamp, target, message⟩ ∧
        Kept care { b with mail := b.mail ++ [l], pool } u) failed := by
  refine Task.ends_require (fun isActor => ?_) refused
  refine (take_ends kept (care.holds admitsTarget) (care.holds admitsMessage) full).bind ?_
  rintro entry u ⟨e, points, taken⟩
  have held := taken.entry admitsTarget admitsMessage stamp
  refine (enqueue_ends held rfl points full).mono ?_ fun _ _ => id
  exact fun _ u ⟨n, posted⟩ => ⟨isActor, ⟨n, _⟩, _, rfl, posted⟩

/-! ### Taking out -/

theorem Mailed.tail {l : Letter L} {mail : List (Letter L)} (mailed : Mailed h first last (l :: mail)) :
    Mailed h (h.contents l.node).2 (if (h.contents l.node).2.isNil then .nil else last) mail where
  chain := mailed.chain.2
  letters x on := mailed.letters x (by simp [on])
  last := by
    have isNil := mailed.chain.2.isNil
    rw [isNil]
    rcases mailed.last with ⟨none, -⟩ | ⟨rest, z, shape, points⟩
    · cases none
    · cases rest with
      | nil =>
        obtain ⟨rfl, rfl⟩ : l = z ∧ mail = [] := by simpa using shape
        exact Or.inl ⟨rfl, rfl⟩
      | cons y rest =>
        obtain ⟨rfl, rfl⟩ : l = y ∧ mail = rest ++ [z] := by simpa using shape
        exact Or.inr ⟨rest, z, rfl, by simpa using points⟩

/-- The first letter is taken out: its entry is held from now on, and its node is in hand. -/
theorem Kept.opened {l : Letter L} {mail : List (Letter L)} (kept : Kept care b w)
    (shape : b.mail = l :: mail) :
    Kept care { b with mail, held := l.entry :: b.held, hand := l.node :: b.hand }
      { w with
        mailFirst := (w.heap.contents l.node).2
        mailLast := if (w.heap.contents l.node).2.isNil then .nil else w.mailLast
        pending := w.pending - 1 } := by
  have mailed := kept.mail
  rw [shape] at mailed
  have subset : ∀ x ∈ ({ b with mail, held := l.entry :: b.held } : Books L).entries,
      x ∈ b.entries := fun x on => by
    simp only [Books.entries, shape, List.map_cons, List.mem_append, List.mem_cons] at on ⊢
    tauto
  refine { toQueued := { kept.toQueued with
             mail := mailed.tail
             pending := ?_
             entries := fun x on => kept.entries x (subset x on) },
           stock := ?_, used := ?_, most := kept.most }
  · simp [kept.pending, shape]
  · refine kept.stock.moved (List.perm_iff_count.mpr fun i => ?_) (fun _ => id) subset
    simp only [Books.cells, Books.own, Books.filed, Books.nodes, Books.entries, shape, List.map_append,
      List.map_cons, List.count_append, List.count_cons]
    omega
  · rw [show w.poolUsed = _ from kept.used]
    simp only [Books.taken, shape, List.length_cons]
    omega

/-- The first letter of the mailbox is taken out. -/
theorem dequeue_ends {l : Letter L} {mail : List (Letter L)} (kept : Kept care b s.state)
    (shape : b.mail = l :: mail) :
    dequeue.Ends s
      (fun entry u => entry.Points l.entry.cell ∧
        (∀ v, care.Admits s.state.heap v → care.Admits u.heap v) ∧
        Kept care { b with mail, pool := l.node :: b.pool, held := l.entry :: b.held } u) failed := by
  have chain := kept.mail.chain
  rw [shape] at chain
  have points : s.state.mailFirst.Points l.node := chain.1
  have on : l ∈ b.mail := by simp [shape]
  have own := Books.filed_cells (Books.node_filed (Books.letter_node on))
  have opened := kept.opened shape
  have used : s.state.poolUsed = _ := opened.used
  simp only [Books.taken, List.length_cons] at used
  refine Task.ends_view (kept.ends_first points own (kept.ends_rest points own (Task.ends_alter ?_)))
  obtain ⟨k, j, done, filed⟩ := recycle_apply (s := ⟨{ s.state with
        mailFirst := (s.state.heap.contents l.node).2
        mailLast := if (s.state.heap.contents l.node).2.isNil then .nil else s.state.mailLast },
      s.journal⟩) kept.stock.sound points (kept.stock.fixed own) kept.holdsPool (by dsimp only; omega)
  refine Task.ends_bind_ok done (Task.ends_view (Task.ends_require (fun _ => Task.ends_alter
    (Task.ends_pure ⟨kept.mail.letters l on, fun v => care.admits_filed filed,
      opened.recycled rfl points filed⟩)) fun none => ?_))
  have pending := kept.pending
  simp only [shape, List.length_cons, decide_eq_false_iff_not] at none pending
  omega

end Treadmill.World

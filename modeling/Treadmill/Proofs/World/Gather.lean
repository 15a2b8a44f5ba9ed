import Mathlib
import Treadmill.Proofs.World.Timers
import Treadmill.World.Roots

/-!
Gathering roots reads queue cells alone, so it changes nothing and answers with just what the books
have on record.
-/

namespace Treadmill.World
open Heap (Filed)
variable {L : Layout} {α γ β : Type} {s : Logged (World L α γ)} {w : World L α γ} {b : Books L}
  {care : Care L} {i : Nat} {e : Entry L} {entry node p r : Ref L} {k : Heap L}
  {failed : Fault → World L α γ → Prop}

/-! ### Registering -/

/-- A new permanent cell becomes the first root. -/
theorem Kept.rooted (kept : Kept care b w) (points : p.Points i) (new : ¬w.heap.InUse i)
    (filed : Filed w.heap k i (r, w.roots)) (guards : care.Guards k r) :
    Kept care { b with roots := ⟨i, r⟩ :: b.roots } { w with heap := k, roots := p } := by
  have same : ∀ j ∈ b.filed, k.contents j = w.heap.contents j := fun j on =>
    filed.contents j (kept.stock.inUse (Books.filed_cells on)) fun it =>
      new (it ▸ kept.stock.inUse (Books.filed_cells on))
  have moved := kept.toQueued.withHeap same
  have stock := kept.stock.born filed new
  refine
    { toQueued := { moved with
        roots := ⟨points, by rw [filed.filled]; exact moved.roots⟩
        values := fun x on => ?_ }
      stock := stock.sorted (List.perm_iff_count.mpr fun j => ?_) fun v on => ?_
      used := kept.used
      most := kept.most }
  · rcases List.mem_cons.mp on with rfl | on
    · exact congrArg Prod.fst filed.filled
    · exact moved.values x on
  · simp only [Books.cells, Books.own, Books.filed, Books.nodes, Books.entries, List.map_cons,
      List.count_append, List.count_cons]
    omega
  · rcases Books.mem_refs.mp on with ⟨x, root, rfl⟩ | entry
    · rcases List.mem_cons.mp root with rfl | root
      · exact guards
      · exact stock.kept _ (Books.mem_refs.mpr (Or.inl ⟨x, root, rfl⟩))
    · exact stock.kept _ (Books.mem_refs.mpr (Or.inr entry))

theorem addRoot_ends (kept : Kept care b s.state) (admits : care.Admits s.state.heap r)
    (full : s.state.Full → failed .arenaExhausted s.state) :
    (addRoot r).Ends s
      (fun _ u => ∃ i, Kept care { b with roots := ⟨i, r⟩ :: b.roots } u) failed := by
  have holdsRoots : s.state.heap.Holds s.state.roots := kept.roots.holds fun i on => by
    obtain ⟨x, member, rfl⟩ := List.mem_map.mp on
    exact kept.stock.fixed (Books.filed_cells (Books.root_filed member))
  refine Task.ends_view ?_
  rcases kept.stock.sound.perm_own (s := ⟨s.state.heap, s.journal⟩) (care.holds admits) holdsRoots with
    ⟨refused, short⟩ | ⟨p, i, k, j, made, points, new, filed, clear, -⟩
  · exact ends_refused refused (full short)
  · refine ends_onHeap made (Task.ends_of_ok (Task.alter_apply _ _) ⟨i, ?_⟩)
    exact kept.rooted points new filed (care.guards_of_clear (care.admits_filed filed admits) clear)

/-! ### Walking along a queue -/

section
variable {δ : Type} {items : List δ} {cell : δ → Nat} {item : Ref L → WorldTask L α γ β} {f : δ → β}

theorem queueFrom_apply (kept : Kept care b s.state)
    (read : ∀ x ∈ items, ∀ r : Ref L, r.Points (cell x) → item r s = .ok (f x) s)
    (own : ∀ x ∈ items, cell x ∈ b.cells) (leads : s.state.heap.Leads node (items.map cell) .nil)
    {limit : Nat} (enough : items.length < limit) (seen : List β) :
    queueFrom item limit node seen s = .ok (seen.reverse ++ items.map f) s := by
  induction limit generalizing items node seen with
  | zero => cases enough
  | succ limit ih =>
    have isNil := leads.isNil
    cases items with
    | nil => simp [queueFrom, isNil]
    | cons x items =>
      rw [queueFrom, isNil]
      refine Task.bind_eq_ok.mpr ⟨_, _, read x (by simp) node leads.1, ?_⟩
      refine Task.bind_eq_ok.mpr ⟨_, _, kept.rest_apply leads.1 (own x (by simp)), ?_⟩
      rw [ih (fun y on => read y (by simp [on])) (fun y on => own y (by simp [on])) leads.2
        (by simpa using enough)]
      simp

theorem queue_apply (kept : Kept care b s.state)
    (read : ∀ x ∈ items, ∀ r : Ref L, r.Points (cell x) → item r s = .ok (f x) s)
    (own : ∀ x ∈ items, cell x ∈ b.cells) (nodup : (items.map cell).Nodup)
    (leads : s.state.heap.Leads node (items.map cell) .nil) :
    queue item node s = .ok (items.map f) s := by
  obtain ⟨limit, limited, enough⟩ := kept.walkLimit_apply nodup fun i on => by
    obtain ⟨x, member, rfl⟩ := List.mem_map.mp on
    exact own x member
  rw [List.length_map] at enough
  exact Task.bind_eq_ok.mpr ⟨_, _, limited, queueFrom_apply kept read own leads enough []⟩

end

theorem entryRefs_apply (kept : Kept care b s.state) (on : e ∈ b.entries)
    (points : entry.Points e.cell) : entryRefs entry s = .ok e.refs s := by
  have filled := kept.entries e on
  have own := Books.filed_cells (Books.entry_filed on)
  refine Task.bind_eq_ok.mpr ⟨_, _, kept.first_apply points own, ?_⟩
  refine Task.bind_eq_ok.mpr ⟨_, _, kept.rest_apply points own, ?_⟩
  rw [filled]
  rfl

/-! ### All roots -/

/-- `current` refers to the entry under delivery, if there is one. -/
def Delivers (current : Ref L) (under : List (Entry L)) : Prop :=
  current = .nil ∧ under = [] ∨ ∃ e, current.Points e.cell ∧ under = [e]

theorem deliveringRefs_apply {under : List (Entry L)} (kept : Kept care b s.state)
    (delivers : Delivers b.current under) (on : ∀ e ∈ under, e ∈ b.held) :
    deliveringRefs s = .ok (under.flatMap Entry.refs) s := by
  refine Task.bind_eq_ok.mpr ⟨_, _, Task.view_apply _ _, ?_⟩
  rw [kept.current]
  rcases delivers with ⟨none, rfl⟩ | ⟨e, points, rfl⟩
  · simp [none]
  · rw [points.isNil]
    simpa using entryRefs_apply kept (Books.held_entry (on e (by simp))) points

/-- The roots of a world whose books are in order can be gathered. -/
theorem gatherRoots_apply {under : List (Entry L)} (kept : Kept care b s.state)
    (delivers : Delivers b.current under) (on : ∀ e ∈ under, e ∈ b.held) :
    gatherRoots s = .ok (Books.refs { b with held := under }) s := by
  obtain ⟨rootsNodup, mailNodup, timersNodup⟩ := Books.queues_nodup kept.stock.distinct
  have registered : queue (fun node => onHeap (Heap.first node)) s.state.roots s =
      .ok (b.roots.map Root.value) s := by
    have own := fun x (on : x ∈ b.roots) => Books.filed_cells (Books.root_filed on)
    refine queue_apply kept (fun x on r points => ?_) own rootsNodup kept.roots
    rw [kept.first_apply points (own x on), kept.values x on]
  have mail : queue (fun node => do entryRefs (← Heap.first node)) s.state.mailFirst s =
      .ok (b.mail.map fun l => l.entry.refs) s := by
    have node := fun l (on : l ∈ b.mail) => Books.filed_cells (Books.node_filed (Books.letter_node on))
    refine queue_apply kept (fun l on r points => ?_) node mailNodup kept.mail.chain
    exact Task.bind_eq_ok.mpr ⟨_, _, kept.first_apply points (node l on),
      entryRefs_apply kept (Books.letter_entry on) (kept.mail.letters l on)⟩
  have timed : queue (fun node => do entryRefs (← Heap.rest (← Heap.first node))) s.state.timers s =
      .ok (b.timers.map fun a => a.entry.refs) s := by
    have node := fun a (on : a ∈ b.timers) => Books.filed_cells (Books.alarm_filed on)
    refine queue_apply kept (fun a on r points => ?_) node timersNodup kept.timers.chain
    have wired := kept.timers.alarms a on
    refine Task.bind_eq_ok.mpr ⟨_, _, kept.first_apply points (node a on), ?_⟩
    refine Task.bind_eq_ok.mpr ⟨_, _, kept.rest_apply wired.timer
      (Books.filed_cells (Books.node_filed (Books.alarm_node on).2)), ?_⟩
    exact entryRefs_apply kept (Books.alarm_entry on) wired.entry
  refine Task.bind_eq_ok.mpr ⟨_, _, Task.view_apply _ _, Task.bind_eq_ok.mpr ⟨_, _, registered, ?_⟩⟩
  refine Task.bind_eq_ok.mpr ⟨_, _, Task.view_apply _ _, Task.bind_eq_ok.mpr ⟨_, _, mail, ?_⟩⟩
  have pending : decide ((b.mail.map fun l => l.entry.refs).length = s.state.pending) = true := by
    simp [kept.pending]
  refine Task.bind_eq_ok.mpr ⟨_, _, Task.view_apply _ _, ?_⟩
  rw [pending]
  refine Task.bind_eq_ok.mpr ⟨_, _, rfl, ?_⟩
  refine Task.bind_eq_ok.mpr ⟨_, _, Task.view_apply _ _, Task.bind_eq_ok.mpr ⟨_, _, timed, ?_⟩⟩
  have delayed : decide ((b.timers.map fun a => a.entry.refs).length = s.state.delayed) = true := by
    simp [kept.delayed]
  refine Task.bind_eq_ok.mpr ⟨_, _, Task.view_apply _ _, ?_⟩
  rw [delayed]
  refine Task.bind_eq_ok.mpr ⟨_, _, rfl, ?_⟩
  refine Task.bind_eq_ok.mpr ⟨_, _, deliveringRefs_apply kept delivers on, ?_⟩
  simp [Books.refs, Books.entries, List.flatMap_def, Function.comp_def]

end Treadmill.World

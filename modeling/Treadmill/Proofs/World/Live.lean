import Mathlib
import Treadmill.Proofs.Heap.Hold
import Treadmill.Proofs.Heap.Safety
import Treadmill.Proofs.World.Settled

/-!
Collections keep what a world needs (`Course.sustains`). Its user works on ordinary cells and leaves it to
the world to begin a collection (`Modest`). Then the references in its queues are never candidates.
-/

namespace Treadmill.World
variable {L : Layout} {α γ : Type} {stored : Nat → Ref L × Ref L}

/-- Asks of a reference that the collector may reclaim its cell, and keeps it from doing so. -/
def careful (stored : Nat → Ref L × Ref L) : Care L where
  Admits := Heap.Plain
  Guards := Heap.Safe
  Stands := Heap.Holding stored
  holds := Heap.Plain.holds
  blank := Heap.plain_of_target?
  guards_of_clear plain clear := ⟨plain, clear⟩
  admits_filed := Heap.Filed.plain
  guards_filed filed safe := ⟨filed.plain safe.1, filed.clear safe.2⟩
  stands_filed filed holding i on := by
    obtain ⟨slots, same⟩ := holding i ((filed.collectable i).mp on)
    have old := filed.contents_collectable ((filed.collectable i).mp on)
    refine ⟨fun v slot => filed.plain (slots v ?_), old.trans same⟩
    rwa [Heap.slots_eq, old, ← Heap.slots_eq] at slot
  guards_read effect safe := safe.acted effect
  stands_read effect admits holding := holding.acted effect (by simpa [Act.operands] using admits)

/-- What the cells hold once a move has been made. -/
def Moved.store : Moved L α γ → (Nat → Ref L × Ref L) → Nat → Ref L × Ref L
  | ⟨.call (.heap op), o⟩, stored => Deed.store ⟨op, o⟩ stored
  | _, stored => stored

/-- What was last stored in each cell. -/
def lastStored (trace : List (Moved L α γ)) : Nat → Ref L × Ref L :=
  trace.foldl (fun stored d => d.store stored) fun _ => (.nil, .nil)

@[simp] theorem lastStored_concat (trace : List (Moved L α γ)) (d : Moved L α γ) :
    lastStored (trace ++ [d]) = d.store (lastStored trace) := by
  simp [lastStored]

/-- The references that a move is given. -/
def Move.given : Move L α γ → List (Ref L)
  | call c => c.operands
  | opens | closes | drops => []

/-- Whether a move makes no permanent cells and leaves it to the world to begin a collection. What
gathers the roots first may go on to collect with them, between deliveries. -/
def Move.LeavesCollecting (p : Point L α γ) : Move L α γ → Prop
  | call (.heap (.act a)) => a.lasting = false
  | call (.heap .age) => False
  | call (.heap (.beginCollect roots)) | call (.heap (.fullCollect roots)) =>
    p.opened = none ∧ ∃ gathered, gatherRoots p.logged = .ok gathered p.logged ∧
      ∀ v ∈ gathered, v ∈ roots
  | call (.heap .traceStep) | call (.heap .sweep) | call _ | opens | closes | drops => True

/-- Every reference that a move is given names no cell or one that is in use and not permanent. -/
structure Modest (_trace : List (Moved L α γ)) (p : Point L α γ) (m : Move L α γ) : Prop where
  plain : ∀ v ∈ m.given, p.world.heap.Plain v
  leaves : m.LeavesCollecting p

theorem Op.mem_writes {op : Op L} {i : Nat} (writes : op.writes = some i) :
    ∃ v ∈ op.operands, v.target? = some i := by
  cases op with
  | act a =>
    obtain ⟨v, same, target⟩ := Option.bind_eq_some_iff.mp writes
    exact ⟨v, Act.mem_writes same, target⟩
  | age | beginCollect | traceStep | sweep | fullCollect => cases writes

section
variable [DecidableEq α] {b : Books L} {r : Record L} {p : Point L α γ} {m : Move L α γ}
  {trace : List (Moved L α γ)} {now : Moment} {capacity : Nat} {traced : Bool} {guest : γ}
  {journal : Journal} {op : Op L}

theorem lastStored_heap (trace : List (Moved L α γ)) (p : Point L α γ) (op : Op L) :
    lastStored (trace ++ [p.moved (.call (.heap op))]) = Deed.store
      ⟨op, outcomeOf (op.task ⟨p.world.heap, p.logged.journal⟩)⟩ (lastStored trace) := by
  have outcome : (p.moved (.call (.heap op))).outcome =
      outcomeOf (op.task ⟨p.world.heap, p.logged.journal⟩) := outcome_onHeap op.task p.logged
  rw [lastStored_concat, ← outcome]
  rfl

theorem lastStored_other (noHeap : ∀ op, m ≠ .call (.heap op)) :
    lastStored (trace ++ [p.moved m]) = lastStored trace := by
  rw [lastStored_concat]
  cases m with
  | call c =>
    cases c with
    | heap op => exact absurd rfl (noHeap op)
    | function | send | sendAfter | aside | addRoot | gatherRoots | tick => rfl
  | opens | closes | drops => rfl

omit [DecidableEq α] in
theorem Settled.spares {care : Care L} (settled : Settled care r b p.world p.opened)
    (leaves : Move.LeavesCollecting p (.call (.heap op))) : op.Spares b.refs := by
  obtain ⟨_, gathered, -, -, all⟩ := settled.gathered (s := p.logged)
  cases op with
  | act a => exact leaves
  | age => exact leaves
  | traceStep | sweep => trivial
  | beginCollect given | fullCollect given =>
    obtain ⟨idle, found, same, on⟩ := leaves
    rw [gathered, EStateM.Result.ok.injEq] at same
    intro v listed
    exact on v (same.1 ▸ all idle ▸ listed)

theorem Settled.modest
    (settled : Settled (careful (lastStored trace)) r b p.world p.opened) (fits : m.Fits p)
    (modest : Modest trace p m) :
    Settles (careful (lastStored (trace ++ [p.moved m]))) r p.world (p.after m).opened m
      (p.moved m).outcome (p.after m).world := by
  refine settled.next fits (fun op isHeap => ?_) (fun noHeap => ?_) (fun c isCall => ?_) fun isOpens l on => ?_
  · subst isHeap
    have plain : ∀ v ∈ op.operands, p.world.heap.Plain v := modest.plain
    have sound := settled.kept.stock.sound
    have step := op.step (s := ⟨p.world.heap, p.logged.journal⟩) sound fun v on => (plain v on).holds
    refine settled.heap op (fun v on => (plain v on).holds) (fun i own writes => ?_) ?_ ?_
    · obtain ⟨v, on, target⟩ := Op.mem_writes writes
      exact Heap.not_fixed_of_collectable (plain v on i target)
        (settled.kept.stock.fixed (Books.own_cells own))
    · rw [world_heap]
      exact sound.still_safe (s := ⟨p.world.heap, p.logged.journal⟩) plain (settled.spares modest.leaves)
        settled.kept.stock.kept
    · rw [world_heap, lastStored_heap]
      exact settled.kept.stock.stands.step step plain
  · rw [lastStored_other noHeap]
  · subst isCall
    exact modest.plain
  · have entry := settled.kept.entry (Books.letter_entry (List.mem_of_mem_head? on))
    exact (entry _ (by simp [Entry.refs])).1

theorem Course.careful
    (course : Course Modest (Point.new capacity traced now guest journal) trace p) :
    ∃ b, Settled (careful (lastStored trace)) (Record.of now trace) b p.world p.opened := by
  induction course with
  | start =>
    refine ⟨_, settled_empty (fun i on => ?_) capacity now guest⟩
    exact absurd on (Heap.not_collectable_empty traced i)
  | move course m fits allowed enough ih =>
    obtain ⟨b, settled⟩ := ih
    rw [Record.of_concat]
    exact ((settled.modest fits allowed).enough enough).2

/-- Everything in reach of what the world has to keep is in use and holds what was last stored in it,
whatever the state of a collection, and what the world itself refers to is no candidate. It refers to
what is on record, and to target and message of the entry under delivery. -/
theorem Course.sustains
    (course : Course Modest (Point.new capacity traced now guest journal) trace p) :
    ∃ delivering, (∀ d, p.opened = some d → delivering = [d.delivery.this, d.delivery.what]) ∧
      gatherRoots p.logged = .ok ((Record.of now trace).refs ++ delivering) p.logged ∧
      (∀ v ∈ (Record.of now trace).refs ++ delivering, p.world.heap.Clear v) ∧
      ∀ i, p.world.heap.Reach (Named ((Record.of now trace).refs ++ delivering)) i →
        p.world.heap.Collectable i ∧ p.world.heap.contents i = lastStored trace i := by
  obtain ⟨b, settled⟩ := course.careful
  obtain ⟨delivering, gathered, told, listed, -⟩ := settled.gathered (s := p.logged)
  have safe : ∀ v ∈ (Record.of now trace).refs ++ delivering, p.world.heap.Safe v := fun v on =>
    settled.kept.stock.kept v (listed v on)
  have holding := settled.kept.stock.stands
  refine ⟨delivering, told, gathered, fun v on => (safe v on).2, fun i reach => ?_⟩
  have collectable : p.world.heap.Collectable i := by
    induction reach with
    | source named =>
      obtain ⟨v, on, target⟩ := named
      exact (safe v on).1 _ target
    | step _ _ slot target ih => exact (holding _ ih).1 _ slot _ target
  exact ⟨collectable, (holding i collectable).2⟩

end

end Treadmill.World

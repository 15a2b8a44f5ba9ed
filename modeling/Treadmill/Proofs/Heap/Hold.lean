import Mathlib
import Treadmill.Proofs.Heap.Chain
import Treadmill.Proofs.Heap.Run

/-!
What the cells that a collector may reclaim hold as long as their user keeps to them: they refer to
one another alone and hold what was last stored in them (`Holding.step`), and a collection loses
nothing that it was told to keep (`Sound.still_safe`).
-/

namespace Treadmill

/-! ### What is stored -/

/-- What the cells hold once an operation has been carried out. -/
def Act.store {L : Layout} (a : Act L) (answer : Option (Ref L)) (stored : Nat → Ref L × Ref L)
    (i : Nat) : Ref L × Ref L :=
  match a.birth, answer with
  | some (_, c), some r => if r.target? = some i then c else stored i
  | _, _ => a.write i (stored i)

section
variable {L : Layout} {a : Act L} {i : Nat} {c : Ref L × Ref L} {v : Ref L} {h k : Heap L}
  {answer : Option (Ref L)} {stored : Nat → Ref L × Ref L}

theorem Act.mem_write (slot : v ∈ [(a.write i c).1, (a.write i c).2]) :
    v ∈ [c.1, c.2] ∨ v ∈ a.operands := by
  cases a <;> simp only [Act.write, Act.operands, List.mem_cons, List.not_mem_nil, or_false] at slot ⊢
  case setFirst | setRest | setActor => split at slot <;> tauto
  all_goals exact Or.inl slot

theorem Act.mem_birth {kind : Kind} (birth : a.birth = some (kind, c)) :
    c.1 ∈ a.operands ∧ c.2 ∈ a.operands := by
  cases a <;> simp only [Act.birth, reduceCtorEq, Option.some.injEq, Prod.mk.injEq] at birth <;>
    simp [Act.operands, ← birth.2]

theorem Act.mem_writes {r : Ref L} (writes : a.writes = some r) : r ∈ a.operands := by
  cases a <;> simp_all [Act.writes, Act.operands]

theorem Act.write_of_birth {made : Kind × Ref L × Ref L} (birth : a.birth = some made) :
    a.write i c = c := by
  cases a <;> simp_all [Act.write, Act.birth]

theorem Act.store_of_birth {kind : Kind} {r : Ref L} (birth : a.birth = some (kind, c)) :
    a.store (some r) stored i = if r.target? = some i then c else stored i := by
  simp [Act.store, birth]

theorem Act.store_of_no_birth (birth : a.birth = none) :
    a.store answer stored i = a.write i (stored i) := by
  simp [Act.store, birth]

theorem Effect.newborn (e : Effect a h answer k) (makes : a.Makes answer i) :
    ∃ kind c r, a.birth = some (kind, c) ∧ answer = some r ∧ r.target? = some i ∧
      k.contents i = c := by
  obtain ⟨born, r, rfl, target⟩ := makes
  obtain ⟨⟨kind, c⟩, birth⟩ := Option.isSome_iff_exists.mp born
  obtain ⟨q, j, same, -, target', -, filled⟩ := e.born kind c.1 c.2 birth
  obtain rfl : r = q := by simpa using same
  obtain rfl : j = i := by simpa [target] using target'.symm
  exact ⟨kind, c, r, birth, rfl, target, filled⟩

/-- A cell that was in use holds what it is said to hold afterwards. -/
theorem Effect.stored_old (e : Effect a h answer k) (use : h.InUse i) (same : h.contents i = stored i) :
    k.contents i = a.store answer stored i := by
  rw [e.contents i use, same]
  cases birth : a.birth with
  | none => rw [Act.store_of_no_birth birth]
  | some made =>
    obtain ⟨r, j, rfl, -, target, unused, -⟩ := e.born _ _ _ birth
    rw [Act.write_of_birth birth, Act.store_of_birth birth, if_neg]
    rw [target, Option.some.injEq]
    rintro rfl
    exact unused use

theorem Effect.stored_new (e : Effect a h answer k) (makes : a.Makes answer i) :
    k.contents i = a.store answer stored i := by
  obtain ⟨kind, c, r, birth, rfl, target, filled⟩ := e.newborn makes
  rw [filled, Act.store_of_birth birth, if_pos target]

end

/-- What the cells hold once a deed is done. -/
def Deed.store {L : Layout} : Deed L → (Nat → Ref L × Ref L) → Nat → Ref L × Ref L
  | ⟨.act a, .ok answer⟩, stored => a.store answer stored
  | _, stored => stored

namespace Heap
variable {L : Layout} {h k : Heap L} {op : Op L} {o : Except Fault (Option (Ref L))} {v : Ref L}
  {stored : Nat → Ref L × Ref L} {i : Nat} {s : Logged (Heap L)} {refs : List (Ref L)}

/-- Ordinary cells refer to ordinary cells alone, and hold what was last stored in them. -/
def Holding (stored : Nat → Ref L × Ref L) (h : Heap L) : Prop :=
  ∀ i, h.Collectable i → (∀ v ∈ h.slots i, h.Plain v) ∧ h.contents i = stored i

theorem Plain.acted {a : Act L} {answer : Option (Ref L)} (plain : h.Plain v)
    (effect : Effect a h answer k) : k.Plain v :=
  fun i target => (effect.collectable i).mpr (Or.inl (plain i target))

theorem Holding.acted {a : Act L} {answer : Option (Ref L)} (holding : h.Holding stored)
    (effect : Effect a h answer k) (plain : ∀ v ∈ a.operands, h.Plain v) : k.Holding (a.store answer stored) := by
  intro j on
  rcases (effect.collectable j).mp on with old | ⟨-, makes⟩
  · obtain ⟨slots, same⟩ := holding j old
    refine ⟨fun v slot => ?_, effect.stored_old (Or.inl old) same⟩
    rw [slots_eq, effect.contents j (Or.inl old)] at slot
    rcases Act.mem_write slot with slot | operand
    · exact (slots v slot).acted effect
    · exact (plain v operand).acted effect
  · refine ⟨fun v slot => ?_, effect.stored_new makes⟩
    obtain ⟨kind, c, r, birth, -, -, filled⟩ := effect.newborn makes
    obtain ⟨first, rest⟩ := Act.mem_birth birth
    rw [slots_eq, filled] at slot
    rcases List.mem_pair.mp slot with rfl | rfl
    · exact (plain _ first).acted effect
    · exact (plain _ rest).acted effect

theorem Holding.turned (holding : h.Holding stored) (turned : Turned h k) : k.Holding stored := by
  intro j on
  obtain ⟨slots, same⟩ := holding j (turned.collectable j on)
  refine ⟨fun v slot c target => ?_, (contents_congr (turned.slots j)).trans same⟩
  refine (turned.sound.held j on v slot c target).resolve_right fun fixed => ?_
  rw [turned.slots] at slot
  exact not_fixed_of_collectable (slots v slot c target) ((turned.fixed c).mp fixed)

theorem Holding.step (holding : h.Holding stored) (step : Step op o h k)
    (plain : ∀ v ∈ op.operands, h.Plain v) :
    k.Holding (Deed.store ⟨op, o⟩ stored) := by
  cases step with
  | refused => cases op <;> exact holding
  | allTraced | nothingToSweep => exact holding
  | acted effect => exact holding.acted effect plain
  | aged _ begun | begun _ begun => exact holding.turned begun.toTurned
  | traced traced => exact holding.turned traced.toTurned
  | swept swept => exact holding.turned swept.toTurned
  | collected turned => exact holding.turned turned

/-- A reference that a collection in progress cannot lose. -/
def Safe (h : Heap L) (v : Ref L) : Prop := h.Plain v ∧ h.Clear v

theorem Safe.turned (safe : h.Safe v) (all : ∀ i, h.Collectable i → k.Collectable i)
    (aged : ∀ i ∈ k.members .aged, i ∈ h.members .aged) : k.Safe v :=
  ⟨fun i target => all i (safe.1 i target), fun i target danger => safe.2 i target (aged i danger)⟩

theorem Safe.acted {a : Act L} {answer : Option (Ref L)} (safe : h.Safe v)
    (effect : Effect a h answer k) : k.Safe v :=
  safe.turned (fun i on => (effect.collectable i).mpr (Or.inl on)) effect.aged

end Heap

/-- Whether what `refs` name outlives an operation: ordinary work on cells and the steps of a cycle
spare it, and so does a collection that has all of `refs` among its roots. -/
def Op.Spares {L : Layout} (refs : List (Ref L)) : Op L → Prop
  | .act a => a.lasting = false
  | .traceStep | .sweep => True
  | .age => False
  | .beginCollect roots | .fullCollect roots => ∀ v ∈ refs, v ∈ roots

namespace Heap
variable {L : Layout} {op : Op L} {s : Logged (Heap L)} {refs : List (Ref L)}

theorem Sound.still_safe (sound : s.state.Sound) (plain : ∀ v ∈ op.operands, s.state.Plain v)
    (spares : op.Spares refs) (safe : ∀ v ∈ refs, s.state.Safe v) :
    ∀ v ∈ refs, (stateAfter (op.task s)).state.Safe v := by
  intro v on
  cases op with
  | act a =>
    rcases a.outcome sound fun w operand => (plain w operand).holds with
      ⟨f, -, refused⟩ | ⟨-, answer, k, j, done, effect⟩
    · rw [Op.task, refused]
      exact safe v on
    · rw [Op.task, done]
      exact (safe v on).acted effect
  | age => cases spares
  | beginCollect roots =>
    cases busy : s.state.collecting with
    | true => simpa [Op.task, Task.bind_apply, beginCollect_busy busy, stateAfter] using safe v on
    | false =>
      obtain ⟨k, j, done, begun, clear⟩ := beginCollect_apply sound busy
        fun w (root : w ∈ roots) => (sound.finished busy).regular sound (plain w root).holds
      simp only [Op.task, Task.bind_apply, done]
      exact ⟨fun i target => begun.all i ((safe v on).1 i target), clear v (spares v on)⟩
  | traceStep =>
    by_cases empty : s.state.members .scan = []
    · simpa [Op.task, Task.bind_apply, traceStep_none sound empty, stateAfter] using safe v on
    · obtain ⟨k, done, traced⟩ := traceStep_some sound empty
      simp only [Op.task, Task.bind_apply, done]
      exact (safe v on).turned traced.all traced.aged
  | sweep =>
    cases busy : s.state.collecting with
    | false => simpa [Op.task, Task.bind_apply, sweep_idle busy, stateAfter] using safe v on
    | true =>
      by_cases empty : s.state.members .scan = []
      · obtain ⟨k, j, done, swept⟩ := sweep_apply sound busy empty
        simp only [Op.task, Task.bind_apply, done]
        change k.Safe v
        refine ⟨fun i target => Or.inl ?_, fun i _ => by simp [swept.aged]⟩
        rw [swept.fresh]
        rcases (safe v on).1 i target with fresh | aged | scanned
        · exact fresh
        · exact absurd aged ((safe v on).2 i target)
        · simp [empty] at scanned
      · simpa [Op.task, Task.bind_apply, sweep_untraced sound busy empty, stateAfter] using safe v on
  | fullCollect roots =>
    have holds : ∀ w ∈ roots, s.state.Holds w := fun w root => (plain w root).holds
    obtain ⟨k, j, done, turned, resting, keeps⟩ := fullCollect_apply sound holds
    simp only [Op.task, Task.bind_apply, done]
    change k.Safe v
    refine ⟨fun i target => ?_, fun i _ => by simp [(turned.sound.idle resting).1]⟩
    exact keeps v (spares v on) (safe v on).2 i target ((safe v on).1 i target)

end Heap

end Treadmill

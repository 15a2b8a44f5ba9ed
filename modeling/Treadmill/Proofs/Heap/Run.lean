import Mathlib
import Treadmill.Proofs.Heap.Act
import Treadmill.Proofs.Heap.Cycle

/-!
Runs of a heap: operations of its user and steps of its collector in any order, each on references
to cells in use. `Op.step` says what one operation does, and every state of a run is sound
(`Runs.sound`).
-/

namespace Treadmill
variable {L : Layout}
open Heap

/-! ### The empty heap -/

namespace Heap

theorem cellAt_empty {i : Nat} (low : i < firstCell) (traced : Bool) :
    (Heap.empty traced : Heap L).cellAt i = Cell.unlinked i := by
  simp [cellAt, Heap.empty, Array.getD, low]

theorem next_empty {i : Nat} (low : i < firstCell) (traced : Bool) :
    (Heap.empty traced : Heap L).next i = i := by
  unfold firstCell at low
  rw [next, cellAt_empty low]
  simp only [Cell.next, Cell.unlinked, UInt64.toNat_ofNat']
  omega

theorem prev_empty {i : Nat} (low : i < firstCell) (traced : Bool) :
    (Heap.empty traced : Heap L).prev i = i := by
  unfold firstCell at low
  rw [prev, cellAt_empty low]
  simp only [Cell.prev, Cell.unlinked, UInt64.toNat_mod, UInt64.toNat_ofNat', Cell.toNat_linkSpan]
  omega

theorem mark_empty {i : Nat} (low : i < firstCell) (traced : Bool) :
    (Heap.empty traced : Heap L).mark i = .z := by
  unfold firstCell at low
  have none : UInt64.ofNat i / linkSpan = 0 := by
    rw [← UInt64.toNat_inj, UInt64.toNat_div, Cell.toNat_linkSpan, UInt64.toNat_ofNat']
    simp only [UInt64.toNat_zero]
    omega
  rw [mark, cellAt_empty low, Cell.mark, Cell.unlinked, none]
  rfl

theorem threaded_empty (traced : Bool) : (Heap.empty traced : Heap L).Threaded fun _ => [] where
  circle r := .cons_cons ⟨next_empty (Ring.head_lt r) traced, prev_empty (Ring.head_lt r) traced⟩
    (.singleton _)
  recorded r := by cases r <;> rfl
  nodup _ := List.nodup_nil
  apart on := by cases on
  inside on := by cases on
  heads := by simp [Heap.empty]
  narrow := by simp [Heap.empty, firstCell]

theorem members_empty (traced : Bool) : (Heap.empty traced : Heap L).members = fun _ => [] :=
  (threaded_empty traced).members_eq

theorem not_fixed_empty (traced : Bool) (i : Nat) : ¬(Heap.empty traced : Heap L).Fixed i := by
  rintro ⟨low, high, -⟩
  simp only [Heap.empty, Array.size_ofFn] at high
  omega

theorem not_collectable_empty (traced : Bool) (i : Nat) :
    ¬(Heap.empty traced : Heap L).Collectable i := by
  simp [Collectable, members_empty]

theorem sound_empty (traced : Bool) : (Heap.empty traced : Heap L).Sound where
  threaded := (threaded_empty traced).members
  parked i low high := by
    simp only [Heap.empty, Array.size_ofFn] at high
    omega
  phases := Or.inr ⟨rfl, rfl⟩
  fresh := by simp [members_empty]
  scan := by simp [members_empty]
  aged := by simp [members_empty]
  fixed i on := absurd on (not_fixed_empty traced i)
  heads i low := mark_empty low traced
  idle _ := by simp [members_empty]
  nil := by rw [slots, cellAt_empty (by decide)]; rfl
  room := by simp [Heap.empty]; cases L <;> decide
  held i on := absurd on (not_collectable_empty traced i)
  sealed i on := absurd on (not_fixed_empty traced i)
  shielded := by simp [members_empty]

end Heap

/-! ### Operations -/

inductive Op (L : Layout)
  | act (a : Act L)
  | age
  | beginCollect (roots : List (Ref L))
  | traceStep
  | sweep
  | fullCollect (roots : List (Ref L))

namespace Op

def task : Op L → HeapTask L (Option (Ref L))
  | act a => a.task
  | age => do Heap.age; return none
  | beginCollect roots => do Heap.beginCollect roots; return none
  | traceStep => do let _ ← Heap.traceStep; return none
  | sweep => do Heap.sweep; return none
  | fullCollect roots => do Heap.fullCollect roots; return none

def operands : Op L → List (Ref L)
  | act a => a.operands
  | beginCollect roots | fullCollect roots => roots
  | age | traceStep | sweep => []

end Op

/-- An operation together with what came of it. -/
structure Deed (L : Layout) where
  op : Op L
  outcome : Except Fault (Option (Ref L))

/-- What came of a task. -/
def outcomeOf {σ α : Type} : EStateM.Result Fault (Logged σ) α → Except Fault α
  | .ok a _ => .ok a
  | .error f _ => .error f

/-- Where a task has led, also one that gave up. -/
def stateAfter {σ α : Type} : EStateM.Result Fault (Logged σ) α → Logged σ
  | .ok _ s => s
  | .error _ s => s

theorem eq_ok_of_outcome {σ α : Type} {r : EStateM.Result Fault (Logged σ) α} {a : α}
    (done : outcomeOf r = .ok a) : r = .ok a (stateAfter r) := by
  cases r with
  | ok b s => rw [Except.ok.inj done]; rfl
  | error f s => cases done

/-- Whatever an operation does to a sound heap. -/
inductive Step : Op L → Except Fault (Option (Ref L)) → Heap L → Heap L → Prop
  | refused {op h f} : Step op (.error f) h h
  | acted {a h answer k} (effect : Effect a h answer k) : Step (.act a) (.ok answer) h k
  | aged {h k} (resting : h.collecting = false) (begun : Begun h k) : Step .age (.ok none) h k
  | begun {roots h k} (resting : h.collecting = false) (begun : Begun h k)
      (clear : ∀ v ∈ roots, k.Clear v) : Step (.beginCollect roots) (.ok none) h k
  | traced {h k} (traced : Traced h k) : Step .traceStep (.ok none) h k
  | allTraced {h} (empty : h.members .scan = []) : Step .traceStep (.ok none) h h
  | swept {h k} (swept : Swept h k) : Step .sweep (.ok none) h k
  | nothingToSweep {h} (resting : h.collecting = false) : Step .sweep (.ok none) h h
  | collected {roots h k} (turned : Turned h k) (resting : k.collecting = false) :
      Step (.fullCollect roots) (.ok none) h k

variable {op : Op L} {s t u : Logged (Heap L)} {h k : Heap L} {i : Nat} {v : Ref L}
  {o : Except Fault (Option (Ref L))} {deeds more : List (Deed L)} {traced : Bool} {journal : Journal}

theorem Op.step (op : Op L) (sound : s.state.Sound) (held : ∀ v ∈ op.operands, s.state.Holds v) :
    Step op (outcomeOf (op.task s)) s.state (stateAfter (op.task s)).state := by
  cases op with
  | act a =>
    rcases a.outcome sound held with ⟨f, -, refused⟩ | ⟨-, answer, k, j, done, effect⟩
    · simp only [task, refused]
      exact .refused
    · simp only [task, done]
      exact .acted effect
  | age =>
    cases busy : s.state.collecting with
    | true =>
      simp only [task, Task.bind_apply, age_busy busy]
      exact .refused
    | false =>
      obtain ⟨j, done⟩ := age_apply busy
      simp only [task, Task.bind_apply, done]
      exact .aged busy (sound.begun busy).1
  | beginCollect roots =>
    cases busy : s.state.collecting with
    | true =>
      simp only [task, Task.bind_apply, beginCollect_busy busy]
      exact .refused
    | false =>
      obtain ⟨begun, -⟩ := sound.begun busy
      have regular : ∀ v ∈ roots, s.state.aged.Regular v := fun v on =>
        (sound.finished busy).regular sound (held v on)
      obtain ⟨k, j, done, begun, clear⟩ := beginCollect_apply sound busy regular
      simp only [task, Task.bind_apply, done]
      exact .begun busy begun clear
  | traceStep =>
    by_cases empty : s.state.members .scan = []
    · simp only [task, Task.bind_apply, traceStep_none sound empty]
      exact .allTraced empty
    · obtain ⟨k, done, traced⟩ := traceStep_some sound empty
      simp only [task, Task.bind_apply, done]
      exact .traced traced
  | sweep =>
    cases busy : s.state.collecting with
    | false =>
      simp only [task, Task.bind_apply, sweep_idle busy]
      exact .nothingToSweep busy
    | true =>
      by_cases empty : s.state.members .scan = []
      · obtain ⟨k, j, done, swept⟩ := sweep_apply sound busy empty
        simp only [task, Task.bind_apply, done]
        exact .swept swept
      · simp only [task, Task.bind_apply, sweep_untraced sound busy empty]
        exact .refused
  | fullCollect roots =>
    have holds : ∀ v ∈ roots, s.state.Holds v := held
    obtain ⟨k, j, done, turned, resting, -⟩ := fullCollect_apply sound holds
    simp only [task, Task.bind_apply, done]
    exact .collected turned resting

theorem Step.sound (step : Step op o h k) (sound : h.Sound) : k.Sound := by
  cases step with
  | refused | allTraced | nothingToSweep => exact sound
  | acted effect => exact effect.sound
  | aged _ begun | begun _ begun => exact begun.sound
  | traced traced => exact traced.sound
  | swept swept => exact swept.sound
  | collected turned => exact turned.sound

/-- A cell that is in use stays in use or is freed. -/
theorem Step.inUse_or_free (step : Step op o h k) (sound : h.Sound) (use : h.InUse i) :
    k.InUse i ∨ i ∈ k.members .free := by
  cases step with
  | refused | allTraced | nothingToSweep => exact Or.inl use
  | acted effect => exact Or.inl (effect.inUse_iff.mpr (Or.inl use))
  | aged _ begun | begun _ begun => exact begun.inUse_or_free sound use
  | traced traced => exact traced.inUse_or_free sound use
  | swept swept => exact swept.inUse_or_free sound use
  | collected turned => exact turned.inUse_or_free sound use

/-! ### Runs -/

/-- Operations one after another, each on references to cells that are in use when it is called.
One that gives up leaves what it did. -/
inductive Runs : Logged (Heap L) → List (Deed L) → Logged (Heap L) → Prop
  | nil (s : Logged (Heap L)) : Runs s [] s
  | snoc {s t : Logged (Heap L)} {deeds : List (Deed L)} (run : Runs s deeds t) (op : Op L)
      (held : ∀ v ∈ op.operands, t.state.Holds v) :
      Runs s (deeds ++ [⟨op, outcomeOf (op.task t)⟩]) (stateAfter (op.task t))

theorem Runs.sound (run : Runs s deeds t) (sound : s.state.Sound) : t.state.Sound := by
  induction run with
  | nil => exact sound
  | snoc _ op held ih => exact (op.step ih held).sound ih

theorem Runs.sound_of_empty (run : Runs ⟨Heap.empty traced, journal⟩ deeds t) : t.state.Sound :=
  run.sound (sound_empty traced)

end Treadmill

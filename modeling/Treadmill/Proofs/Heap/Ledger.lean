import Mathlib
import Treadmill.Proofs.Eager
import Treadmill.Proofs.Heap.Run

/-!
A heap behaves as a store that never reclaims anything. The ledger of a run lists every allocation
with what was last stored in it; as long as the cell of an allocation has not been swept, the heap
and the ledger agree about it (`Recorded.refines`).
-/

namespace Treadmill
variable {L : Layout} {h k : Heap L} {s t : Logged (Heap L)} {op : Op L}
  {o : Except Fault (Option (Ref L))} {traced : Bool} {journal : Journal} {i : Nat} {v r : Ref L}
open Heap

/-- The reference that an allocation answered with, what was last stored in its cell, and whether
the cell has been swept since. -/
structure Allocation (L : Layout) where
  ref : Ref L
  contents : Ref L × Ref L
  swept : Bool
deriving DecidableEq

abbrev Ledger (L : Layout) := List (Allocation L)

/-- What a deed leaves in a cell. -/
def Deed.write : Deed L → Nat → Ref L × Ref L → Ref L × Ref L
  | ⟨.act a, .ok _⟩, i, held => a.write i held
  | _, _, held => held

/-- The allocation that a deed was. -/
def Deed.allocation : Deed L → List (Allocation L)
  | ⟨.act a, .ok (some r)⟩ =>
    match a.birth with
    | some (_, x, y) => [⟨r, (x, y), false⟩]
    | none => []
  | _ => []

/-- The entry of an allocation after a deed that has led to the heap `k`. -/
def Allocation.after (d : Deed L) (k : Heap L) (e : Allocation L) : Allocation L :=
  match e.ref.target? with
  | some i =>
    if e.swept then e
    else { e with contents := d.write i e.contents, swept := decide (i ∈ k.members .free) }
  | none => e

def Ledger.record (l : Ledger L) (d : Deed L) (k : Heap L) : Ledger L :=
  l.map (Allocation.after d k) ++ d.allocation

/-- A reference names no cell, or the cell of an allocation that has not been swept. -/
def Ledger.Allows (l : Ledger L) (v : Ref L) : Prop :=
  v.target? = none ∨ ∃ e ∈ l, e.swept = false ∧ e.ref.target? = v.target?

instance (l : Ledger L) (v : Ref L) : Decidable (l.Allows v) := inferInstanceAs (Decidable (_ ∨ _))

/-- Runs with their ledger. Each operand is allowed by the ledger so far. -/
inductive Recorded (traced : Bool) (journal : Journal) : Ledger L → Logged (Heap L) → Prop
  | start : Recorded traced journal [] ⟨Heap.empty traced, journal⟩
  | step {l : Ledger L} {t : Logged (Heap L)} (run : Recorded traced journal l t) (op : Op L)
      (allowed : ∀ v ∈ op.operands, l.Allows v) :
      Recorded traced journal
        (l.record ⟨op, outcomeOf (op.task t)⟩ (stateAfter (op.task t)).state)
        (stateAfter (op.task t))

variable {l : Ledger L} {e f : Allocation L} {d : Deed L}

/-- The heap holds what the ledger says, in a cell of its own for each allocation. -/
structure Faithful (l : Ledger L) (h : Heap L) : Prop where
  sound : h.Sound
  stored : ∀ e ∈ l, e.swept = false →
    ∃ i, e.ref.target? = some i ∧ h.InUse i ∧ h.contents i = e.contents
  apart : l.Pairwise fun e f => e.swept = false → f.swept = false → e.ref.target? ≠ f.ref.target?

theorem Faithful.holds (faithful : Faithful l h) (allowed : l.Allows v) : h.Holds v := by
  intro i target
  rcases allowed with none | ⟨e, on, live, same⟩
  · simp [none] at target
  · obtain ⟨j, named, use, -⟩ := faithful.stored e on live
    rw [same, target, Option.some.injEq] at named
    exact named ▸ use

/-! ### One step -/

theorem Allocation.ref_after (d : Deed L) (k : Heap L) (e : Allocation L) :
    (e.after d k).ref = e.ref := by
  unfold after
  split
  · split <;> rfl
  · rfl

theorem Allocation.live_before (live : (e.after d k).swept = false) : e.swept = false := by
  unfold after at live
  split at live
  · split at live <;> simp_all
  · exact live

theorem Allocation.live_after (target : e.ref.target? = some i)
    (live : (e.after d k).swept = false) :
    i ∉ k.members .free ∧ (e.after d k).contents = d.write i e.contents := by
  have before := live_before live
  have shape : e.after d k =
      { e with contents := d.write i e.contents, swept := decide (i ∈ k.members .free) } := by
    simp [after, target, before]
  rw [shape] at live
  exact ⟨by simpa using live, by rw [shape]⟩

theorem Step.contents (step : Step op o h k) (use : h.InUse i) :
    k.contents i = Deed.write ⟨op, o⟩ i (h.contents i) := by
  cases step with
  | acted effect => exact effect.contents i use
  | refused => cases op <;> rfl
  | allTraced | nothingToSweep => rfl
  | aged _ begun | begun _ begun => exact contents_congr (begun.slots i)
  | traced traced => exact contents_congr (traced.slots i)
  | swept swept => exact contents_congr (swept.slots i)
  | collected turned => exact contents_congr (turned.slots i)

theorem Step.allocation (step : Step op o h k) (new : e ∈ Deed.allocation ⟨op, o⟩) :
    e.swept = false ∧ ∃ i, e.ref.target? = some i ∧ ¬h.InUse i ∧ k.InUse i ∧
      k.contents i = e.contents := by
  cases step with
  | acted effect =>
    rename_i act answer
    cases birth : act.birth with
    | none =>
      cases answer <;> simp [Deed.allocation, birth] at new
    | some born =>
      obtain ⟨kind, a, b⟩ := born
      obtain ⟨r, i, rfl, -, target, unused, filled⟩ := effect.born kind a b birth
      simp only [Deed.allocation, birth, List.mem_singleton] at new
      subst new
      exact ⟨rfl, i, target, unused,
        effect.inUse_iff.mpr (Or.inr ⟨by simp [birth], r, rfl, target⟩), filled⟩
  | refused => cases op <;> cases new
  | aged | begun | traced | allTraced | swept | nothingToSweep | collected => cases new

theorem Deed.allocation_length (d : Deed L) : d.allocation.length ≤ 1 := by
  unfold allocation
  split
  · split <;> simp
  · simp

/-- The ledger stays true to the heap. -/
theorem Faithful.record (faithful : Faithful l h) (step : Step op o h k) :
    Faithful (l.record ⟨op, o⟩ k) k where
  sound := step.sound faithful.sound
  stored e on live := by
    rcases List.mem_append.mp on with old | new
    · obtain ⟨e, member, rfl⟩ := List.mem_map.mp old
      obtain ⟨i, target, use, stored⟩ := faithful.stored e member (Allocation.live_before live)
      obtain ⟨notFree, contents⟩ := Allocation.live_after target live
      rw [Allocation.ref_after]
      refine ⟨i, target, (step.inUse_or_free faithful.sound use).resolve_right notFree, ?_⟩
      rw [step.contents use, contents, stored]
    · obtain ⟨-, i, target, -, use, filled⟩ := step.allocation new
      exact ⟨i, target, use, filled⟩
  apart := by
    refine List.pairwise_append.mpr ⟨List.pairwise_map.mpr (faithful.apart.imp ?_), ?_, ?_⟩
    · intro e f different live live'
      rw [Allocation.ref_after, Allocation.ref_after]
      exact different (Allocation.live_before live) (Allocation.live_before live')
    · have single := Deed.allocation_length ⟨op, o⟩
      match shape : Deed.allocation (L := L) ⟨op, o⟩, single with
      | [], _ => exact .nil
      | [e], _ => exact List.pairwise_singleton _ e
    · intro e old f new live _ same
      obtain ⟨e, member, rfl⟩ := List.mem_map.mp old
      obtain ⟨i, target, use, -⟩ := faithful.stored e member (Allocation.live_before live)
      obtain ⟨-, j, target', unused, -⟩ := step.allocation new
      rw [Allocation.ref_after, target, target', Option.some.injEq] at same
      exact unused (same ▸ use)

theorem faithful_empty (traced : Bool) : Faithful [] (Heap.empty traced : Heap L) :=
  ⟨sound_empty traced, by simp, .nil⟩

theorem Recorded.faithful (run : Recorded traced journal l t) : Faithful l t.state := by
  induction run with
  | start => exact faithful_empty traced
  | step run op allowed ih => exact ih.record (op.step ih.sound fun v on => ih.holds (allowed v on))

/-! ### Answers -/

/-- What a user who keeps a ledger finds: `t` answers just as the store that the ledger describes. -/
structure Refines (l : Ledger L) (t : Logged (Heap L)) : Prop where
  first : ∀ e ∈ l, e.swept = false → e.ref.isPair = true →
    outcomeOf (Heap.first e.ref t) = .ok e.contents.1
  rest : ∀ e ∈ l, e.swept = false → e.ref.isPair = true →
    outcomeOf (Heap.rest e.ref t) = .ok e.contents.2
  behavior : ∀ e ∈ l, e.swept = false → e.ref.isActor = true →
    outcomeOf (Heap.behavior e.ref t) = .ok e.contents.1
  state : ∀ e ∈ l, e.swept = false → e.ref.isActor = true →
    outcomeOf (Heap.state e.ref t) = .ok e.contents.2
  setFirst : ∀ e ∈ l, e.swept = false → e.ref.isPair = true → ∀ v, l.Allows v →
    outcomeOf (Heap.setFirst e.ref v t) = .ok ()
  setRest : ∀ e ∈ l, e.swept = false → e.ref.isPair = true → ∀ v, l.Allows v →
    outcomeOf (Heap.setRest e.ref v t) = .ok ()
  setActor : ∀ e ∈ l, e.swept = false → e.ref.isActor = true → ∀ beh v, beh.isFunc = true →
    l.Allows v → outcomeOf (Heap.setActor e.ref beh v t) = .ok ()
  nil : outcomeOf (Heap.first .nil t) = .ok .nil ∧ outcomeOf (Heap.rest .nil t) = .ok .nil
  /-- Two allocations that are both unswept have different cells. -/
  apart : l.Pairwise fun e f => e.swept = false → f.swept = false → e.ref.target? ≠ f.ref.target?
  /-- An allocation answers with a cell that was not in use. -/
  unused : ∀ op : Op L, (∀ v ∈ op.operands, l.Allows v) →
    ∀ f ∈ Deed.allocation ⟨op, outcomeOf (op.task t)⟩, ∃ i, f.ref.target? = some i ∧
      ¬t.state.InUse i ∧ ∀ e ∈ l, e.swept = false → e.ref.target? ≠ some i
  /-- No operation changes an allocation but the one that it was asked to write. -/
  frame : ∀ op : Op L, (∀ v ∈ op.operands, l.Allows v) → ∀ e ∈ l, e.swept = false →
    ∀ i, e.ref.target? = some i →
      (stateAfter (op.task t)).state.contents i = e.contents ∨
        ∃ a r, op = .act a ∧ a.writes = some r ∧ r.target? = some i ∧
          (stateAfter (op.task t)).state.contents i = a.write i e.contents

theorem Step.frame (step : Step op o h k) (use : h.InUse i) :
    k.contents i = h.contents i ∨ ∃ a r, op = .act a ∧ a.writes = some r ∧ r.target? = some i ∧
      k.contents i = a.write i (h.contents i) := by
  have written := step.contents use
  cases step with
  | acted effect =>
    rename_i act answer
    by_cases mine : ∃ r, act.writes = some r ∧ r.target? = some i
    · obtain ⟨r, writes, target⟩ := mine
      exact Or.inr ⟨act, r, rfl, writes, target, written⟩
    · refine Or.inl (written.trans ?_)
      have other : ∀ r, act.writes = some r → r.target? ≠ some i := fun r writes target =>
        mine ⟨r, writes, target⟩
      cases act with
      | setFirst r v | setRest r v | setActor r beh v => exact if_neg (other r rfl)
      | cons | perm | actorCell | first | rest | behavior | state | scanValue => rfl
  | refused => exact Or.inl (written.trans (by cases op <;> rfl))
  | aged | begun | traced | allTraced | swept | nothingToSweep | collected => exact Or.inl written

theorem Faithful.refines_store (faithful : Faithful l t.state) : Refines l t where
  first e on live isPair := by
    obtain ⟨i, target, use, stored⟩ := faithful.stored e on live
    rw [first_apply faithful.sound.toTidy isPair target use, ← stored]
    rfl
  rest e on live isPair := by
    obtain ⟨i, target, use, stored⟩ := faithful.stored e on live
    rw [rest_apply faithful.sound.toTidy isPair target use, ← stored]
    rfl
  behavior e on live isActor := by
    obtain ⟨i, target, use, stored⟩ := faithful.stored e on live
    rw [behavior_apply faithful.sound.toTidy isActor target use, ← stored]
    rfl
  state e on live isActor := by
    obtain ⟨i, target, use, stored⟩ := faithful.stored e on live
    rw [state_apply faithful.sound.toTidy isActor target use, ← stored]
    rfl
  setFirst e on live isPair v allowed := by
    obtain ⟨i, target, use, -⟩ := faithful.stored e on live
    have isCons := Ref.isCons_of_isPair isPair (Ref.isNil_of_target? target)
    rw [setFirst_apply faithful.sound.toTidy isCons target use (slots_eq _ i)
      (faithful.holds allowed)]
    rfl
  setRest e on live isPair v allowed := by
    obtain ⟨i, target, use, -⟩ := faithful.stored e on live
    have isCons := Ref.isCons_of_isPair isPair (Ref.isNil_of_target? target)
    rw [setRest_apply faithful.sound.toTidy isCons target use (slots_eq _ i)
      (faithful.holds allowed)]
    rfl
  setActor e on live isActor beh v isFunc allowed := by
    obtain ⟨i, target, use, -⟩ := faithful.stored e on live
    rw [setActor_apply faithful.sound.toTidy isActor isFunc target use (faithful.holds allowed)]
    rfl
  nil := by simp [Heap.first, Heap.rest, outcomeOf]
  apart := faithful.apart
  unused op allowed f new := by
    have step := op.step faithful.sound fun v on => faithful.holds (allowed v on)
    obtain ⟨-, i, target, unused, -⟩ := step.allocation new
    refine ⟨i, target, unused, fun e on live same => ?_⟩
    obtain ⟨j, named, use, -⟩ := faithful.stored e on live
    rw [same, Option.some.injEq] at named
    exact unused (named ▸ use)
  frame op allowed e on live i target := by
    have step := op.step faithful.sound fun v on => faithful.holds (allowed v on)
    obtain ⟨j, named, use, stored⟩ := faithful.stored e on live
    obtain rfl : i = j := by simpa [target] using named
    rw [← stored]
    exact step.frame use

/-! ### Cells that are handed out again -/

/-- An operation of the user changes nothing in the ledger but the entry that it writes to, and adds the one
that it makes. -/
theorem Recorded.acted {a : Act L} {answer : Option (Ref L)} {u : Logged (Heap L)}
    (run : Recorded traced journal l t) (allowed : ∀ v ∈ a.operands, l.Allows v)
    (done : a.task t = .ok answer u) :
    ∃ l', Recorded traced journal l' u ∧ (∀ e ∈ l, e.swept = true → e ∈ l') ∧
      (∀ e ∈ l, e.swept = false → ∀ i, e.ref.target? = some i →
        { e with contents := a.write i e.contents } ∈ l') ∧
      ∀ e ∈ Deed.allocation ⟨.act a, .ok answer⟩, e ∈ l' := by
  have faithful := run.faithful
  have next := run.step (.act a) allowed
  have step := (Op.act a).step faithful.sound fun v on => faithful.holds (allowed v on)
  rw [show (Op.act a).task t = .ok answer u from done] at next step
  refine ⟨_, next, fun e on swept => ?_, fun e on live i target => ?_, fun e new => ?_⟩
  · refine List.mem_append_left _ (List.mem_map.mpr ⟨e, on, ?_⟩)
    unfold Allocation.after
    cases e.ref.target? with
    | none => rfl
    | some i => exact if_pos swept
  · obtain ⟨j, named, use, -⟩ := faithful.stored e on live
    obtain rfl : i = j := by simpa [target] using named
    have held : i ∉ u.state.members .free := by
      cases step with
      | acted effect =>
        exact ((effect.sound.threaded.inUse_iff).mp (effect.inUse_iff.mpr (Or.inl use))).2.2.1
    refine List.mem_append_left _ (List.mem_map.mpr ⟨e, on, ?_⟩)
    simp only [Allocation.after, target, live, Bool.false_eq_true, if_false, stateAfter, held, decide_false]
    rfl
  · exact List.mem_append_right _ new

/-- Entries stay when a cell is made. -/
theorem Recorded.cons_next {x y : Ref L} {row : List Nat} (run : Recorded traced journal l t)
    (shape : t.state.members .free = i :: row) (first : l.Allows x) (rest : l.Allows y) :
    ∃ r l' u, Recorded traced journal l' u ∧ l ⊆ l' ∧ ⟨r, (x, y), false⟩ ∈ l' ∧ Ref.pair i = .ok r ∧
      u.state.members .free = row := by
  have faithful := run.faithful
  obtain ⟨r, k, j, made, named, free⟩ :=
    Heap.cons_next faithful.sound.toTidy (faithful.holds first) (faithful.holds rest) shape
  have done : (Act.cons x y).task t = .ok (some r) ⟨k, j⟩ := Task.bind_of_ok made
  obtain ⟨l', run, gone, live, new⟩ := run.acted
    (fun v on => by rcases List.mem_pair.mp on with rfl | rfl <;> assumption) done
  refine ⟨r, l', ⟨k, j⟩, run, fun e on => ?_, new _ (List.mem_singleton_self _), named, free⟩
  cases swept : e.swept with
  | true => exact gone e on swept
  | false =>
    obtain ⟨c, target, -⟩ := faithful.stored e on swept
    exact live e on swept c target

/-- A free cell is handed out once those in front of it are. -/
theorem Recorded.recycles {x y : Ref L} {front back : List Nat} (run : Recorded traced journal l t)
    (shape : t.state.members .free = front ++ i :: back) (first : l.Allows x) (rest : l.Allows y) :
    ∃ r l' u, Recorded traced journal l' u ∧ l ⊆ l' ∧ ⟨r, (x, y), false⟩ ∈ l' ∧ Ref.pair i = .ok r := by
  induction front generalizing l t with
  | nil =>
    obtain ⟨r, l', u, run, keeps, new, named, -⟩ := run.cons_next shape first rest
    exact ⟨r, l', u, run, keeps, new, named⟩
  | cons c front ih =>
    obtain ⟨-, l', u, run, keeps, -, -, shape⟩ := run.cons_next shape first rest
    have still : ∀ v, l.Allows v → l'.Allows v := fun v allowed =>
      allowed.imp id fun ⟨e, on, live⟩ => ⟨e, keeps on, live⟩
    obtain ⟨r, l'', u, run, keeps', new, named⟩ := ih run shape (still x first) (still y rest)
    exact ⟨r, l'', u, run, fun e on => keeps' (keeps on), new, named⟩

/-- In every run the heap answers as the store of its ledger does. -/
theorem Recorded.refines (run : Recorded traced journal l t) : Refines l t :=
  run.faithful.refines_store

/-- A cell that was swept is handed out again, beside a pair and an actor that were written to. -/
theorem refines_recycled_cell :
    ∃ (l : Ledger .twoLow) (t : Logged (Heap .twoLow)) (x y a f : Ref .twoLow),
      Recorded false ⟨none, #[]⟩ l t ∧ ⟨x, (.nil, .nil), true⟩ ∈ l ∧ ⟨x, (a, .nil), false⟩ ∈ l ∧
        y.isPair = true ∧ ⟨y, (y, .nil), false⟩ ∈ l ∧ a.isActor = true ∧ ⟨a, (f, y), false⟩ ∈ l ∧
        Refines l t := by
  let blank : Logged (Heap .twoLow) := ⟨Heap.empty false, ⟨none, #[]⟩⟩
  obtain ⟨x, a, f, named, six, isActor, seven, isFunc, s₁, is₁, out₁, s₂, is₂, out₂, s₃, is₃, young, next, later⟩ :
      ∃ x a f : Ref .twoLow, (Ref.pair 6 : Except Fault (Ref .twoLow)).toOption = some x ∧
        x.target? = some 6 ∧ a.isActor = true ∧ a.target? = some 7 ∧ f.isFunc = true ∧
        ∃ s₁, s₁ = stateAfter ((Act.cons .nil .nil).task blank) ∧
        outcomeOf ((Act.cons .nil .nil).task blank) = .ok (some x) ∧
        ∃ s₂, s₂ = stateAfter ((Act.actorCell f .nil).task s₁) ∧
        outcomeOf ((Act.actorCell f .nil).task s₁) = .ok (some a) ∧
        ∃ s₃, s₃ = stateAfter ((Op.fullCollect [a]).task s₂) ∧ 7 ∈ s₃.state.members .fresh ∧
        (s₃.state.members .free).head? = some 8 ∧ 6 ∈ (s₃.state.members .free).tail := by
    refine ⟨⟨24, by decide⟩, ⟨29, by decide⟩, ⟨6, by decide⟩, by decide, by decide, by decide, by decide,
      by decide, ?_⟩
    simp only [blank, Act.task, Heap.actorCell, Heap.cons, Heap.takeFree, Heap.refillEmpty, Heap.refill,
      Heap.extend_eq_lengthen]
    decide +kernel
  have nil : ∀ l : Ledger .twoLow, l.Allows .nil := fun _ => Or.inl Ref.target?_nil
  have entry : ∀ {l : Ledger .twoLow} {r : Ref .twoLow} {c : Ref .twoLow × Ref .twoLow},
      ⟨r, c, false⟩ ∈ l → l.Allows r := fun on => Or.inr ⟨_, on, rfl, rfl⟩
  have noCell : ∀ l : Ledger .twoLow, l.Allows f := fun _ => Or.inl (Ref.target?_of_isFunc isFunc)
  have r₀ : Recorded false ⟨none, #[]⟩ [] blank := .start
  obtain ⟨l₁, r₁, -, -, new₁⟩ := r₀.acted (by simp [Act.operands, nil]) (eq_ok_of_outcome out₁)
  rw [← is₁] at r₁
  have x₁ := new₁ ⟨x, (.nil, .nil), false⟩ (List.mem_singleton_self _)
  obtain ⟨l₂, r₂, -, live₂, new₂⟩ := r₁.acted (a := .actorCell f .nil)
    (by simp [Act.operands, nil, noCell]) (eq_ok_of_outcome out₂)
  rw [← is₂] at r₂
  have x₂ := live₂ _ x₁ rfl 6 six
  have a₂ := new₂ ⟨a, (f, .nil), false⟩ (List.mem_singleton_self _)
  have r₃ := r₂.step (.fullCollect [a]) (by simp [Op.operands, entry a₂])
  rw [← is₃] at r₃
  generalize outcomeOf ((Op.fullCollect [a]).task s₂) = o at r₃
  have kept : 7 ∉ s₃.state.members .free := fun free =>
    absurd (r₃.faithful.sound.threaded.apart young free) (by decide)
  have swept : 6 ∈ s₃.state.members .free := List.mem_of_mem_tail later
  have x₃ : ⟨x, (.nil, .nil), true⟩ ∈ l₂.record ⟨.fullCollect [a], o⟩ s₃.state :=
    List.mem_append_left _ (List.mem_map.mpr ⟨_, x₂, by simp [Allocation.after, six, swept]; rfl⟩)
  have a₃ : ⟨a, (f, .nil), false⟩ ∈ l₂.record ⟨.fullCollect [a], o⟩ s₃.state :=
    List.mem_append_left _ (List.mem_map.mpr ⟨_, a₂, by simp [Allocation.after, seven, kept]; rfl⟩)
  obtain ⟨front, back, shape⟩ := List.append_of_mem later
  obtain ⟨y, l₄, s₄, r₄, keeps₄, y₄, eight, row⟩ := r₃.cons_next
    (List.cons_head?_tail (Option.mem_def.mpr next)).symm (nil _) (nil _)
  obtain ⟨z, l₅, s₅, r₅, keeps₅, z₅, same⟩ := r₄.recycles (row.trans shape) (entry (keeps₄ a₃)) (nil _)
  obtain rfl : z = x := by simpa [same, Except.toOption] using named
  obtain ⟨isPair, -, target⟩ := Ref.of_pair eight
  have y₅ := keeps₅ y₄
  have a₅ := keeps₅ (keeps₄ a₃)
  have writes := r₅.faithful.refines_store.setFirst _ y₅ rfl (by simp [Ref.isPair, isPair]) y (entry y₅)
  have wrote : (Act.setFirst y y).task s₅ = .ok none _ := Task.bind_of_ok (eq_ok_of_outcome writes)
  obtain ⟨l₆, r₆, gone₆, live₆, -⟩ := r₅.acted (by simp [Act.operands, entry y₅]) wrote
  have y₆ : ⟨y, (y, .nil), false⟩ ∈ l₆ := by
    simpa [Act.write, target] using live₆ _ y₅ rfl 8 (target (by decide))
  have a₆ : ⟨a, (f, .nil), false⟩ ∈ l₆ := by
    simpa [Act.write, seven, target] using live₆ _ a₅ rfl 7 seven
  have z₆ : ⟨z, (a, .nil), false⟩ ∈ l₆ := by
    simpa [Act.write, six, target] using live₆ _ z₅ rfl 6 six
  have becomes := r₆.faithful.refines_store.setActor _ a₆ rfl isActor f y isFunc (entry y₆)
  have became : (Act.setActor a f y).task _ = .ok none _ := Task.bind_of_ok (eq_ok_of_outcome becomes)
  obtain ⟨l₇, r₇, gone₇, live₇, -⟩ := r₆.acted (by simp [Act.operands, entry y₆, entry a₆, noCell]) became
  refine ⟨l₇, _, z, y, a, f, r₇, gone₇ _ (gone₆ _ (keeps₅ (keeps₄ x₃)) rfl) rfl, ?_, by simp [Ref.isPair, isPair],
    ?_, isActor, ?_, r₇.refines⟩
  · simpa [Act.write, six, seven] using live₇ _ z₆ rfl 6 six
  · simpa [Act.write, target, seven] using live₇ _ y₆ rfl 8 (target (by decide))
  · simpa [Act.write, seven] using live₇ _ a₆ rfl 7 seven

end Treadmill

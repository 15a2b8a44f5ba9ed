import Mathlib
import Treadmill.Proofs.Layouts.Alike
import Treadmill.Proofs.Heap.Run

/-!
# Two runs in lockstep

Two tasks, each on a heap of its own layout, go in lockstep when from heaps that are alike both give
up or both answer the same, and leave heaps that are alike. They part only where one of them leaves
the range that the layouts share. An arena never shrinks, so that this shows at the end.
-/

namespace Treadmill
variable {L M : Layout} {α β γ δ : Type}

/-- References that mean the same. -/
def SameValue (r : Ref L) (u : Ref M) : Prop := r.value = u.value

/-- The greatest cell index that every layout has room for. -/
def sharedCells : Nat := Ref.maxCell .threeLow

theorem sharedCells_le (L : Layout) : sharedCells ≤ Ref.maxCell L := by
  cases L <;> decide

/-- A run has left the range that the layouts share: its arena has outgrown it, or it has asked for
a reference to a cell beyond what its layout has room for. -/
def Strayed (r : EStateM.Result Fault (Logged (Heap L)) α) : Prop :=
  sharedCells < (stateAfter r).state.cells.size ∨ ∃ i, outcomeOf r = .error (.cellRange i)

/-- Both runs give up or both answer the same, and the heaps they leave are alike. -/
inductive Agree (same : α → β → Prop) : EStateM.Result Fault (Logged (Heap L)) α →
    EStateM.Result Fault (Logged (Heap M)) β → Prop
  | answers {a : α} {b : β} {s : Logged (Heap L)} {t : Logged (Heap M)} (related : same a b)
      (alike : s.state.Alike t.state) : Agree same (.ok a s) (.ok b t)
  | faults {f g : Fault} {s : Logged (Heap L)} {t : Logged (Heap M)}
      (alike : s.state.Alike t.state) : Agree same (.error f s) (.error g t)

/-- Two tasks that agree wherever they start from heaps that are alike, unless one of them strays. -/
def Lockstep (same : α → β → Prop) (x : HeapTask L α) (y : HeapTask M β) : Prop :=
  ∀ (s : Logged (Heap L)) (t : Logged (Heap M)), s.state.Alike t.state →
    Agree same (x s) (y t) ∨ Strayed (x s) ∨ Strayed (y t)

/-! ### Arenas -/

/-- The arena never shrinks, whether the task succeeds or gives up. -/
class Grows (x : HeapTask L α) : Prop where
  arena : ∀ s, s.state.cells.size ≤ (stateAfter (x s)).state.cells.size

namespace Grows
variable {x : HeapTask L α} {k : α → HeapTask L β}

theorem of_alter {f : Heap L → Heap L} (keeps : ∀ h, h.cells.size ≤ (f h).cells.size) :
    Grows (Task.alter f) := ⟨fun s => keeps s.state⟩

theorem of_change {f : Heap L → α × Heap L} (keeps : ∀ h, h.cells.size ≤ (f h).2.cells.size) :
    Grows (Task.change f) := ⟨fun s => keeps s.state⟩

instance pure (a : α) : Grows (Pure.pure a : HeapTask L α) := ⟨fun _ => Nat.le_refl _⟩

instance throw (f : Fault) : Grows (MonadExcept.throw f : HeapTask L α) := ⟨fun _ => Nat.le_refl _⟩

instance view (f : Heap L → α) : Grows (Task.view f) := ⟨fun _ => Nat.le_refl _⟩

instance note (e : Event) : Grows (Task.note e : HeapTask L Unit) := ⟨fun _ => Nat.le_refl _⟩

instance admits (l : Level) : Grows (Task.admits l : HeapTask L Bool) := ⟨fun _ => Nat.le_refl _⟩

instance ofExcept (e : Except Fault α) : Grows (Task.ofExcept e : HeapTask L α) where
  arena s := by cases e <;> exact Nat.le_refl _

instance require (c : Bool) (f : Fault) : Grows (Task.require c f : HeapTask L Unit) where
  arena s := by cases c <;> exact Nat.le_refl _

instance ite {c : Prop} [Decidable c] {y : HeapTask L α} [Grows x] [Grows y] :
    Grows (if c then x else y) := by
  split <;> infer_instance

instance «when» {c : Bool} {x : HeapTask L Unit} [Grows x] : Grows (Task.when c x) := by
  cases c
  · exact pure ()
  · exact ‹Grows x›

theorem followed (first : Grows x) (rest : ∀ a, Grows (k a)) : Grows (x >>= k) := by
  refine ⟨fun s => ?_⟩
  rw [Task.bind_apply]
  have begun := first.arena s
  cases ran : x s with
  | ok a u =>
    rw [ran] at begun
    exact begun.trans ((rest a).arena u)
  | error f u =>
    rw [ran] at begun
    exact begun

instance bind [Grows x] [∀ a, Grows (k a)] : Grows (x >>= k) :=
  followed ‹_› ‹_›

/-- What follows on an answer that may be there or not. -/
instance (priority := low) bind_option {x : HeapTask L (Option α)} {k : Option α → HeapTask L β}
    [Grows x] [Grows (k none)] [∀ a, Grows (k (some a))] : Grows (x >>= k) :=
  followed ‹_› fun o => by cases o <;> infer_instance

instance forM {f : γ → HeapTask L Unit} [∀ c, Grows (f c)] (items : List γ) : Grows (items.forM f) := by
  induction items with
  | nil => exact pure ()
  | cons c items ih =>
    change Grows (f c >>= fun _ => items.forM f)
    infer_instance

theorem strayed_bind [∀ a, Grows (k a)] {s : Logged (Heap L)} (strayed : Strayed (x s)) :
    Strayed ((x >>= k) s) := by
  rw [Task.bind_apply]
  cases ran : x s with
  | error f u =>
    rw [ran] at strayed
    exact strayed.imp id fun ⟨i, range⟩ => ⟨i, congrArg _ (Except.error.inj range)⟩
  | ok a u =>
    rw [ran] at strayed
    refine Or.inl (lt_of_lt_of_le (strayed.resolve_right ?_) (arena (x := k a) u))
    simp [outcomeOf]

end Grows

/-! ### Lockstep -/

namespace Lockstep
variable {same : α → β → Prop} {after : γ → δ → Prop} {x : HeapTask L α} {y : HeapTask M β}

theorem pure {a : α} {b : β} (related : same a b) :
    Lockstep same (Pure.pure a : HeapTask L α) (Pure.pure b : HeapTask M β) :=
  fun _ _ alike => Or.inl (.answers related alike)

theorem throw (f g : Fault) :
    Lockstep same (MonadExcept.throw f : HeapTask L α) (MonadExcept.throw g : HeapTask M β) :=
  fun _ _ alike => Or.inl (.faults alike)

theorem view {f : Heap L → α} {g : Heap M → β} (related : ∀ {h k}, h.Alike k → same (f h) (g k)) :
    Lockstep same (Task.view f) (Task.view g) :=
  fun _ _ alike => Or.inl (.answers (related alike) alike)

theorem alter {f : Heap L → Heap L} {g : Heap M → Heap M}
    (related : ∀ {h k}, h.Alike k → (f h).Alike (g k)) :
    Lockstep Eq (Task.alter f) (Task.alter g) :=
  fun _ _ alike => Or.inl (.answers rfl (related alike))

theorem change {f : Heap L → α × Heap L} {g : Heap M → β × Heap M}
    (related : ∀ {h k}, h.Alike k → same (f h).1 (g k).1 ∧ (f h).2.Alike (g k).2) :
    Lockstep same (Task.change f) (Task.change g) :=
  fun _ _ alike => Or.inl (.answers (related alike).1 (related alike).2)

theorem note (d e : Event) : Lockstep Eq (Task.note d : HeapTask L Unit) (Task.note e : HeapTask M Unit) :=
  fun _ _ alike => Or.inl (.answers rfl alike)

theorem require {c d : Bool} {f g : Fault} (equal : c = d) :
    Lockstep Eq (Task.require c f : HeapTask L Unit) (Task.require d g : HeapTask M Unit) := by
  subst equal
  cases c
  · exact throw f g
  · exact pure rfl

theorem ofExcept {d e : Except Fault α} (equal : d = e) :
    Lockstep Eq (Task.ofExcept d : HeapTask L α) (Task.ofExcept e : HeapTask M α) := by
  subst equal
  cases d with
  | ok a => exact pure rfl
  | error f => exact throw f f

theorem ite {c d : Prop} [Decidable c] [Decidable d] {x' : HeapTask L α} {y' : HeapTask M β}
    (equal : c ↔ d) (yes : Lockstep same x y) (no : Lockstep same x' y') :
    Lockstep same (if c then x else x') (if d then y else y') := by
  by_cases holds : c
  · rw [if_pos holds, if_pos (equal.mp holds)]
    exact yes
  · rw [if_neg holds, if_neg (fun e => holds (equal.mpr e))]
    exact no

theorem bind {k : α → HeapTask L γ} {j : β → HeapTask M δ} [∀ a, Grows (k a)] [∀ b, Grows (j b)]
    (first : Lockstep same x y) (rest : ∀ {a b}, same a b → Lockstep after (k a) (j b)) :
    Lockstep after (x >>= k) (y >>= j) := by
  intro s t alike
  obtain agree | strayed | strayed := first s t alike
  · rw [Task.bind_apply, Task.bind_apply]
    generalize x s = r at agree
    generalize y t = q at agree
    cases agree with
    | answers related alike => exact rest related _ _ alike
    | faults alike => exact Or.inl (.faults alike)
  · exact Or.inr (Or.inl (Grows.strayed_bind strayed))
  · exact Or.inr (Or.inr (Grows.strayed_bind strayed))

/-- When the first answers are equal, one case is left for both. -/
theorem bind_eq {y : HeapTask M α} {k : α → HeapTask L γ} {j : α → HeapTask M δ} [∀ a, Grows (k a)]
    [∀ a, Grows (j a)] (first : Lockstep Eq x y) (rest : ∀ a, Lockstep after (k a) (j a)) :
    Lockstep after (x >>= k) (y >>= j) :=
  first.bind fun equal => equal ▸ rest _

/-- The first answer may be there or not. -/
theorem bind_option {x : HeapTask L (Option α)} {y : HeapTask M (Option α)}
    {k : Option α → HeapTask L γ} {j : Option α → HeapTask M δ} [Grows (k none)] [Grows (j none)]
    [∀ a, Grows (k (some a))] [∀ a, Grows (j (some a))] (first : Lockstep Eq x y)
    (without : Lockstep after (k none) (j none))
    (given : ∀ a, Lockstep after (k (some a)) (j (some a))) : Lockstep after (x >>= k) (y >>= j) := by
  have grows : ∀ o, Grows (k o) := by
    intro o
    cases o <;> infer_instance
  have grows' : ∀ o, Grows (j o) := by
    intro o
    cases o <;> infer_instance
  refine first.bind_eq fun o => ?_
  cases o with
  | none => exact without
  | some a => exact given a

theorem «when» {c d : Bool} {x : HeapTask L Unit} {y : HeapTask M Unit} (equal : c = d)
    (both : Lockstep Eq x y) : Lockstep Eq (Task.when c x) (Task.when d y) := by
  subst equal
  cases c
  · exact pure rfl
  · exact both

theorem forM {f : γ → HeapTask L Unit} {g : δ → HeapTask M Unit} [∀ c, Grows (f c)] [∀ d, Grows (g d)]
    {items : List γ} {others : List δ} {related : γ → δ → Prop} (pairs : List.Forall₂ related items others)
    (each : ∀ {c d}, related c d → Lockstep Eq (f c) (g d)) :
    Lockstep Eq (items.forM f) (others.forM g) := by
  induction pairs with
  | nil => exact pure rfl
  | @cons c d items others related _ ih =>
    change Lockstep Eq (f c >>= fun _ => items.forM f) (g d >>= fun _ => others.forM g)
    exact (each related).bind_eq fun _ => ih

end Lockstep

end Treadmill

import Mathlib
import Treadmill.Proofs.Passage

/-!
Tasks that work on nothing but references they have been given, read or made. `J s known` is what holds of a
state in which the references in `known` are at hand, and `Tends J known t` says that the task `t` leads from
any such state to another one, with what it answers at hand too. A task that is put together of such tasks is
found to be one by instance.
-/

namespace Treadmill
variable {L : Layout} {σ β δ : Type}

/-- The references that an answer consists of. -/
class HasRefs (L : Layout) (β : Type) where
  refs : β → List (Ref L)

instance (priority := low) noRefs : HasRefs L β := ⟨fun _ => []⟩

instance : HasRefs L (Ref L) := ⟨fun r => [r]⟩

instance : HasRefs L (Option (Ref L)) := ⟨Option.toList⟩

instance : HasRefs L (Ref L × Ref L) := ⟨fun c => [c.1, c.2]⟩

/-- Answers of this type contain no references. -/
class Refless (L : Layout) (β : Type) [HasRefs L β] : Prop where
  none : ∀ a : β, HasRefs.refs a = ([] : List (Ref L))

instance : @Refless L β noRefs := @Refless.mk L β noRefs fun _ => rfl

/-- The reference is listed, or it names no cell. -/
class Known (known : List (Ref L)) (v : Ref L) : Prop where
  listed : v ∈ known ∨ v.target? = none

namespace Known
variable {known : List (Ref L)} {v w : Ref L}

instance here : Known (v :: known) v := ⟨Or.inl (by simp)⟩

instance there [earlier : Known known v] : Known (w :: known) v :=
  ⟨earlier.listed.imp_left (List.mem_cons_of_mem w)⟩

instance answered : Known (HasRefs.refs v ++ known) v := ⟨Or.inl (by simp [HasRefs.refs])⟩

instance before [HasRefs L β] {a : β} [earlier : Known known v] : Known (HasRefs.refs a ++ known) v :=
  ⟨earlier.listed.imp_left (List.mem_append_right _)⟩

instance nil : Known known .nil := ⟨Or.inr Ref.target?_nil⟩

instance default {found : Option (Ref L)} [other : Known known v] :
    Known (HasRefs.refs found ++ known) (found.getD v) where
  listed := by
    cases found with
    | none => exact other.listed.imp_left (List.mem_append_right _)
    | some r => exact Or.inl (by simp [HasRefs.refs])

/-- What holds of everything that is listed, and of references that name no cell. -/
theorem holds [given : Known known v] {P : Ref L → Prop} (blank : ∀ w, w.target? = none → P w)
    (each : ∀ w ∈ known, P w) : P v :=
  given.listed.elim (each v) (blank v)

end Known

namespace Task
variable [HasRefs L β] [HasRefs L δ] {J : Logged σ → List (Ref L) → Prop} {known less : List (Ref L)}
  {t : Task σ β} {f : β → Task σ δ} {a : β} {fault : Fault} {s u : Logged σ} {v : Ref L}

/-- A reference that names no cell may be at hand, and there may be fewer at hand. -/
class Knows (J : Logged σ → List (Ref L) → Prop) : Prop where
  blank : ∀ {s known v}, J s known → v.target? = none → J s (v :: known)
  fewer : ∀ {s known less}, J s known → less ⊆ known → J s less

namespace Knows

theorem none [knows : Knows J] (holds : J s known) : J s [] := knows.fewer holds (by simp)

theorem refless [Refless L β] (holds : J s known) : J s (HasRefs.refs a ++ known) := by
  simpa [Refless.none] using holds

/-- What is known may be at hand once more. -/
theorem cons [knows : Knows J] [given : Known known v] (holds : J s known) : J s (v :: known) := by
  rcases given.listed with listed | none
  · exact knows.fewer holds (by simp [listed])
  · exact knows.blank holds none

end Knows

/-- From `s` the task leads to a state with what is known and the answer at hand if it succeeds. If it fails,
it leads to some state, unless it exhausts the arena. -/
def TendsAt (J : Logged σ → List (Ref L) → Prop) (known : List (Ref L)) (t : Task σ β) (s : Logged σ) : Prop :=
  match t s with
  | .ok a u => J u (HasRefs.refs a ++ known)
  | .error f u => f = .arenaExhausted ∨ J u []

/-- The task tends `J` from any state with the references in `known` at hand. -/
class Tends (J : Logged σ → List (Ref L) → Prop) (known : List (Ref L)) (t : Task σ β) : Prop where
  along : ∀ s, J s known → TendsAt J known t s

theorem tendsAt_ok (ran : t s = .ok a u) (next : J u (HasRefs.refs a ++ known)) : TendsAt J known t s := by
  rw [TendsAt, ran]
  exact next

theorem tendsAt_error (ran : t s = .error fault u) (next : J u []) : TendsAt J known t s := by
  rw [TendsAt, ran]
  exact Or.inr next

theorem TendsAt.stays [Knows J] (tends : TendsAt J known t s) (enough : outcomeOf (t s) ≠ .error .arenaExhausted) :
    J (stateAfter (t s)) [] := by
  unfold TendsAt at tends
  cases ran : t s with
  | ok a u =>
    rw [ran] at tends
    exact Knows.none tends
  | error f u =>
    rw [ran] at tends enough
    exact tends.resolve_left fun exhausted => enough (congrArg _ exhausted)

/-- What follows on a reference that is known already. -/
theorem TendsAt.mono [knows : Knows J] {more : List (Ref L)} (tends : TendsAt J more t s) (all : known ⊆ more) :
    TendsAt J known t s := by
  unfold TendsAt at tends ⊢
  cases ran : t s with
  | error fault u => rwa [ran] at tends
  | ok a u =>
    rw [ran] at tends
    exact knows.fewer tends (List.append_subset.mpr ⟨by simp, fun v on => List.mem_append_right _ (all on)⟩)

namespace Tends

theorem after [knows : Knows J] (first : Tends J known t) (rest : ∀ a, Tends J (HasRefs.refs a ++ known) (f a)) :
    Tends J known (t >>= f) where
  along s start := by
    have begun := first.along s start
    unfold TendsAt at begun ⊢
    rw [bind_apply]
    cases ran : t s with
    | error fault u =>
      rw [ran] at begun
      exact begun
    | ok a u =>
      rw [ran] at begun
      exact ((rest a).along u begun).mono (List.subset_append_right _ _)

instance bind [Knows J] [Tends J known t] [∀ a, Tends J (HasRefs.refs a ++ known) (f a)] :
    Tends J known (t >>= f) :=
  after ‹_› ‹_›

/-- What follows on two answers. -/
instance (priority := low) bind_pair [Knows J] {t : Task σ (Ref L × Ref L)} {f : Ref L × Ref L → Task σ δ}
    [Tends J known t] [∀ a b : Ref L, Tends J (a :: b :: known) (f (a, b))] : Tends J known (t >>= f) :=
  after ‹_› fun (a, b) => inferInstanceAs (Tends J (a :: b :: known) (f (a, b)))

/-- A reference that is known need not be listed once more. -/
theorem of_known [Knows J] {v : Ref L} [Known known v] (tends : Tends J (v :: known) t) : Tends J known t where
  along s start := (tends.along s (Knows.cons start)).mono (by simp)

/-- A task that changes nothing and answers with no reference. -/
theorem of_stay [Knows J] [Refless L β] (stays : ∀ s, stateAfter (t s) = s) : Tends J known t where
  along s start := by
    have same := stays s
    cases ran : t s with
    | ok a u =>
      rw [ran] at same
      obtain rfl : u = s := same
      exact tendsAt_ok ran (Knows.refless start)
    | error fault u =>
      rw [ran] at same
      obtain rfl : u = s := same
      exact tendsAt_error ran (Knows.none start)

variable [Knows J] {c : Bool} {w : Task σ Unit}

instance pure [Known known v] : Tends J known (Pure.pure v : Task σ (Ref L)) :=
  ⟨fun s start => show J s (v :: known) from Knows.cons start⟩

instance none : Tends J known (Pure.pure none : Task σ (Option (Ref L))) := ⟨fun _ start => start⟩

instance some [Known known v] : Tends J known (Pure.pure (some v) : Task σ (Option (Ref L))) :=
  ⟨fun s start => show J s (v :: known) from Knows.cons start⟩

instance pair {r : Ref L} [Known known v] [Known known r] :
    Tends J known (Pure.pure (v, r) : Task σ (Ref L × Ref L)) :=
  ⟨fun s start => show J s (v :: r :: known) from Knows.cons (Knows.cons start)⟩

instance value [Refless L β] (a : β) : Tends J known (Pure.pure a : Task σ β) := of_stay fun _ => rfl

instance throw (fault : Fault) : Tends J known (MonadExcept.throw fault : Task σ β) :=
  ⟨fun _ start => Or.inr (Knows.none start)⟩

instance view [Refless L β] (get : σ → β) : Tends J known (Task.view get) := of_stay fun _ => rfl

instance admits (l : Level) : Tends J known (Task.admits l : Task σ Bool) := of_stay fun _ => rfl

instance ofExcept [Refless L β] (e : Except Fault β) : Tends J known (Task.ofExcept e : Task σ β) :=
  of_stay fun _ => by cases e <;> rfl

instance require (fault : Fault) : Tends J known (Task.require c fault : Task σ Unit) :=
  of_stay fun _ => by cases c <;> rfl

omit [Knows J] in
instance ite {c : Prop} [Decidable c] {t u : Task σ β} [Tends J known t] [Tends J known u] :
    Tends J known (if c then t else u) := by
  split <;> infer_instance

instance «when» [Tends J known w] : Tends J known (Task.when c w) := by
  cases c
  · exact value ()
  · exact ‹Tends J known w›

instance noteFrom [∀ (known : List (Ref L)) (e : Event), Tends J known (Task.note e : Task σ Unit)] (l : Level)
    {t : Task σ Event} [∀ c : Bool, Tends J (HasRefs.refs c ++ known) t] :
    Tends J known (Task.noteFrom l t) := by
  unfold Task.noteFrom
  infer_instance

end Tends

end Task

end Treadmill

import Mathlib
import Treadmill.Proofs.Ends
import Treadmill.Proofs.Heap.Run

/-!
Where tasks may lead: `Passes R t` says that from every state the task `t` leads along the relation `R`,
whether it succeeds or gives up. A relation that states can be taken along one after another (`Passage`)
holds for a task that is put together of such tasks.
-/

namespace Treadmill.Task
variable {σ α β : Type} {R : Logged σ → Logged σ → Prop}

/-- What may come of one step or of none may come of two. -/
class Passage (R : Logged σ → Logged σ → Prop) : Prop where
  stay : ∀ s, R s s
  join : ∀ {s t u}, R s t → R t u → R s u

class Noting (R : Logged σ → Logged σ → Prop) : Prop where
  noted : ∀ s e, R s ⟨s.state, s.journal.add e⟩

class Passes (R : Logged σ → Logged σ → Prop) (t : Task σ α) : Prop where
  along : ∀ s, R s (stateAfter (t s))

namespace Passes
variable {t : Task σ α} {k : α → Task σ β}

theorem of_ok [passes : Passes R t] {s u : Logged σ} {a : α} (ran : t s = .ok a u) : R s u := by
  simpa [ran, stateAfter] using passes.along s

theorem of_error [passes : Passes R t] {s u : Logged σ} {f : Fault} (ran : t s = .error f u) : R s u := by
  simpa [ran, stateAfter] using passes.along s

theorem ends (passes : Passes R t) (s : Logged σ) {done : σ → Prop} (holds : ∀ u, R s u → done u.state) :
    t.Ends s (fun _ => done) fun _ => done := by
  have along := holds _ (passes.along s)
  unfold Ends
  cases ran : t s <;> simpa [ran, stateAfter] using along

theorem after_of_ends {s : Logged σ} {holds : σ → Prop} (ends : t.Ends s (fun _ => holds) fun _ => holds) :
    holds (stateAfter (t s)).state := by
  unfold Ends at ends
  cases ran : t s <;> simpa [ran, stateAfter] using ends

theorem imp {Q : Logged σ → Logged σ → Prop} (passes : Passes R t) (implies : ∀ {s u}, R s u → Q s u) :
    Passes Q t :=
  ⟨fun s => implies (passes.along s)⟩

variable [passage : Passage R]

/-- A task that leaves every state as it is. -/
theorem of_stay (stays : ∀ s, stateAfter (t s) = s) : Passes R t :=
  ⟨fun s => (stays s).symm ▸ passage.stay s⟩

instance pure (a : α) : Passes R (Pure.pure a : Task σ α) := of_stay fun _ => rfl

instance throw (f : Fault) : Passes R (MonadExcept.throw f : Task σ α) := of_stay fun _ => rfl

instance view (get : σ → α) : Passes R (Task.view get) := of_stay fun _ => rfl

instance admits (l : Level) : Passes R (Task.admits l) := of_stay fun _ => rfl

instance ofExcept (e : Except Fault α) : Passes R (Task.ofExcept e) := of_stay fun s => by cases e <;> rfl

instance require (c : Bool) (f : Fault) : Passes R (Task.require c f) := of_stay fun s => by cases c <;> rfl

instance note [noting : Noting R] (e : Event) : Passes R (Task.note e) := ⟨fun s => noting.noted s e⟩

instance ite {c : Prop} [Decidable c] {t u : Task σ α} [Passes R t] [Passes R u] :
    Passes R (if c then t else u) := by
  split <;> infer_instance

instance «when» {c : Bool} {t : Task σ Unit} [Passes R t] : Passes R (Task.when c t) := by
  cases c
  · exact pure ()
  · exact ‹Passes R t›

omit passage in
/-- The second task may be looked at where the first has led. -/
theorem followed (first : Passes R t) (rest : ∀ a s u, t s = .ok a u → R s (stateAfter (k a u))) :
    Passes R (t >>= k) := by
  refine ⟨fun s => ?_⟩
  rw [bind_apply]
  cases ran : t s with
  | ok a u => exact rest a s u ran
  | error f u => exact first.of_error ran

theorem after (first : Passes R t) (rest : ∀ a, Passes R (k a)) : Passes R (t >>= k) :=
  followed first fun a _ u ran => passage.join (first.of_ok ran) ((rest a).along u)

instance bind [Passes R t] [∀ a, Passes R (k a)] : Passes R (t >>= k) := after ‹_› ‹_›

instance noteFrom [Noting R] (l : Level) (t : Task σ Event) [Passes R t] : Passes R (Task.noteFrom l t) := by
  unfold Task.noteFrom
  infer_instance

instance forM (items : List α) (f : α → Task σ PUnit) [∀ a, Passes R (f a)] : Passes R (items.forM f) := by
  induction items with
  | nil => exact pure _
  | cons a items ih => exact after inferInstance fun _ => ih

end Passes

end Treadmill.Task

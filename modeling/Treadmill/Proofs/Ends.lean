import Mathlib
import Treadmill.Task

/-!
How a task ends, its journal left aside: `t.Ends s done failed` says that `done` holds of the answer
and the state if `t` succeeds from `s`, and `failed` of the fault and the state if it gives up.
-/

namespace Treadmill.Task
variable {σ α β : Type} {t : Task σ α} {k : α → Task σ β} {s u : Logged σ} {a : α} {f : Fault}
  {done next : α → σ → Prop} {after : β → σ → Prop} {failed failed' : Fault → σ → Prop}

def Ends (t : Task σ α) (s : Logged σ) (done : α → σ → Prop) (failed : Fault → σ → Prop) : Prop :=
  match t s with
  | .ok a u => done a u.state
  | .error f u => failed f u.state

theorem ends_of_ok (ran : t s = .ok a u) (holds : done a u.state) : t.Ends s done failed := by
  rw [Ends, ran]
  exact holds

theorem ends_of_error (ran : t s = .error f u) (holds : failed f u.state) : t.Ends s done failed := by
  rw [Ends, ran]
  exact holds

theorem Ends.of_ok (ends : t.Ends s done failed) (ran : t s = .ok a u) : done a u.state := by
  rwa [Ends, ran] at ends

/-- What holds of the answer if nothing is said of faults. -/
theorem Ends.answered (ends : t.Ends s done fun _ _ => True) (ran : t s = .ok a u) : done a u.state :=
  ends.of_ok ran

theorem Ends.of_error (ends : t.Ends s done failed) (ran : t s = .error f u) : failed f u.state := by
  rwa [Ends, ran] at ends

theorem Ends.mono (ends : t.Ends s done failed) (well : ∀ a w, done a w → next a w)
    (ill : ∀ f w, failed f w → failed' f w) : t.Ends s next failed' := by
  unfold Ends at ends ⊢
  split at ends
  · exact well _ _ ends
  · exact ill _ _ ends

theorem ends_trivial (t : Task σ α) (s : Logged σ) : t.Ends s (fun _ _ => True) fun _ _ => True := by
  unfold Ends
  split <;> trivial

theorem Ends.and {done' : α → σ → Prop} (ends : t.Ends s done failed) (ends' : t.Ends s done' failed') :
    t.Ends s (fun a w => done a w ∧ done' a w) (fun f w => failed f w ∧ failed' f w) := by
  unfold Ends at ends ends' ⊢
  cases ran : t s with
  | ok a u =>
    rw [ran] at ends ends'
    exact ⟨ends, ends'⟩
  | error f u =>
    rw [ran] at ends ends'
    exact ⟨ends, ends'⟩

theorem Ends.bind (ends : t.Ends s done failed)
    (rest : ∀ a u, done a u.state → (k a).Ends u after failed) :
    (t >>= k).Ends s after failed := by
  unfold Ends at ends ⊢
  rw [bind_apply]
  cases ran : t s with
  | ok a u =>
    rw [ran] at ends
    exact rest a u ends
  | error f u =>
    rw [ran] at ends
    exact ends

theorem ends_bind_ok (ran : t s = .ok a u) (rest : (k a).Ends u after failed) :
    (t >>= k).Ends s after failed := by
  rw [Ends, bind_apply, ran]
  exact rest

theorem ends_bind_error (ran : t s = .error f u) (holds : failed f u.state) :
    (t >>= k).Ends s after failed := by
  rw [Ends, bind_apply, ran]
  exact holds

theorem ends_pure (holds : done a s.state) : (pure a : Task σ α).Ends s done failed := holds

theorem ends_view {get : σ → α} (rest : (k (get s.state)).Ends s after failed) :
    (view get >>= k).Ends s after failed := rest

theorem ends_alter {change : σ → σ} {k : Unit → Task σ β}
    (rest : (k ()).Ends ⟨change s.state, s.journal⟩ after failed) :
    (alter change >>= k).Ends s after failed := rest

theorem ends_require {c : Bool} {k : Unit → Task σ β} (rest : c = true → (k ()).Ends s after failed)
    (refused : c = false → failed f s.state) : (require c f >>= k).Ends s after failed := by
  cases c with
  | true => exact rest rfl
  | false => exact refused rfl

theorem ends_ofExcept_last {e : Except Fault α} (holds : ∀ a, e = .ok a → done a s.state)
    (refused : ∀ f, e = .error f → failed f s.state) :
    (ofExcept e : Task σ α).Ends s done failed := by
  cases e with
  | ok a => exact holds a rfl
  | error f => exact refused f rfl

theorem ends_ofExcept {e : Except Fault α} (rest : ∀ a, e = .ok a → (k a).Ends s after failed)
    (refused : ∀ f, e = .error f → failed f s.state) : (ofExcept e >>= k).Ends s after failed := by
  cases e with
  | ok a => exact rest a rfl
  | error f => exact refused f rfl

end Treadmill.Task

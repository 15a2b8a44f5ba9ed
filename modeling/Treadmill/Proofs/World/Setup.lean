import Mathlib
import Treadmill.Proofs.World.Settled

/-!
What work on the queues of a world leaves alone: its names, its behaviors, what its host has set and the
count of its deliveries (`Steady`). A new behavior is put at the end of the table of behaviors
(`function_ends`), and a delivery is counted when it is closed (`closeLetter_setup`).
-/

namespace Treadmill

theorem Ref.asFunc_of_func {L : Layout} {n : Nat} {r : Ref L} (named : Ref.func n = .ok r) : r.asFunc = .ok n := by
  unfold func at named
  split at named
  · rename_i fits
    obtain rfl := Except.ok.inj named
    simp [Ref.asFunc, Ref.expect, Ref.kind_make, Ref.field_make, Ref.toNat_ofNat_of_fits fits, bind,
      Except.bind, pure, Except.pure]
  · cases named

namespace World
variable {L : Layout} {α γ β δ : Type}

/-- The part of a world that is no queue. -/
structure Setup (α γ : Type) where
  symbols : Symbols
  behaviors : Array (Behavior α)
  capacity : Nat
  delivered : Nat
  traced : Bool
  guest : γ

def setup (w : World L α γ) : Setup α γ :=
  ⟨w.symbols, w.behaviors, w.capacity, w.delivered, w.traced, w.guest⟩

/-- The task leaves the setup of its world as it is, whether it succeeds or gives up. -/
class Steady (t : WorldTask L α γ β) : Prop where
  setup : ∀ s, (stateAfter (t s)).state.setup = s.state.setup

namespace Steady
variable {t : WorldTask L α γ β} {k : β → WorldTask L α γ δ}

/-- A change of the fields that belong to the queues. -/
instance alter {heap : World L α γ → Heap L} {mailFirst mailLast inDelivery timers roots pool :
      World L α γ → Ref L} {pending delayed poolUsed poolMax : World L α γ → Nat}
    {now : World L α γ → Moment} :
    Steady (Task.alter fun w : World L α γ => ⟨heap w, w.symbols, w.behaviors, mailFirst w, mailLast w,
      pending w, w.capacity, inDelivery w, timers w, delayed w, roots w, pool w, poolUsed w, poolMax w,
      w.delivered, now w, w.traced, w.guest⟩) := ⟨fun _ => rfl⟩

instance countTaken : Steady (Task.alter World.countTaken : WorldTask L α γ Unit) := ⟨fun _ => rfl⟩

instance pure (a : β) : Steady (Pure.pure a : WorldTask L α γ β) := ⟨fun _ => rfl⟩

instance throw (f : Fault) : Steady (MonadExcept.throw f : WorldTask L α γ β) := ⟨fun _ => rfl⟩

instance view (get : World L α γ → β) : Steady (Task.view get) := ⟨fun _ => rfl⟩

instance note (e : Event) : Steady (Task.note e : WorldTask L α γ Unit) := ⟨fun _ => rfl⟩

instance ofExcept (e : Except Fault β) : Steady (Task.ofExcept e : WorldTask L α γ β) where
  setup s := by cases e <;> rfl

instance require (c : Bool) (f : Fault) : Steady (Task.require c f : WorldTask L α γ Unit) where
  setup s := by cases c <;> rfl

instance onHeap (t : HeapTask L β) : Steady (World.onHeap t : WorldTask L α γ β) where
  setup s := by
    rw [stateAfter_onHeap]
    rfl

instance lift (t : HeapTask L β) : Steady (liftM t : WorldTask L α γ β) := onHeap t

instance ite {c : Prop} [Decidable c] {t u : WorldTask L α γ β} [Steady t] [Steady u] :
    Steady (if c then t else u) := by
  split <;> infer_instance

instance «when» {c : Bool} {t : WorldTask L α γ Unit} [Steady t] : Steady (Task.when c t) := by
  cases c
  · exact pure ()
  · exact ‹Steady t›

theorem followed (first : Steady t) (rest : ∀ a, Steady (k a)) : Steady (t >>= k) := by
  refine ⟨fun s => ?_⟩
  rw [Task.bind_apply]
  have begun := first.setup s
  cases ran : t s with
  | ok a u =>
    rw [ran] at begun
    exact ((rest a).setup u).trans begun
  | error f u =>
    rw [ran] at begun
    exact begun

instance bind [Steady t] [∀ a, Steady (k a)] : Steady (t >>= k) := followed ‹_› ‹_›

end Steady

/-! ### Work on the queues -/

section
variable {first rest p node entry before target message r : Ref L} {reading due : Moment} {delay : Int}

instance : Steady (reuse p first rest : WorldTask L α γ (Ref L)) := by unfold reuse; infer_instance

instance : Steady (spareCell first rest : WorldTask L α γ (Ref L)) := by unfold spareCell; infer_instance

instance : Steady (take first rest : WorldTask L α γ (Ref L)) := by unfold take; infer_instance

instance : Steady (recycle p : WorldTask L α γ Unit) := by unfold recycle; infer_instance

instance : Steady (linkMail node : WorldTask L α γ Unit) := by unfold linkMail; infer_instance

instance : Steady (enqueue entry : WorldTask L α γ Unit) := by unfold enqueue; infer_instance

instance : Steady (send target message : WorldTask L α γ Unit) := by unfold send; infer_instance

instance : Steady (dequeue : WorldTask L α γ (Ref L)) := by unfold dequeue; infer_instance

instance : Steady (dueTime node : WorldTask L α γ Moment) := by unfold dueTime; infer_instance

instance (n : Nat) : Steady (timerPlaceFrom due n before node : WorldTask L α γ (Ref L × Ref L)) := by
  induction n generalizing before node with
  | zero => unfold timerPlaceFrom; infer_instance
  | succ n ih => unfold timerPlaceFrom; infer_instance

instance : Steady (linkTimer before node : WorldTask L α γ Unit) := by unfold linkTimer; infer_instance

instance : Steady (sendAfter delay target message : WorldTask L α γ Unit) := by
  unfold sendAfter
  iterate 4 refine Steady.followed inferInstance fun _ => ?_
  infer_instance

instance : Steady (fire node : WorldTask L α γ Unit) := by
  unfold fire
  iterate 5 refine Steady.followed inferInstance fun _ => ?_
  infer_instance

instance (n : Nat) : Steady (fireDue n : WorldTask L α γ Unit) := by
  induction n with
  | zero => unfold fireDue; infer_instance
  | succ n ih => unfold fireDue; infer_instance

instance : Steady (tick reading : WorldTask L α γ Unit) := by unfold tick; infer_instance

instance : Steady (addRoot r : WorldTask L α γ Unit) := by unfold addRoot; infer_instance

instance (item : Ref L → WorldTask L α γ β) [∀ r, Steady (item r)] (n : Nat) (seen : List β) :
    Steady (queueFrom item n node seen) := by
  induction n generalizing node seen with
  | zero => unfold queueFrom; infer_instance
  | succ n ih => unfold queueFrom; infer_instance

instance (item : Ref L → WorldTask L α γ β) [∀ r, Steady (item r)] : Steady (queue item node) := by
  unfold queue; infer_instance

instance : Steady (entryRefs entry : WorldTask L α γ (List (Ref L))) := by unfold entryRefs; infer_instance

instance : Steady (deliveringRefs : WorldTask L α γ (List (Ref L))) := by
  unfold deliveringRefs; infer_instance

instance : Steady (gatherRoots : WorldTask L α γ (List (Ref L))) := by
  unfold gatherRoots
  iterate 4 refine Steady.followed inferInstance fun _ => ?_
  infer_instance

instance : Steady (behaviorOf target : WorldTask L α γ (Behavior α)) := by
  unfold behaviorOf
  refine Steady.followed inferInstance fun f => Steady.followed inferInstance fun i =>
    Steady.followed inferInstance fun known => ?_
  split <;> infer_instance

instance (d : Delivery L) : Steady (announce d : WorldTask L α γ Unit) := by
  unfold announce; infer_instance

instance : Steady (openLetter : WorldTask L α γ (Opened L α)) := by unfold openLetter; infer_instance

end

theorem Steady.ends {t : WorldTask L α γ β} (steady : Steady t) (s : Logged (World L α γ)) :
    t.Ends s (fun _ u => u.setup = s.state.setup) (fun _ u => u.setup = s.state.setup) := by
  have same := steady.setup s
  unfold Task.Ends
  cases ran : t s <;> rwa [ran] at same

/-- A delivery that is closed is counted. -/
theorem closeLetter_setup (d : Opened L α) (s : Logged (World L α γ)) : (closeLetter d).Ends s
    (fun _ u => u.setup = { s.state.setup with delivered := s.state.delivered + 1 })
    (fun _ u => u.setup = s.state.setup) := by
  refine Task.ends_alter (Task.Ends.bind (Steady.ends inferInstance _) fun _ u same => ?_)
  refine Task.ends_of_ok (Task.alter_apply _ _) ?_
  have same : u.state.setup = s.state.setup := same
  have counted : u.state.delivered = s.state.delivered := congrArg Setup.delivered same
  change ({ u.state.setup with delivered := u.state.delivered + 1 } : Setup α γ) = _
  rw [same, counted]

/-! ### The table of behaviors -/

/-- The function reference `f` stands for the behavior `b`. -/
def Means (w : World L α γ) (f : Ref L) (b : Behavior α) : Prop :=
  ∃ n, f.asFunc = .ok n ∧ w.behaviors[n]? = some b

/-- Whatever stands for a behavior in `w` stands for it in `u`. -/
def Broadens (w u : World L α γ) : Prop :=
  ∀ (n : Nat) (b : Behavior α), w.behaviors[n]? = some b → u.behaviors[n]? = some b

/-- `u` is `w` with more behaviors. -/
structure Grown (w u : World L α γ) : Prop where
  broadens : w.Broadens u
  same : ∃ table, u = { w with behaviors := table }

variable {w u : World L α γ} {f : Ref L} {b c : Behavior α} {s : Logged (World L α γ)}
  {actor : Ref L} {i : Nat}

theorem Means.same (means : w.Means f b) (means' : w.Means f c) : b = c := by
  obtain ⟨n, isFunc, found⟩ := means
  obtain ⟨n', isFunc', found'⟩ := means'
  obtain rfl : n = n' := by simpa [isFunc] using isFunc'
  simpa [found] using found'

theorem Means.broadened (means : w.Means f b) (broadens : w.Broadens u) : u.Means f b := by
  obtain ⟨n, isFunc, found⟩ := means
  exact ⟨n, isFunc, broadens n b found⟩

theorem Means.isFunc (means : w.Means f b) : f.isFunc = true := by
  obtain ⟨n, isFunc, -⟩ := means
  by_contra other
  have other : ¬f.kind = .func := by simpa [Ref.isFunc] using other
  simp [Ref.asFunc, Ref.expect, other, bind, Except.bind] at isFunc

theorem Means.behaviorAt? (means : w.Means (w.heap.contents i).1 b) (target : actor.target? = some i) :
    w.behaviorAt? actor = some b := by
  obtain ⟨n, isFunc, found⟩ := means
  simp [World.behaviorAt?, target, isFunc, found, Except.toOption]

theorem broadens_of_behaviors (same : u.setup.behaviors = w.setup.behaviors) : w.Broadens u :=
  fun n b found => by rwa [show u.behaviors = w.behaviors from same]

theorem broadens_of_setup (same : u.setup = w.setup) : w.Broadens u :=
  broadens_of_behaviors (congrArg Setup.behaviors same)

section
variable [DecidableEq α]

/-- A behavior gets a reference of its own, and every other one keeps its reference, unless there is an
index in the table that no reference can carry. -/
theorem function_ends (b : Behavior α) : (World.function b).Ends s
    (fun f u => u.Means f b ∧ s.state.Grown u)
    (fun f u => s.state.Grown u ∧ ∃ n < u.behaviors.size, (Ref.func n : Except Fault (Ref L)) = .error f) := by
  refine Task.ends_view ?_
  cases known : s.state.behaviors.idxOf? b with
  | some n =>
    have found : s.state.behaviors[n]? = some b := by
      rw [← Array.idxOf?_toList] at known
      obtain ⟨inside, here, -⟩ := List.idxOf?_eq_some_iff.mp known
      rw [← Array.getElem?_toList, List.getElem?_eq_getElem inside, here]
    have same : s.state.Grown s.state := ⟨fun _ _ => id, _, rfl⟩
    exact Task.ends_ofExcept_last (fun f named => ⟨⟨n, Ref.asFunc_of_func named, found⟩, same⟩)
      fun f failed => ⟨same, n, (Array.getElem?_eq_some_iff.mp found).1, failed⟩
  | none =>
    have grown : s.state.Grown { s.state with behaviors := s.state.behaviors.push b } := by
      refine ⟨fun n c found => ?_, _, rfl⟩
      rw [Array.getElem?_push, if_neg ?_]
      · exact found
      · rintro rfl
        simp at found
    exact Task.ends_alter (Task.ends_ofExcept_last
      (fun f named => ⟨⟨_, Ref.asFunc_of_func named, by simp⟩, grown⟩) fun f failed =>
        ⟨grown, _, by simp, failed⟩)

/-- There is no room for another block of cells, or the table of behaviors has an index that no reference
can carry. -/
def NoRoom (f : Fault) (u : World L α γ) : Prop :=
  f = .arenaExhausted ∧ u.Full ∨
    ∃ n < u.behaviors.size, (Ref.func n : Except Fault (Ref L)) = .error f

/-- A new actor is made wherever there is room. -/
theorem createActor_ends (sound : s.state.heap.Sound) (b : Behavior α) {state : Ref L}
    (holds : s.state.heap.Holds state) : (createActor b state).Ends s
      (fun a u => ∃ f table k, u = { s.state with behaviors := table, heap := k } ∧ u.Means f b ∧
        Effect (.actorCell f state) s.state.heap (some a) k)
      NoRoom := by
  refine Task.Ends.bind ((function_ends b).mono (fun _ _ => id) fun _ _ failed => Or.inr failed.2) ?_
  rintro f u ⟨means, grown⟩
  obtain ⟨table, same⟩ := grown.same
  have held : ∀ v ∈ [f, state], u.state.heap.Holds v := by
    rw [same]
    simpa using ⟨(Heap.plain_of_target? (Ref.target?_of_isFunc means.isFunc)).holds, holds⟩
  rcases (Act.actorCell f state).outcome (s := ⟨u.state.heap, u.journal⟩)
    (by rw [same]; exact sound) held with ⟨g, refusal, refused⟩ | ⟨-, answer, k, j, done, effect⟩
  · rcases Task.bind_eq_error.mp refused with failed | ⟨_, _, -, failed⟩
    · refine Task.ends_of_error (onHeap_error failed) (Or.inl ?_)
      simp only [Act.refusal, means.isFunc] at refusal
      obtain ⟨⟨-, full⟩, rfl⟩ : u.state.heap.Short .free ∧ .arenaExhausted = g := by
        simpa using refusal
      exact ⟨rfl, full⟩
    · cases failed
  · obtain ⟨a, v, made, same'⟩ := Task.bind_eq_ok.mp done
    obtain ⟨rfl, rfl⟩ : some a = answer ∧ v = ⟨k, j⟩ := by simpa using same'
    refine Task.ends_of_ok (onHeap_ok made) ⟨f, table, k, by rw [same], means, ?_⟩
    rw [same] at effect
    exact effect

/-- An actor gets another behavior and state wherever there is room. -/
theorem becomeActor_ends (sound : s.state.heap.Sound) (holds : s.state.heap.Holds actor)
    (b : Behavior α) {state : Ref L} (holds' : s.state.heap.Holds state) :
    (becomeActor actor b state).Ends s
      (fun _ u => ∃ f table k, u = { s.state with behaviors := table, heap := k } ∧ u.Means f b ∧
        Effect (.setActor actor f state) s.state.heap none k)
      (fun f u => u.heap = s.state.heap ∧ (actor.isActor = true → NoRoom f u)) := by
  refine Task.Ends.bind ((function_ends b).mono (fun _ _ => id) ?_) ?_
  · rintro f u ⟨grown, unnamed⟩
    obtain ⟨table, rfl⟩ := grown.same
    exact ⟨rfl, fun _ => Or.inr unnamed⟩
  rintro f u ⟨means, grown⟩
  obtain ⟨table, same⟩ := grown.same
  have held : ∀ v ∈ [actor, f, state], u.state.heap.Holds v := by
    rw [same]
    simpa using
      ⟨holds, (Heap.plain_of_target? (Ref.target?_of_isFunc means.isFunc)).holds, holds'⟩
  rcases (Act.setActor actor f state).outcome (s := ⟨u.state.heap, u.journal⟩)
    (by rw [same]; exact sound) held with ⟨g, refusal, refused⟩ | ⟨-, answer, k, j, done, effect⟩
  · rcases Task.bind_eq_error.mp refused with failed | ⟨_, _, -, failed⟩
    · refine Task.ends_of_error (onHeap_error failed) ⟨by rw [same], fun isActor => ?_⟩
      simp [Act.refusal, isActor, means.isFunc] at refusal
    · cases failed
  · obtain ⟨_, v, wrote, same'⟩ := Task.bind_eq_ok.mp done
    obtain ⟨rfl, rfl⟩ : none = answer ∧ v = ⟨k, j⟩ := by simpa using same'
    refine Task.ends_of_ok (onHeap_ok wrote) ⟨f, table, k, by rw [same], means, ?_⟩
    rw [same] at effect
    exact effect

theorem functionCall_ends (b : Behavior α) :
    (do return some (← World.function b) : WorldTask L α γ (Option (Ref L))).Ends s
      (fun a u => (∀ f, a = some f → u.Means f b) ∧ s.state.Broadens u) (fun _ u => s.state.Broadens u) :=
  ((function_ends b).mono (fun _ _ => id) fun _ _ failed => failed.1.broadens).bind fun _ _ ⟨means, grown⟩ =>
    Task.ends_pure ⟨fun _ same => Option.some.inj same ▸ means, grown.broadens⟩

/-- A move leaves every behavior its reference. -/
theorem Point.broadens (p : Point L α γ) (m : Move L α γ) : p.world.Broadens (p.after m).world := by
  cases m with
  | call c =>
    cases c with
    | heap op =>
      rw [world_heap]
      exact fun _ _ => id
    | function b =>
      exact ends_outcome (P := fun _ u => p.world.Broadens u)
        ((functionCall_ends b).mono (fun _ _ => And.right) fun _ _ => id)
    | aside symbols guest journal => exact fun _ _ => id
    | send | sendAfter | addRoot | gatherRoots | tick =>
      refine broadens_of_setup ?_
      unfold Point.after Move.next Call.task
      exact Steady.setup _
  | opens =>
    refine broadens_of_setup ?_
    have steady := Steady.setup (t := openLetter) p.logged
    simp only [Point.after, Move.next]
    cases ran : openLetter p.logged <;> rwa [ran] at steady
  | closes =>
    refine broadens_of_behaviors ?_
    cases under : p.opened with
    | none => simp only [Point.after, Move.next, under]
    | some d =>
      have closed := closeLetter_setup d p.logged
      simp only [Point.after, Move.next, under]
      cases ran : closeLetter d p.logged with
      | ok _ u =>
        have same := congrArg Setup.behaviors (closed.of_ok ran)
        exact same
      | error f u =>
        have same := congrArg Setup.behaviors (closed.of_error ran)
        exact same
  | drops => exact fun _ _ => id

end

end World

end Treadmill

import Mathlib
import Treadmill.Proofs.Tends
import Treadmill.Proofs.World.Works

/-!
The behaviors that every world has work on nothing but what they have been given, read or made. So they tend
whatever their primitive steps tend (`Handles`).
-/

namespace Treadmill
open Treadmill.Task (Tends Knows)
variable {L : Layout} {α γ β δ : Type}

@[simp] theorem Ref.target?_atom (id : UInt32) : (atom id : Ref L).target? = none := by
  simp [target?, isCons, isPair, isActor, atom, kind_make]

namespace World
variable {s : Logged (World L α γ)}

theorem atom_apply (name : String) (s : Logged (World L α γ)) :
    atom name s = match s.state.symbols.intern name with
      | .ok (id, table) => .ok (.atom id) ⟨{ s.state with symbols := table }, s.journal⟩
      | .error fault => .error fault s := by
  unfold atom Task.attempt
  cases interned : s.state.symbols.intern name <;> simp [interned, bind, Except.bind, pure, Except.pure]

theorem onHeap_bind (t : HeapTask L β) (f : β → HeapTask L δ) :
    (onHeap (t >>= f) : WorldTask L α γ δ) = onHeap t >>= fun a => onHeap (f a) := by
  funext s
  rw [Task.bind_apply]
  cases ran : t ⟨s.state.heap, s.journal⟩ with
  | error fault u =>
    rw [onHeap_error ran, onHeap_error (Task.bind_eq_error.mpr (Or.inl ran))]
  | ok a u =>
    rw [onHeap_ok ran]
    dsimp only
    cases ran' : f a u with
    | ok b v =>
      rw [onHeap_ok (Task.bind_eq_ok.mpr ⟨a, u, ran, ran'⟩)]
      exact (onHeap_ok (s := ⟨{ s.state with heap := u.state }, u.journal⟩) ran').symm
    | error fault v =>
      rw [onHeap_error (Task.bind_eq_error.mpr (Or.inr ⟨a, u, ran, ran'⟩))]
      exact (onHeap_error (s := ⟨{ s.state with heap := u.state }, u.journal⟩) ran').symm

end World

/-! ### Tasks on the heap of a world -/

section
variable [HasRefs L β] [HasRefs L δ] {J : Logged (World L α γ) → List (Ref L) → Prop} [Knows J]
  {known : List (Ref L)} {v : Ref L}
open World (onHeap)

instance {t : HeapTask L β} {f : β → HeapTask L δ} [Tends J known (onHeap t : WorldTask L α γ β)]
    [∀ a, Tends J (HasRefs.refs a ++ known) (onHeap (f a) : WorldTask L α γ δ)] :
    Tends J known (onHeap (t >>= f) : WorldTask L α γ δ) := by
  rw [World.onHeap_bind]
  infer_instance

omit [Knows J] in
instance {c : Prop} [Decidable c] {t u : HeapTask L β} [Tends J known (onHeap t : WorldTask L α γ β)]
    [Tends J known (onHeap u : WorldTask L α γ β)] :
    Tends J known (onHeap (if c then t else u) : WorldTask L α γ β) := by
  split <;> infer_instance

instance [Known known v] : Tends J known (onHeap (Pure.pure v) : WorldTask L α γ (Ref L)) :=
  inferInstanceAs (Tends J known (Pure.pure v))

instance : Tends J known (onHeap (Pure.pure none) : WorldTask L α γ (Option (Ref L))) := .none

instance [Known known v] :
    Tends J known (onHeap (Pure.pure (some v)) : WorldTask L α γ (Option (Ref L))) := .some

instance [Refless L β] (a : β) : Tends J known (onHeap (Pure.pure a) : WorldTask L α γ β) := .value a

/-- Work on the heap that changes nothing and answers with no reference. -/
theorem World.tends_stay [Refless L β] {t : HeapTask L β} (stays : ∀ s, stateAfter (t s) = s) :
    Tends J known (onHeap t : WorldTask L α γ β) :=
  .of_stay fun s => by rw [World.stateAfter_onHeap_eq, stays]; rfl

instance (fault : Fault) : Tends J known (onHeap (MonadExcept.throw fault) : WorldTask L α γ (Ref L)) :=
  ⟨fun _ start => Or.inr (Knows.none start)⟩

instance (c : Bool) (fault : Fault) : Tends J known (onHeap (Task.require c fault) : WorldTask L α γ Unit) :=
  World.tends_stay fun _ => by cases c <;> rfl

instance : Tends J known (onHeap Heap.walkLimit : WorldTask L α γ Nat) := World.tends_stay fun _ => rfl

omit [Knows J] in
instance (t : HeapTask L β) [tends : Tends J known (onHeap t : WorldTask L α γ β)] :
    Tends J known (liftM t : WorldTask L α γ β) := tends

instance number (n : Int) : Tends J known (Task.ofExcept (Ref.number n) : WorldTask L α γ (Ref L)) where
  along s start := by
    cases named : (Ref.number n : Except Fault (Ref L)) with
    | ok r => exact Knows.blank start (Ref.of_number named).1
    | error fault => exact Or.inr (Knows.none start)

end

/-! ### Behaviors -/

/-- The steps that the behaviors of every world are made of tend `J`. -/
class World.Handles [DecidableEq α] (J : Logged (World L α γ) → List (Ref L) → Prop) : Prop extends Knows J where
  note (known : List (Ref L)) (e : Event) : Tends J known (Task.note e : WorldTask L α γ Unit)
  atom (known : List (Ref L)) (name : String) : Tends J known (World.atom name : WorldTask L α γ (Ref L))
  createActor (known : List (Ref L)) (b : Behavior α) (state : Ref L) [Known known state] :
    Tends J known (World.createActor b state : WorldTask L α γ (Ref L))
  send (known : List (Ref L)) (target message : Ref L) [Known known target] [Known known message] :
    Tends J known (World.send target message : WorldTask L α γ Unit)
  sendAfter (known : List (Ref L)) (delay : Int) (target message : Ref L) [Known known target]
    [Known known message] : Tends J known (World.sendAfter delay target message : WorldTask L α γ Unit)
  cons (known : List (Ref L)) (x y : Ref L) [Known known x] [Known known y] :
    Tends J known (World.onHeap (Heap.cons x y) : WorldTask L α γ (Ref L))
  first (known : List (Ref L)) (r : Ref L) [Known known r] :
    Tends J known (World.onHeap (Heap.first r) : WorldTask L α γ (Ref L))
  rest (known : List (Ref L)) (r : Ref L) [Known known r] :
    Tends J known (World.onHeap (Heap.rest r) : WorldTask L α γ (Ref L))
  behavior (known : List (Ref L)) (r : Ref L) [Known known r] :
    Tends J known (World.onHeap (Heap.behavior r) : WorldTask L α γ (Ref L))
  state (known : List (Ref L)) (r : Ref L) [Known known r] :
    Tends J known (World.onHeap (Heap.state r) : WorldTask L α γ (Ref L))
  setRest (known : List (Ref L)) (r v : Ref L) [Known known r] [Known known v] :
    Tends J known (World.onHeap (Heap.setRest r v) : WorldTask L α γ Unit)

attribute [instance] World.Handles.note World.Handles.atom World.Handles.createActor World.Handles.send
  World.Handles.sendAfter World.Handles.cons World.Handles.first World.Handles.rest World.Handles.behavior
  World.Handles.state World.Handles.setRest

/-- The behavior of `self` may give it another behavior and state. -/
class World.Becomes [DecidableEq α] (J : Logged (World L α γ) → List (Ref L) → Prop) (self : Ref L) : Prop where
  becomeActor (known : List (Ref L)) (b : Behavior α) (state : Ref L) [Known known self] [Known known state] :
    Tends J known (World.becomeActor self b state : WorldTask L α γ Unit)

attribute [instance] World.Becomes.becomeActor

namespace World
section
variable [DecidableEq α] {J : Logged (World L α γ) → List (Ref L) → Prop} [Handles J]
  {known : List (Ref L)}

section
variable {x y r key val map fallback actor state : Ref L} {name : String} {b : Behavior α} {n : Nat}

instance [Known known x] [Known known y] (n : Nat) :
    Tends J known (onHeap (Data.equalFrom n x y) : WorldTask L α γ Bool) := by
  induction n generalizing known x y with
  | zero => exact tends_stay fun _ => rfl
  | succ n ih => unfold Data.equalFrom; infer_instance

instance [Known known x] [Known known y] : Tends J known (onHeap (Data.equal x y) : WorldTask L α γ Bool) := by
  unfold Data.equal; infer_instance

instance [Known known r] (n : Nat) :
    Tends J known (onHeap (Data.mapFindFrom key n r) : WorldTask L α γ (Ref L)) := by
  induction n generalizing known r with
  | zero => unfold Data.mapFindFrom; infer_instance
  | succ n ih => unfold Data.mapFindFrom; infer_instance

instance [Known known map] : Tends J known (onHeap (Data.mapFind map key) : WorldTask L α γ (Ref L)) := by
  unfold Data.mapFind; infer_instance

instance [Known known map] [Known known fallback] :
    Tends J known (onHeap (Data.mapGetD map key fallback) : WorldTask L α γ (Ref L)) := by
  unfold Data.mapGetD Data.mapGet?
  infer_instance

instance [Known known map] [Known known key] [Known known val] :
    Tends J known (onHeap (Data.mapPut map key val) : WorldTask L α γ (Ref L)) := by
  unfold Data.mapPut; infer_instance

end

/-! ### Actors -/

section
variable {r actor : Ref L}

instance [Known known r] : Tends J known (shown r : WorldTask L α γ String) := by unfold shown; infer_instance

instance [Known known actor] : Tends J known (behaviorOf actor : WorldTask L α γ (Behavior α)) := by
  unfold behaviorOf
  refine Tends.after inferInstance fun f => Tends.after inferInstance fun i =>
    Tends.after inferInstance fun table => ?_
  split <;> infer_instance

end

end

end World

namespace Actor
open World (Handles Becomes)
variable [DecidableEq α] {J : Logged (World L α γ) → List (Ref L) → Prop} [Handles J]
  {known : List (Ref L)} {map val : Ref L} {key : String} {d : Delivery L}

instance [Known known map] : Tends J known (lookup map key : WorldTask L α γ (Ref L)) := by
  unfold lookup; infer_instance

instance [Known known map] [Known known val] : Tends J known (bind map key val : WorldTask L α γ (Ref L)) := by
  unfold bind; infer_instance

/-- What the behavior of a delivery has been given. -/
def given (d : Delivery L) : List (Ref L) := [d.this, d.what]

instance : Known (given d) d.this := ⟨Or.inl (by simp [given])⟩

instance : Known (given d) d.what := ⟨Or.inl (by simp [given])⟩

section
variable [Known known d.this] [Known known d.what]

instance : Tends J known (reportError d : WorldTask L α γ Unit) := by unfold reportError; infer_instance

instance : Tends J known (textOf d : WorldTask L α γ String) := by
  unfold textOf
  refine Tends.after inferInstance fun text => Tends.after inferInstance fun name => ?_
  split <;> infer_instance

instance : Tends J known (printText d : WorldTask L α γ Unit) := by unfold printText; infer_instance

instance : Tends J known (printLine d : WorldTask L α γ Unit) := by unfold printLine; infer_instance

instance : Tends J known (hello d : WorldTask L α γ Unit) := by
  unfold hello
  iterate 9 refine Tends.after inferInstance fun _ => ?_
  infer_instance

instance : Tends J known (rewind d : WorldTask L α γ Unit) := by unfold rewind; infer_instance

end

/-! ### Behaviors that become others -/

section
variable [Becomes J d.this] [Known known d.this] [Known known d.what] {sec time op : Ref L}

instance : Tends J known (retire d : WorldTask L α γ Unit) := by unfold retire; infer_instance

instance : Tends J known (check d : WorldTask L α γ Unit) := by
  unfold check
  iterate 6 refine Tends.after inferInstance fun _ => ?_
  split
  · infer_instance
  · iterate 2 refine Tends.after inferInstance fun _ => ?_
    infer_instance

instance : Tends J known (countdown d : WorldTask L α γ Unit) := by
  unfold countdown
  iterate 2 refine Tends.after inferInstance fun _ => ?_
  infer_instance

instance : Tends J known (eachSecond d : WorldTask L α γ Unit) := by
  unfold eachSecond
  iterate 7 refine Tends.after inferInstance fun _ => ?_
  split
  · infer_instance
  refine Tends.after inferInstance fun _ => ?_
  split
  · infer_instance
  · iterate 2 refine Tends.after inferInstance fun _ => ?_
    infer_instance

instance [Known known sec] [Known known time] :
    Tends J known (noticeSecond d sec time : WorldTask L α γ Unit) := by
  unfold noticeSecond
  refine Tends.after inferInstance fun _ => ?_
  infer_instance

instance [Known known op] : Tends J known (obey d op : WorldTask L α γ Unit) := by unfold obey; infer_instance

instance : Tends J known (ticker d : WorldTask L α γ Unit) := by
  unfold ticker
  iterate 5 refine Tends.after inferInstance fun _ => ?_
  infer_instance

end

section
variable {n : Int}

instance : Tends J known (sayHello : WorldTask L α γ (Ref L)) := by
  unfold sayHello
  iterate 10 refine Tends.after inferInstance fun _ => ?_
  infer_instance

instance : Tends J known (startTicker n : WorldTask L α γ (Ref L)) := by
  unfold startTicker
  iterate 9 refine Tends.after inferInstance fun _ => ?_
  infer_instance

end

end Actor

end Treadmill

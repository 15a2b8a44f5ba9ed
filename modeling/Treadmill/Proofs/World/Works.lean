import Mathlib
import Treadmill.Proofs.World.Calm
import Treadmill.World.Run

/-!
What a behavior can do to a world: it makes calls, one after another, that are open to behaviors
(`Called`). The behaviors that every world has do no more than that (`act_called`), and no such call
reads the clock, takes a message from the timers or counts a delivery (`Called.calm`).
-/

namespace Treadmill
open Treadmill.Task (Passage Noting Passes)
variable {L : Layout} {α γ β δ : Type}

theorem stateAfter_map {σ : Type} (t : Task σ β) (f : β → δ) (s : Logged σ) :
    stateAfter ((t >>= fun x => pure (f x)) s) = stateAfter (t s) := by
  rw [Task.bind_apply]
  cases t s <;> rfl

namespace Heap
variable {a b r v : Ref L}

/-- Operations on a heap, one after another, lead from `s` to `u`. -/
def Worked : Logged (Heap L) → Logged (Heap L) → Prop :=
  Relation.ReflTransGen fun s u => ∃ op : Op L, u = stateAfter (op.task s)

instance : Passage (Worked (L := L)) := ⟨fun _ => .refl, .trans⟩

theorem worked_op {t : HeapTask L β} {f : β → Option (Ref L)} (op : Op L)
    (same : op.task = (do return f (← t))) : Passes Worked t :=
  ⟨fun s => .single ⟨op, by rw [same, stateAfter_map]⟩⟩

instance : Passes Worked (cons a b) := worked_op (.act (.cons a b)) rfl

instance : Passes Worked (actorCell a b) := worked_op (.act (.actorCell a b)) rfl

instance : Passes Worked (first r) := worked_op (.act (.first r)) rfl

instance : Passes Worked (rest r) := worked_op (.act (.rest r)) rfl

instance : Passes Worked (setRest r v) := worked_op (.act (.setRest r v)) rfl

instance : Passes Worked (behavior r) := worked_op (.act (.behavior r)) rfl

instance : Passes Worked (state r) := worked_op (.act (.state r)) rfl

instance : Passes Worked (setActor r a b) := worked_op (.act (.setActor r a b)) rfl

instance : Passes Worked (traceStep : HeapTask L Bool) := worked_op .traceStep rfl

instance : Passes Worked (sweep : HeapTask L Unit) := worked_op .sweep rfl

instance : Passes Worked (walkLimit : HeapTask L Nat) := by unfold walkLimit; infer_instance

end Heap

namespace Data
open Heap
variable {x y key p map val fallback : Ref L}

instance (n : Nat) : Passes Worked (equalFrom n x y) := by
  induction n generalizing x y with
  | zero => unfold equalFrom; infer_instance
  | succ n ih => unfold equalFrom; infer_instance

instance : Passes Worked (equal x y) := by unfold equal; infer_instance

instance (n : Nat) : Passes Worked (mapFindFrom key n p) := by
  induction n generalizing p with
  | zero => unfold mapFindFrom; infer_instance
  | succ n ih => unfold mapFindFrom; infer_instance

instance : Passes Worked (mapFind map key) := by unfold mapFind; infer_instance

instance : Passes Worked (mapGetD map key fallback) := by unfold mapGetD mapGet?; infer_instance

instance : Passes Worked (mapPut map key val) := by unfold mapPut; infer_instance

end Data

namespace World
open Heap (Worked)
variable [DecidableEq α] {s u : Logged (World L α γ)} {target message actor state : Ref L} {d : Delivery L}
  {b : Behavior α} {delay : Int}

/-- Calls that are open to behaviors, one after another, lead from `s` to `u`. -/
def Called : Logged (World L α γ) → Logged (World L α γ) → Prop :=
  Relation.ReflTransGen fun s u => ∃ c : Call L α γ, c.isOuter = false ∧ u = stateAfter (c.task s)

instance : Passage (Called (L := L) (α := α) (γ := γ)) := ⟨fun _ => .refl, .trans⟩

theorem called_call {t : WorldTask L α γ β} {f : β → Option (Ref L)} (c : Call L α γ)
    (inner : c.isOuter = false) (same : c.task = (do return f (← t))) : Passes Called t :=
  ⟨fun s => .single ⟨c, inner, by rw [same, stateAfter_map]⟩⟩

instance : Noting (Called (L := L) (α := α) (γ := γ)) :=
  ⟨fun s e => .single ⟨.aside s.state.symbols s.state.guest (s.journal.add e), rfl, rfl⟩⟩

instance {name : String} : Passes Called (atom name : WorldTask L α γ (Ref L)) where
  along s := by
    unfold atom Task.attempt
    cases interned : s.state.symbols.intern name with
    | ok found =>
      obtain ⟨id, table⟩ := found
      simp only [interned, bind, Except.bind]
      exact .single ⟨.aside table s.state.guest s.journal, rfl, rfl⟩
    | error f =>
      simp only [interned, bind, Except.bind]
      exact .refl

omit [DecidableEq α] in
/-- The world `w` with its heap, and the journal, as in `v`. -/
def carrying (w : World L α γ) (v : Logged (Heap L)) : Logged (World L α γ) :=
  ⟨{ w with heap := v.state }, v.journal⟩

omit [DecidableEq α] in
theorem stateAfter_onHeap_eq (t : HeapTask L β) (s : Logged (World L α γ)) :
    stateAfter (onHeap t s) = carrying s.state (stateAfter (t ⟨s.state.heap, s.journal⟩)) := by
  cases ran : t ⟨s.state.heap, s.journal⟩ with
  | ok a u => rw [onHeap_ok ran]; rfl
  | error f u => rw [onHeap_error ran]; rfl

instance (t : HeapTask L β) [worked : Passes Worked t] : Passes Called (onHeap t : WorldTask L α γ β) where
  along s := by
    rw [stateAfter_onHeap_eq]
    refine Relation.ReflTransGen.lift (carrying s.state) (fun v w made => ?_) _ _
      (worked.along ⟨s.state.heap, s.journal⟩)
    obtain ⟨op, rfl⟩ := made
    refine ⟨.heap op, rfl, ?_⟩
    exact (stateAfter_onHeap_eq op.task (carrying s.state v)).symm

instance (t : HeapTask L β) [Passes Worked t] : Passes Called (liftM t : WorldTask L α γ β) :=
  inferInstanceAs (Passes Called (onHeap t))

instance : Passes Called (World.function b : WorldTask L α γ (Ref L)) := called_call (.function b) rfl rfl

instance : Passes Called (send target message : WorldTask L α γ Unit) :=
  called_call (f := fun _ => none) (.send target message) rfl rfl

instance : Passes Called (sendAfter delay target message : WorldTask L α γ Unit) :=
  called_call (f := fun _ => none) (.sendAfter delay target message) rfl rfl

instance : Passes Called (shown target : WorldTask L α γ String) := by unfold shown; infer_instance

instance : Passes Called (behaviorOf actor : WorldTask L α γ (Behavior α)) := by
  unfold behaviorOf
  refine Passes.after inferInstance fun f => Passes.after inferInstance fun i =>
    Passes.after inferInstance fun known => ?_
  split <;> infer_instance

instance : Passes Called (createActor b state : WorldTask L α γ (Ref L)) := by
  unfold createActor; infer_instance

instance : Passes Called (becomeActor actor b state : WorldTask L α γ Unit) := by
  unfold becomeActor; infer_instance

end World

namespace Actor
open World (Called)
variable [DecidableEq α] {map val sec time op : Ref L} {key : String} {d : Delivery L}

instance : Passes Called (lookup map key : WorldTask L α γ (Ref L)) := by unfold lookup; infer_instance

instance : Passes Called (bind map key val : WorldTask L α γ (Ref L)) := by unfold bind; infer_instance

instance : Passes Called (reportError d : WorldTask L α γ Unit) := by unfold reportError; infer_instance

instance : Passes Called (retire d : WorldTask L α γ Unit) := by unfold retire; infer_instance

instance : Passes Called (check d : WorldTask L α γ Unit) := by
  unfold check
  iterate 5 refine Passes.after inferInstance fun _ => ?_
  infer_instance

instance : Passes Called (trace d : WorldTask L α γ Unit) := by unfold trace; infer_instance

instance : Passes Called (textOf d : WorldTask L α γ String) := by
  unfold textOf
  refine Passes.after inferInstance fun text => Passes.after inferInstance fun name => ?_
  split <;> infer_instance

instance : Passes Called (printText d : WorldTask L α γ Unit) := by unfold printText; infer_instance

instance : Passes Called (printLine d : WorldTask L α γ Unit) := by unfold printLine; infer_instance

instance : Passes Called (hello d : WorldTask L α γ Unit) := by
  unfold hello
  iterate 5 refine Passes.after inferInstance fun _ => ?_
  infer_instance

instance : Passes Called (countdown d : WorldTask L α γ Unit) := by
  unfold countdown
  iterate 2 refine Passes.after inferInstance fun _ => ?_
  infer_instance

instance : Passes Called (eachSecond d : WorldTask L α γ Unit) := by
  unfold eachSecond
  iterate 7 refine Passes.after inferInstance fun _ => ?_
  infer_instance

instance : Passes Called (noticeSecond d sec time : WorldTask L α γ Unit) := by
  unfold noticeSecond
  iterate 2 refine Passes.after inferInstance fun _ => ?_
  infer_instance

instance : Passes Called (rewind d : WorldTask L α γ Unit) := by unfold rewind; infer_instance

instance : Passes Called (obey d op : WorldTask L α γ Unit) := by unfold obey; infer_instance

instance : Passes Called (ticker d : WorldTask L α γ Unit) := by
  unfold ticker
  iterate 2 refine Passes.after inferInstance fun _ => ?_
  infer_instance

end Actor

namespace World
variable [DecidableEq α] {s u : Logged (World L α γ)} {host : Host L α γ}

/-- What a behavior does comes down to such calls, if that holds of the behaviors of the host. -/
theorem act_called (works : ∀ name d, Passes Called (host name d)) (b : Behavior α) (d : Delivery L) :
    Passes Called (act host b d) := by
  cases b with
  | host name => exact works name d
  | sink | reportError | check | trace | printText | printLine | hello | countdown | eachSecond | ticker =>
    unfold act; infer_instance

theorem Call.calm (c : Call L α γ) (other : ∀ t, c ≠ .tick t) : Passes Calm c.task := by
  cases c with
  | aside symbols guest journal => exact ⟨fun _ => ⟨rfl, le_refl _, rfl, id⟩⟩
  | tick t => exact absurd rfl (other t)
  | heap | function | send | sendAfter | addRoot | gatherRoots => unfold Call.task; infer_instance

theorem Call.delivered (c : Call L α γ) (inner : c.isOuter = false) (s : Logged (World L α γ)) :
    (stateAfter (c.task s)).state.delivered = s.state.delivered := by
  cases c with
  | heap op =>
    rw [Call.task, stateAfter_onHeap_eq]
    rfl
  | function b =>
    have grown := (function_ends b (s := s)).mono (fun _ _ found => found.2.same) fun _ _ full => full.1.same
    rw [Call.task, stateAfter_map]
    obtain ⟨table, same⟩ := Passes.after_of_ends grown
    rw [same]
  | send target message =>
    rw [Call.task, stateAfter_map]
    exact congrArg Setup.delivered (Steady.setup s)
  | sendAfter delay target message =>
    rw [Call.task, stateAfter_map]
    exact congrArg Setup.delivered (Steady.setup s)
  | aside => rfl
  | addRoot | gatherRoots | tick => cases inner

theorem Called.calm (called : Called s u) : Calm s u ∧ u.state.delivered = s.state.delivered := by
  induction called with
  | refl => exact ⟨Passage.stay _, rfl⟩
  | tail _ call ih =>
    obtain ⟨c, inner, rfl⟩ := call
    have other : ∀ t, c ≠ .tick t := fun t same => by simp [same, Call.isOuter] at inner
    exact ⟨Passage.join ih.1 ((c.calm other).along _), (c.delivered inner _).trans ih.2⟩

end World

end Treadmill

import Mathlib
import Treadmill.Proofs.Layouts.Access

/-!
# Collections in lockstep

A cycle finds the same cells alive in both layouts. Of the journal only the level it keeps can tell
two runs apart: what a failed check has to report is put together only if it is kept, and it may be
this that gives up.
-/

namespace Treadmill.Heap
variable {L M : Layout} {r : Ref L} {u : Ref M} {α : Type}

instance : Grows (Task.alter aged : HeapTask L Unit) :=
  .of_alter fun h => (arena_splice h .aged .fresh).ge

instance : Grows (Task.alter swept : HeapTask L Unit) :=
  .of_alter fun h => (arena_splice h .free .aged).ge

instance (q : Ring) (i : Nat) : Grows (Task.alter (·.pushFront q i) : HeapTask L Unit) :=
  .of_alter fun _ => by simp

instance : Grows (age : HeapTask L Unit) := by
  unfold age
  infer_instance

instance (roots : List (Ref L)) : Grows (beginCollect roots) := by
  unfold beginCollect
  infer_instance

instance : Grows (traceStep : HeapTask L Bool) := by
  unfold traceStep
  infer_instance

instance : Grows (noteDeaths : HeapTask L Unit) := by
  unfold noteDeaths
  infer_instance

instance (l : Level) (t : HeapTask L Event) [Grows t] : Grows (Task.noteFrom l t) := by
  unfold Task.noteFrom
  infer_instance

instance : Grows (usage : HeapTask L Usage) := by
  unfold usage
  infer_instance

instance (q : Ring) : Grows (checkRing q : HeapTask L Unit) := by
  unfold checkRing
  refine .followed inferInstance fun counted => ?_
  cases counted <;> infer_instance

instance : Grows (checkAllRings : HeapTask L Unit) := by
  unfold checkAllRings
  change Grows (Ring.all.forM checkRing)
  infer_instance

instance : Grows (endCycle : HeapTask L Unit) := by
  unfold endCycle
  infer_instance

instance : Grows (sweep : HeapTask L Unit) := by
  unfold sweep
  infer_instance

instance (n done : Nat) : Grows (traceFrom n done : HeapTask L Nat) := by
  induction n generalizing done with
  | zero => exact Grows.throw _
  | succ n ih =>
    unfold traceFrom
    infer_instance

instance : Grows (traceAll : HeapTask L Nat) := by
  unfold traceAll
  infer_instance

instance : Grows (finishCollect : HeapTask L Unit) := by
  unfold finishCollect
  infer_instance

instance (roots : List (Ref L)) : Grows (fullCollect roots) := by
  unfold fullCollect
  infer_instance

/-! ### Checks -/

theorem reported_lockstep {α β : Type} {same : α → β → Prop} (l : Level) (d e : Usage → Event)
    (f g : Fault) :
    Lockstep same
      (Task.noteFrom l (do return d (← usage)) >>= fun _ => (throw f : HeapTask L α))
      (Task.noteFrom l (do return e (← usage)) >>= fun _ => (throw g : HeapTask M β)) := by
  intro s t alike
  obtain ⟨f', j, left, -⟩ := reported_fault (α := α) l d f s
  obtain ⟨g', j', right, -⟩ := reported_fault (α := β) l e g t
  rw [left, right]
  exact Or.inl (.faults alike)

theorem checkRing_lockstep (q : Ring) :
    Lockstep Eq (checkRing q : HeapTask L Unit) (checkRing q : HeapTask M Unit) := by
  intro s t alike
  have counted := alike.countChecked q
  have recorded := alike.size q
  simp only [checkRing, Task.bind_apply, Task.view_apply, ← counted]
  cases s.state.countChecked q with
  | error link => exact reported_lockstep .error _ _ _ _ s t alike
  | ok found =>
    simp only [Task.bind_apply, Task.view_apply, ← recorded]
    split
    · exact reported_lockstep .error _ _ _ _ s t alike
    · exact Or.inl (.answers rfl alike)

theorem checkAllRings_lockstep :
    Lockstep Eq (checkAllRings : HeapTask L Unit) (checkAllRings : HeapTask M Unit) := by
  have pairs : List.Forall₂ Eq Ring.all Ring.all := List.forall₂_refl Ring.all
  refine .forM pairs fun {p q} same => ?_
  subst same
  exact checkRing_lockstep p

/-! ### Cycles -/

theorem age_lockstep : Lockstep Eq (age : HeapTask L Unit) (age : HeapTask M Unit) := by
  refine (Lockstep.view fun alike => alike.collecting).bind_eq fun busy => ?_
  refine (Lockstep.require rfl).bind_eq fun _ => ?_
  refine (Lockstep.alter fun alike => alike.aged).bind_eq fun _ => ?_
  refine (Lockstep.view fun alike => alike.cycles).bind_eq fun cycles => ?_
  refine (Lockstep.view fun alike => alike.size .aged).bind_eq fun candidates => ?_
  refine (Lockstep.view fun alike => alike.phase).bind_eq fun phase => ?_
  exact .note _ _

theorem beginCollect_lockstep {roots : List (Ref L)} {others : List (Ref M)}
    (pairs : List.Forall₂ SameValue roots others) :
    Lockstep Eq (beginCollect roots) (beginCollect others) := by
  refine age_lockstep.bind_eq fun _ => ?_
  exact .forM pairs fun same => scanValue_lockstep same

theorem traceStep_lockstep :
    Lockstep Eq (traceStep : HeapTask L Bool) (traceStep : HeapTask M Bool) := by
  refine (Lockstep.change fun alike => alike.popFront .scan).bind_option (.pure rfl) fun i => ?_
  refine (fetch_lockstep i).bind fun cell => ?_
  refine (scanValue_lockstep cell.first).bind_eq fun _ => ?_
  refine (scanValue_lockstep cell.rest).bind_eq fun _ => ?_
  refine (Lockstep.alter fun alike => alike.pushFront .fresh i).bind_eq fun _ => ?_
  exact .pure rfl

theorem noteDeaths_lockstep :
    Lockstep Eq (noteDeaths : HeapTask L Unit) (noteDeaths : HeapTask M Unit) := by
  intro s t alike
  obtain ⟨j, left⟩ := noteDeaths_apply s
  obtain ⟨j', right⟩ := noteDeaths_apply t
  rw [left, right]
  exact Or.inl (.answers rfl alike)

theorem endCycle_lockstep : Lockstep Eq (endCycle : HeapTask L Unit) (endCycle : HeapTask M Unit) := by
  refine (Lockstep.view fun alike => alike.size .scan).bind_eq fun untraced => ?_
  refine (Lockstep.require rfl).bind_eq fun _ => ?_
  refine (Lockstep.view fun alike => alike.size .aged).bind_eq fun dead => ?_
  refine noteDeaths_lockstep.bind_eq fun _ => ?_
  refine (Lockstep.alter fun alike => alike.swept).bind_eq fun _ => ?_
  refine (Lockstep.view fun alike => alike.cycles).bind_eq fun cycles => ?_
  exact (Lockstep.note _ _).bind_eq fun _ => checkAllRings_lockstep

theorem sweep_lockstep : Lockstep Eq (sweep : HeapTask L Unit) (sweep : HeapTask M Unit) := by
  refine (Lockstep.view fun alike => alike.collecting).bind_eq fun collecting => ?_
  exact .ite Iff.rfl endCycle_lockstep (.note _ _)

theorem traceFrom_lockstep (n done : Nat) :
    Lockstep Eq (traceFrom n done : HeapTask L Nat) (traceFrom n done : HeapTask M Nat) := by
  induction n generalizing done with
  | zero => exact .throw _ _
  | succ n ih =>
    refine traceStep_lockstep.bind_eq fun more => ?_
    exact .ite Iff.rfl (ih (done + 1)) (.pure rfl)

theorem finishCollect_lockstep :
    Lockstep Eq (finishCollect : HeapTask L Unit) (finishCollect : HeapTask M Unit) := by
  refine Lockstep.bind_eq (x := (traceAll : HeapTask L Nat)) (y := traceAll) ?_ fun _ => sweep_lockstep
  refine (Lockstep.view fun alike => alike.arena).bind_eq fun arena => ?_
  exact traceFrom_lockstep _ 0

theorem fullCollect_lockstep {roots : List (Ref L)} {others : List (Ref M)}
    (pairs : List.Forall₂ SameValue roots others) :
    Lockstep Eq (fullCollect roots) (fullCollect others) := by
  refine (Lockstep.view fun alike => alike.collecting).bind_eq fun collecting => ?_
  refine (Lockstep.when rfl finishCollect_lockstep).bind_eq fun _ => ?_
  exact (beginCollect_lockstep pairs).bind_eq fun _ => finishCollect_lockstep

end Treadmill.Heap

import Mathlib
import Treadmill.Proofs.Passage
import Treadmill.Actor.Ticker
import Treadmill.Proofs.World.Delivery

/-!
What line printers have printed (`Journal.lines`). No other task prints a line (`Quiet`), so what is known of
the state that a task leaves behind is known along with the lines (`Task.Ends.quietly`).
-/

namespace Treadmill
open Treadmill.Task (Passage Passes)

/-- The line that an event prints. -/
def Event.line? : Event → Option String
  | .printedLine text => some text
  | _ => none

/-- The lines that have been printed. -/
def Journal.lines (j : Journal) : List String := j.events.toList.filterMap Event.line?

theorem Journal.lines_add (j : Journal) (e : Event) : (j.add e).lines = j.lines ++ e.line?.toList := by
  unfold add
  split
  · simp [lines, List.filterMap_append, List.filterMap_cons]
    cases e.line? <;> rfl
  · rename_i dropped
    have noLine : e.line? = none := by
      cases e <;> first | rfl | exact absurd rfl dropped
    simp [noLine]

/-- The event prints no line. -/
class Event.Mute (e : Event) : Prop where
  line : e.line? = none

/-- No line has been printed in between. -/
def Quiet {σ : Type} (s u : Logged σ) : Prop := u.journal.lines = s.journal.lines

variable {σ τ β : Type}

instance : Passage (Quiet (σ := σ)) := ⟨fun _ => rfl, fun one two => two.trans one⟩

namespace Quiet
variable {t : Task σ β} {e : Event}

section
variable {ring : Ring} {source target arena cycle freed found recorded pending capacity : Nat} {phase : Mark}
  {usage : Usage} {cell : Nat} {line message : Writing} {op : String}

instance : (Event.blockAdded ring arena).Mute := ⟨rfl⟩
instance : (Event.cycleBegun cycle found phase).Mute := ⟨rfl⟩
instance : (Event.cycleEnded cycle freed).Mute := ⟨rfl⟩
instance : Event.nothingToSweep.Mute := ⟨rfl⟩
instance : (Event.linkBroken ring source target usage).Mute := ⟨rfl⟩
instance : (Event.sizeMismatch ring found recorded usage).Mute := ⟨rfl⟩
instance : (Event.cellBorn cell phase).Mute := ⟨rfl⟩
instance : (Event.cellFixed cell).Mute := ⟨rfl⟩
instance : (Event.cellDied cell).Mute := ⟨rfl⟩
instance : (Event.overCapacity pending capacity).Mute := ⟨rfl⟩
instance : Event.cycleRefused.Mute := ⟨rfl⟩
instance : (Event.delivery line message).Mute := ⟨rfl⟩
instance : Event.tickerStopped.Mute := ⟨rfl⟩
instance : (Event.tickerPuzzled op).Mute := ⟨rfl⟩

end

instance alter (f : σ → σ) : Passes Quiet (Task.alter f) := ⟨fun _ => rfl⟩

instance change (f : σ → β × σ) : Passes Quiet (Task.change f) := ⟨fun _ => rfl⟩

instance attempt (f : σ → Except Fault (β × σ)) : Passes Quiet (Task.attempt f) := ⟨fun s => by
  unfold Task.attempt
  split <;> rfl⟩

instance note (e : Event) [mute : e.Mute] : Passes Quiet (Task.note e : Task σ Unit) := ⟨fun s => by
  simp [Quiet, stateAfter, Journal.lines_add, mute.line]⟩

instance noteFrom (l : Level) (e : β → Event) [Passes Quiet t] [∀ a, (e a).Mute] :
    Passes Quiet (Task.noteFrom l (t >>= fun a => pure (e a))) := by
  unfold Task.noteFrom
  simp only [bind_assoc, pure_bind]
  infer_instance

instance onPart {take : σ → τ} {put : τ → σ → σ} {vacant : τ} {t : Task τ β} [quiet : Passes Quiet t] :
    Passes Quiet (Task.onPart take put vacant t) := ⟨fun s => by
  have along := quiet.along ⟨take s.state, s.journal⟩
  unfold Task.onPart
  dsimp only
  cases ran : t ⟨take s.state, s.journal⟩ <;> simpa [ran, stateAfter] using! along⟩

end Quiet

/-! ### Work on cells -/

namespace Heap
variable {L : Layout} {r v first rest x y : Ref L} {i : Nat}

instance : Passes Quiet (fetch i : HeapTask L (Cell L)) := Passes.of_stay fun s => by
  unfold fetch
  split <;> rfl

instance : Passes Quiet (scanCell i : HeapTask L Unit) := by unfold scanCell; infer_instance

instance : Passes Quiet (scanValue r) := by unfold scanValue; infer_instance

instance : Passes Quiet (shade r) := by unfold shade; infer_instance

instance : Passes Quiet (approach r) := by unfold approach; infer_instance

instance : Passes Quiet (Heap.first r) := by unfold Heap.first; infer_instance

instance : Passes Quiet (Heap.rest r) := by unfold Heap.rest; infer_instance

instance : Passes Quiet (behavior r) := by unfold behavior; infer_instance

instance : Passes Quiet (state r) := by unfold state; infer_instance

instance : Passes Quiet (setFirst r v) := by unfold setFirst; infer_instance

instance : Passes Quiet (setRest r v) := by unfold setRest; infer_instance

instance : Passes Quiet (setActor r x y) := by unfold setActor; infer_instance

instance (q : Ring) : Passes Quiet (refillEmpty q : HeapTask L Unit) := by
  unfold refillEmpty refill; infer_instance

instance : Passes Quiet (takeFree : HeapTask L Nat) := by
  unfold takeFree
  refine Passes.after inferInstance fun _ => Passes.after inferInstance fun found => ?_
  split <;> infer_instance

instance : Passes Quiet (takeReserved : HeapTask L Nat) := by
  unfold takeReserved
  refine Passes.after inferInstance fun _ => Passes.after inferInstance fun found => ?_
  split <;> infer_instance

instance (e : Heap L → Event) [∀ h, (e h).Mute] : Passes Quiet (noteTraced e) := by
  unfold noteTraced
  refine Passes.after inferInstance fun traced => ?_
  cases traced
  · exact Passes.pure ()
  · refine ⟨fun s => ?_⟩
    exact (inferInstance : Passes Quiet (Task.note (e s.state))).along s

instance : Passes Quiet (cons x y) := by unfold cons; infer_instance

instance : Passes Quiet (perm x y) := by unfold perm; infer_instance

instance : Passes Quiet (actorCell x y) := by unfold actorCell; infer_instance

instance : Passes Quiet (walkLimit : HeapTask L Nat) := by unfold walkLimit; infer_instance

instance : Passes Quiet (age : HeapTask L Unit) := by unfold age; infer_instance

instance (roots : List (Ref L)) : Passes Quiet (beginCollect roots) := by unfold beginCollect; infer_instance

instance : Passes Quiet (traceStep : HeapTask L Bool) := by
  unfold traceStep
  refine Passes.after inferInstance fun found => ?_
  split <;> infer_instance

instance : Passes Quiet (noteDeaths : HeapTask L Unit) := by unfold noteDeaths; infer_instance

instance : Passes Quiet (usage : HeapTask L Usage) := by unfold usage; infer_instance

instance (q : Ring) : Passes Quiet (checkRing q : HeapTask L Unit) := by
  unfold checkRing
  refine Passes.after inferInstance fun checked => ?_
  split <;> infer_instance

instance : Passes Quiet (checkAllRings : HeapTask L Unit) := by unfold checkAllRings; infer_instance

instance : Passes Quiet (endCycle : HeapTask L Unit) := by
  unfold endCycle
  iterate 2 refine Passes.after inferInstance fun _ => ?_
  infer_instance

instance : Passes Quiet (sweep : HeapTask L Unit) := by unfold sweep; infer_instance

instance (n done : Nat) : Passes Quiet (traceFrom n done : HeapTask L Nat) := by
  induction n generalizing done with
  | zero => unfold traceFrom; infer_instance
  | succ n ih => unfold traceFrom; infer_instance

instance : Passes Quiet (finishCollect : HeapTask L Unit) := by unfold finishCollect traceAll; infer_instance

instance (roots : List (Ref L)) : Passes Quiet (fullCollect roots) := by unfold fullCollect; infer_instance

end Heap

/-! ### Maps -/

namespace Data
variable {L : Layout} {map key val fallback p : Ref L}

instance (n : Nat) : Passes Quiet (mapFindFrom key n p) := by
  induction n generalizing p with
  | zero => unfold mapFindFrom; infer_instance
  | succ n ih => unfold mapFindFrom; infer_instance

instance : Passes Quiet (mapGetD map key fallback) := by
  unfold mapGetD mapGet? mapFind; infer_instance

instance : Passes Quiet (mapPut map key val) := by unfold mapPut; infer_instance

end Data

/-! ### Worlds -/

namespace World
variable {L : Layout} {α γ : Type} {first rest p node entry before target message r : Ref L}
  {reading due : Moment} {delay : Int}

instance onHeap_quiet (t : HeapTask L β) [Passes Quiet t] : Passes Quiet (onHeap t : WorldTask L α γ β) := by
  unfold onHeap; infer_instance

instance lift_quiet (t : HeapTask L β) [Passes Quiet t] : Passes Quiet (liftM t : WorldTask L α γ β) :=
  onHeap_quiet t

instance (name : String) : Passes Quiet (atom name : WorldTask L α γ (Ref L)) := by unfold atom; infer_instance

instance : Passes Quiet (shown r : WorldTask L α γ String) := by unfold shown; infer_instance

instance : Passes Quiet (reuse p first rest : WorldTask L α γ (Ref L)) := by unfold reuse; infer_instance

instance : Passes Quiet (take first rest : WorldTask L α γ (Ref L)) := by unfold take spareCell; infer_instance

instance : Passes Quiet (recycle p : WorldTask L α γ Unit) := by unfold recycle; infer_instance

instance : Passes Quiet (linkMail node : WorldTask L α γ Unit) := by unfold linkMail; infer_instance

instance : Passes Quiet (enqueue entry : WorldTask L α γ Unit) := by unfold enqueue; infer_instance

instance : Passes Quiet (send target message : WorldTask L α γ Unit) := by unfold send; infer_instance

instance : Passes Quiet (dequeue : WorldTask L α γ (Ref L)) := by
  unfold dequeue
  iterate 2 refine Passes.after inferInstance fun _ => ?_
  infer_instance

instance : Passes Quiet (dueTime node : WorldTask L α γ Moment) := by unfold dueTime; infer_instance

instance (n : Nat) : Passes Quiet (timerPlaceFrom due n before node : WorldTask L α γ (Ref L × Ref L)) := by
  induction n generalizing before node with
  | zero => unfold timerPlaceFrom; infer_instance
  | succ n ih => unfold timerPlaceFrom; infer_instance

instance : Passes Quiet (linkTimer before node : WorldTask L α γ Unit) := by unfold linkTimer; infer_instance

instance : Passes Quiet (sendAfter delay target message : WorldTask L α γ Unit) := by
  unfold sendAfter
  iterate 6 refine Passes.after inferInstance fun _ => ?_
  infer_instance

instance : Passes Quiet (fire node : WorldTask L α γ Unit) := by
  unfold fire
  iterate 6 refine Passes.after inferInstance fun _ => ?_
  infer_instance

instance (n : Nat) : Passes Quiet (fireDue n : WorldTask L α γ Unit) := by
  induction n with
  | zero => unfold fireDue; infer_instance
  | succ n ih => unfold fireDue; infer_instance

instance : Passes Quiet (tick reading : WorldTask L α γ Unit) := by unfold tick; infer_instance

instance (item : Ref L → WorldTask L α γ β) [∀ r, Passes Quiet (item r)] (n : Nat) (seen : List β) :
    Passes Quiet (queueFrom item n node seen) := by
  induction n generalizing node seen with
  | zero => unfold queueFrom; infer_instance
  | succ n ih => unfold queueFrom; infer_instance

instance (item : Ref L → WorldTask L α γ β) [∀ r, Passes Quiet (item r)] : Passes Quiet (queue item node) := by
  unfold queue; infer_instance

instance : Passes Quiet (entryRefs entry : WorldTask L α γ (List (Ref L))) := by unfold entryRefs; infer_instance

instance : Passes Quiet (gatherRoots : WorldTask L α γ (List (Ref L))) := by
  unfold gatherRoots deliveringRefs
  iterate 7 refine Passes.after inferInstance fun _ => ?_
  infer_instance

instance : Passes Quiet (forceCollect : WorldTask L α γ Unit) := by unfold forceCollect; infer_instance

instance : Passes Quiet (behaviorOf target : WorldTask L α γ (Behavior α)) := by
  unfold behaviorOf
  refine Passes.after inferInstance fun f => Passes.after inferInstance fun i =>
    Passes.after inferInstance fun known => ?_
  split <;> infer_instance

instance (d : Delivery L) : Passes Quiet (announce d : WorldTask L α γ Unit) := by unfold announce; infer_instance

instance : Passes Quiet (openLetter : WorldTask L α γ (Opened L α)) := by
  unfold openLetter
  iterate 2 refine Passes.after inferInstance fun _ => ?_
  infer_instance

instance (d : Opened L α) : Passes Quiet (closeLetter d : WorldTask L α γ Unit) := by
  unfold closeLetter; infer_instance

variable [DecidableEq α] {known : Behavior α} {actor state : Ref L}

instance : Passes Quiet (World.function known : WorldTask L α γ (Ref L)) := by
  unfold World.function
  refine Passes.after inferInstance fun known => ?_
  split <;> infer_instance

instance : Passes Quiet (createActor known state : WorldTask L α γ (Ref L)) := by
  unfold createActor; infer_instance

instance : Passes Quiet (becomeActor actor known state : WorldTask L α γ Unit) := by
  unfold becomeActor; infer_instance

instance : Passes Quiet (startCollect : WorldTask L α γ Bool) := by
  unfold startCollect startCollectFrom
  iterate 2 refine Passes.after inferInstance fun _ => ?_
  infer_instance

end World

/-! ### The ticker and its counter -/

namespace Actor
variable {L : Layout} {α γ : Type} {map val sec time op : Ref L} {key : String} {d : Delivery L}

instance : Passes Quiet (lookup map key : WorldTask L α γ (Ref L)) := by unfold lookup; infer_instance

instance : Passes Quiet (bind map key val : WorldTask L α γ (Ref L)) := by unfold bind; infer_instance

instance : Passes Quiet (textOf d : WorldTask L α γ String) := by
  unfold textOf
  refine Passes.after inferInstance fun text => Passes.after inferInstance fun name => ?_
  split <;> infer_instance

variable [DecidableEq α]

instance : Passes Quiet (retire d : WorldTask L α γ Unit) := by unfold retire; infer_instance

instance : Passes Quiet (trace d : WorldTask L α γ Unit) := by unfold trace; infer_instance

instance : Passes Quiet (eachSecond d : WorldTask L α γ Unit) := by
  unfold eachSecond
  iterate 7 refine Passes.after inferInstance fun _ => ?_
  infer_instance

instance : Passes Quiet (noticeSecond d sec time : WorldTask L α γ Unit) := by
  unfold noticeSecond
  iterate 2 refine Passes.after inferInstance fun _ => ?_
  infer_instance

instance : Passes Quiet (rewind d : WorldTask L α γ Unit) := by unfold rewind; infer_instance

instance : Passes Quiet (obey d op : WorldTask L α γ Unit) := by unfold obey; infer_instance

instance : Passes Quiet (ticker d : WorldTask L α γ Unit) := by
  unfold ticker
  iterate 2 refine Passes.after inferInstance fun _ => ?_
  infer_instance

instance (count : Int) : Passes Quiet (startTicker count : WorldTask L α γ (Ref L)) := by
  unfold startTicker
  iterate 6 refine Passes.after inferInstance fun _ => ?_
  infer_instance

end Actor

/-! ### How a task ends, with its lines -/

namespace Task
variable {σ α β : Type} {t : Task σ α} {k : α → Task σ β} {s : Logged σ}

/-- How a task ends, with its journal. -/
def Finishes (t : Task σ α) (s : Logged σ) (done : α → Logged σ → Prop) (failed : Fault → Logged σ → Prop) : Prop :=
  match t s with
  | .ok a u => done a u
  | .error f u => failed f u

variable {done next : α → Logged σ → Prop} {after : β → Logged σ → Prop} {failed failed' : Fault → Logged σ → Prop}

theorem Finishes.of_ok {a : α} {u : Logged σ} (finishes : t.Finishes s done failed) (ran : t s = .ok a u) :
    done a u := by
  unfold Finishes at finishes
  rwa [ran] at finishes

theorem Finishes.congr {t' : Task σ α} (finishes : t.Finishes s done failed) (same : t' s = t s) :
    t'.Finishes s done failed := by
  unfold Finishes at finishes ⊢
  rwa [same]

/-- What the task answers is known by its equation, too. -/
theorem Finishes.ran (finishes : t.Finishes s done failed) :
    t.Finishes s (fun a u => t s = .ok a u ∧ done a u) failed := by
  unfold Finishes at finishes ⊢
  split at finishes
  next ran => exact ⟨ran, finishes⟩
  next => exact finishes

theorem finishes_of_ok {a : α} {u : Logged σ} (ran : t s = .ok a u) (holds : done a u) :
    t.Finishes s done failed := by
  unfold Finishes
  rwa [ran]

theorem Finishes.bind (first : t.Finishes s done failed) (rest : ∀ a u, done a u → (k a).Finishes u after failed) :
    (t >>= k).Finishes s after failed := by
  unfold Finishes at first ⊢
  rw [bind_apply]
  cases ran : t s with
  | ok a u =>
    rw [ran] at first
    exact rest a u first
  | error f u =>
    rw [ran] at first
    exact first

theorem finishes_view {γ : Type} {get : σ → γ} {k : γ → Task σ β} (rest : (k (get s.state)).Finishes s after failed) :
    (view get >>= k).Finishes s after failed := rest

theorem Finishes.mono (first : t.Finishes s done failed) (well : ∀ a u, done a u → next a u)
    (ill : ∀ f u, failed f u → failed' f u) : t.Finishes s next failed' := by
  unfold Finishes at first ⊢
  split at first
  · exact well _ _ first
  · exact ill _ _ first

variable {done : α → σ → Prop} {failed : Fault → σ → Prop}

/-- What holds of the state, and of the lines whichever way the task ends. -/
theorem Ends.finishes {lines : List String} (ends : t.Ends s done failed)
    (printed : (stateAfter (t s)).journal.lines = lines) : t.Finishes s
      (fun a u => done a u.state ∧ u.journal.lines = lines)
      fun f u => failed f u.state ∧ u.journal.lines = lines := by
  unfold Ends at ends
  unfold Finishes
  cases ran : t s <;> rw [ran] at ends printed <;> exact ⟨ends, printed⟩

theorem Ends.quietly [quiet : Passes Quiet t] (ends : t.Ends s done failed) : t.Finishes s
    (fun a u => done a u.state ∧ u.journal.lines = s.journal.lines)
    fun f u => failed f u.state ∧ u.journal.lines = s.journal.lines :=
  ends.finishes (quiet.along s)

end Task

end Treadmill

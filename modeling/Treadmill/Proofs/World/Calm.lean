import Mathlib
import Treadmill.Proofs.Heap.Moored
import Treadmill.Proofs.World.Setup

/-!
What only the clock does. Whatever else is asked of a world leaves the time that it shows as it is and
takes no message from its timers (`Calm`), be it with references to no cell in use; and a timer that has
fired has left its message in the mailbox (`tick_fills`).
-/

namespace Treadmill.World
open Treadmill.Task (Passage Noting Passes)
open Heap (Firm)
variable {L : Layout} {α γ β : Type} {s u : Logged (World L α γ)}
  {first rest p node entry before target message r : Ref L} {reading due : Moment} {delay : Int}

/-- The clock of `u` shows the same time, and no timer has fired since. -/
structure Calm (s u : Logged (World L α γ)) : Prop where
  now : u.state.now = s.state.now
  delayed : s.state.delayed ≤ u.state.delayed
  capacity : u.state.capacity = s.state.capacity
  moored : s.state.heap.Moored → u.state.heap.Moored

instance : Passage (Calm (L := L) (α := α) (γ := γ)) where
  stay _ := ⟨rfl, le_refl _, rfl, id⟩
  join one two :=
    ⟨two.now.trans one.now, one.delayed.trans two.delayed, two.capacity.trans one.capacity,
      two.moored ∘ one.moored⟩

instance : Noting (Calm (L := L) (α := α) (γ := γ)) := ⟨fun _ _ => ⟨rfl, le_refl _, rfl, id⟩⟩

def Afloat (s u : Logged (World L α γ)) : Prop := s.state.heap.Moored → u.state.heap.Moored

instance : Passage (Afloat (L := L) (α := α) (γ := γ)) := ⟨fun _ => id, fun one two => two ∘ one⟩

instance (priority := low) {t : WorldTask L α γ β} [calm : Passes Calm t] : Passes Afloat t :=
  calm.imp Calm.moored

/-- The mailbox stays as it is. -/
structure Unmailed (s u : Logged (World L α γ)) : Prop where
  first : u.state.mailFirst = s.state.mailFirst
  pending : u.state.pending = s.state.pending

instance : Passage (Unmailed (L := L) (α := α) (γ := γ)) where
  stay _ := ⟨rfl, rfl⟩
  join one two := ⟨two.first.trans one.first, two.pending.trans one.pending⟩

namespace Calm

/-- A change of the fields that neither the clock nor the timers own. -/
instance alter {symbols : World L α γ → Symbols} {behaviors : World L α γ → Array (Behavior α)}
    {mailFirst mailLast inDelivery timers roots pool : World L α γ → Ref L}
    {pending poolUsed poolMax delivered : World L α γ → Nat} {traced : World L α γ → Bool}
    {guest : World L α γ → γ} :
    Passes Calm (Task.alter fun w : World L α γ => ⟨w.heap, symbols w, behaviors w, mailFirst w, mailLast w,
      pending w, w.capacity, inDelivery w, timers w, w.delayed, roots w, pool w, poolUsed w, poolMax w,
      delivered w, w.now, traced w, guest w⟩) := ⟨fun _ => ⟨rfl, le_refl _, rfl, id⟩⟩

instance countTaken : Passes Calm (Task.alter World.countTaken : WorldTask L α γ Unit) :=
  ⟨fun _ => ⟨rfl, le_refl _, rfl, id⟩⟩

instance oneMore : Passes Calm (Task.alter fun w : World L α γ => { w with delayed := w.delayed + 1 }) :=
  ⟨fun _ => ⟨rfl, Nat.le_succ _, rfl, id⟩⟩

instance onHeap (t : HeapTask L β) [firm : Passes Firm t] :
    Passes Calm (World.onHeap t : WorldTask L α γ β) where
  along s := by
    have same := stateAfter_onHeap (α := α) (γ := γ) t s
    refine ⟨?_, ?_, ?_, ?_⟩ <;> rw [same]
    exact firm.along ⟨s.state.heap, s.journal⟩

instance lift (t : HeapTask L β) [Passes Firm t] : Passes Calm (liftM t : WorldTask L α γ β) := onHeap t

end Calm

namespace Unmailed

instance alter {heap : World L α γ → Heap L} {symbols : World L α γ → Symbols}
    {behaviors : World L α γ → Array (Behavior α)}
    {mailLast inDelivery timers roots pool : World L α γ → Ref L}
    {capacity delayed poolUsed poolMax delivered : World L α γ → Nat} {now : World L α γ → Moment}
    {traced : World L α γ → Bool} {guest : World L α γ → γ} :
    Passes Unmailed (Task.alter fun w : World L α γ => ⟨heap w, symbols w, behaviors w, w.mailFirst, mailLast w,
      w.pending, capacity w, inDelivery w, timers w, delayed w, roots w, pool w, poolUsed w, poolMax w,
      delivered w, now w, traced w, guest w⟩) := ⟨fun _ => ⟨rfl, rfl⟩⟩

instance onHeap (t : HeapTask L β) : Passes Unmailed (World.onHeap t : WorldTask L α γ β) where
  along s := by
    have same := stateAfter_onHeap (α := α) (γ := γ) t s
    constructor <;> rw [same]

instance lift (t : HeapTask L β) : Passes Unmailed (liftM t : WorldTask L α γ β) := onHeap t

end Unmailed

/-! ### Work on the queues -/

instance : Passes Calm (reuse p first rest : WorldTask L α γ (Ref L)) := by unfold reuse; infer_instance

instance : Passes Calm (spareCell first rest : WorldTask L α γ (Ref L)) := by unfold spareCell; infer_instance

instance : Passes Calm (take first rest : WorldTask L α γ (Ref L)) := by unfold take; infer_instance

instance : Passes Calm (recycle p : WorldTask L α γ Unit) := by unfold recycle; infer_instance

instance : Passes Calm (linkMail node : WorldTask L α γ Unit) := by unfold linkMail; infer_instance

instance : Passes Calm (enqueue entry : WorldTask L α γ Unit) := by unfold enqueue; infer_instance

instance : Passes Calm (send target message : WorldTask L α γ Unit) := by unfold send; infer_instance

instance : Passes Calm (dequeue : WorldTask L α γ (Ref L)) := by
  unfold dequeue
  iterate 2 refine Passes.after inferInstance fun _ => ?_
  infer_instance

instance : Passes Calm (dueTime node : WorldTask L α γ Moment) := by unfold dueTime; infer_instance

instance (n : Nat) : Passes Calm (timerPlaceFrom due n before node : WorldTask L α γ (Ref L × Ref L)) := by
  induction n generalizing before node with
  | zero => unfold timerPlaceFrom; infer_instance
  | succ n ih => unfold timerPlaceFrom; infer_instance

instance : Passes Calm (linkTimer before node : WorldTask L α γ Unit) := by unfold linkTimer; infer_instance

instance : Passes Calm (sendAfter delay target message : WorldTask L α γ Unit) := by
  unfold sendAfter
  iterate 6 refine Passes.after inferInstance fun _ => ?_
  infer_instance

instance : Passes Calm (addRoot r : WorldTask L α γ Unit) := by unfold addRoot; infer_instance

instance (item : Ref L → WorldTask L α γ β) [∀ r, Passes Calm (item r)] (n : Nat) (seen : List β) :
    Passes Calm (queueFrom item n node seen) := by
  induction n generalizing node seen with
  | zero => unfold queueFrom; infer_instance
  | succ n ih => unfold queueFrom; infer_instance

instance (item : Ref L → WorldTask L α γ β) [∀ r, Passes Calm (item r)] : Passes Calm (queue item node) := by
  unfold queue; infer_instance

instance : Passes Calm (entryRefs entry : WorldTask L α γ (List (Ref L))) := by unfold entryRefs; infer_instance

instance : Passes Calm (deliveringRefs : WorldTask L α γ (List (Ref L))) := by
  unfold deliveringRefs; infer_instance

instance : Passes Calm (gatherRoots : WorldTask L α γ (List (Ref L))) := by
  unfold gatherRoots
  iterate 6 refine Passes.after inferInstance fun _ => ?_
  infer_instance

instance : Passes Calm (behaviorOf target : WorldTask L α γ (Behavior α)) := by
  unfold behaviorOf
  refine Passes.after inferInstance fun f => Passes.after inferInstance fun i =>
    Passes.after inferInstance fun known => ?_
  split <;> infer_instance

instance (d : Delivery L) : Passes Calm (announce d : WorldTask L α γ Unit) := by
  unfold announce; infer_instance

instance : Passes Calm (openLetter : WorldTask L α γ (Opened L α)) := by
  unfold openLetter
  iterate 2 refine Passes.after inferInstance fun _ => ?_
  infer_instance

instance (d : Opened L α) : Passes Calm (closeLetter d : WorldTask L α γ Unit) := by
  unfold closeLetter; infer_instance

instance [DecidableEq α] (b : Behavior α) : Passes Calm (World.function b : WorldTask L α γ (Ref L)) := by
  unfold World.function
  refine Passes.after inferInstance fun known => ?_
  split <;> infer_instance

instance : Passes Afloat (Task.alter fun w : World L α γ => { w with delayed := w.delayed - 1 }) :=
  ⟨fun _ => id⟩

instance : Passes Afloat (Task.alter fun w : World L α γ => { w with now := reading }) := ⟨fun _ => id⟩

instance : Passes Afloat (fire node : WorldTask L α γ Unit) := by
  unfold fire
  iterate 7 refine Passes.after inferInstance fun _ => ?_
  infer_instance

instance (n : Nat) : Passes Afloat (fireDue n : WorldTask L α γ Unit) := by
  induction n with
  | zero => unfold fireDue; infer_instance
  | succ n ih => unfold fireDue; infer_instance

instance : Passes Afloat (tick reading : WorldTask L α γ Unit) := by unfold tick; infer_instance

/-! ### Timers that fire -/

instance : Passes Unmailed (recycle p : WorldTask L α γ Unit) := by unfold recycle; infer_instance

instance : Passes Unmailed (dueTime node : WorldTask L α γ Moment) := by unfold dueTime; infer_instance

theorem ends_of_heap {t : HeapTask L β} {done : β → Heap L → Prop} {failed : Fault → Heap L → Prop}
    (ends : t.Ends ⟨s.state.heap, s.journal⟩ done failed) :
    (onHeap t).Ends s (fun a u => done a u.heap) fun f u => failed f u.heap := by
  unfold Task.Ends at ends ⊢
  cases ran : t ⟨s.state.heap, s.journal⟩ with
  | ok a u =>
    rw [ran] at ends
    rw [onHeap_ok ran]
    exact ends
  | error f u =>
    rw [ran] at ends
    rw [onHeap_error ran]
    exact ends

/-- A queue cell is never the empty list. -/
theorem take_gives (moored : s.state.heap.Moored) (first rest : Ref L) :
    (take first rest).Ends s (fun p _ => p.isNil = false) fun _ _ => True := by
  refine Task.Ends.bind (?_ : Task.Ends _ s (fun p _ => p.isNil = false) _) fun p u given =>
    Task.ends_alter (Task.ends_pure given)
  refine Task.ends_view ?_
  cases pooled : s.state.pool.isNil with
  | true => exact ends_of_heap (Heap.perm_gives (s := ⟨s.state.heap, s.journal⟩) moored first rest)
  | false =>
    refine (Task.ends_trivial _ _).bind fun _ u _ => Task.ends_alter ?_
    exact (Task.ends_trivial _ _).bind fun _ _ _ => (Task.ends_trivial _ _).bind fun _ _ _ =>
      Task.ends_pure pooled

theorem Afloat.ends {t : WorldTask L α γ β} [afloat : Passes Afloat t] (moored : s.state.heap.Moored) :
    t.Ends s (fun _ u => u.heap.Moored) fun _ _ => True :=
  (afloat.ends s fun _ stays => stays moored).mono (fun _ _ => id) fun _ _ _ => trivial

theorem Unmailed.ends {t : WorldTask L α γ β} [unmailed : Passes Unmailed t]
    (filled : s.state.mailFirst.isNil = false) :
    t.Ends s (fun _ u => u.mailFirst.isNil = false) fun _ _ => True := by
  have stays : t.Ends s (fun _ u => u.mailFirst.isNil = false) fun _ u => u.mailFirst.isNil = false :=
    unmailed.ends s fun _ same => same.first ▸ filled
  exact stays.mono (fun _ _ => id) fun _ _ _ => trivial

theorem enqueue_fills (moored : s.state.heap.Moored) (entry : Ref L) :
    (enqueue entry).Ends s (fun _ u => u.mailFirst.isNil = false) fun _ _ => True := by
  refine (take_gives moored entry .nil).bind fun node u given => ?_
  refine Task.Ends.bind (Task.ends_view ?_ : Task.Ends _ u (fun _ v => v.mailFirst.isNil = false) _)
    fun _ u filled => Task.ends_of_ok (Task.alter_apply _ _) filled
  cases filled : u.state.mailFirst.isNil with
  | true => exact given
  | false => exact Task.ends_view (Unmailed.ends filled)

/-- A timer that has fired leaves something in the mailbox. -/
theorem fire_fills (moored : s.state.heap.Moored) (node : Ref L) :
    (fire node).Ends s (fun _ u => u.heap.Moored ∧ u.mailFirst.isNil = false) fun _ _ => True := by
  suffices filled : (fire node).Ends s (fun _ u => u.mailFirst.isNil = false) fun _ _ => True from
    ((Afloat.ends moored).and filled).mono (fun _ _ => id) fun _ _ _ => trivial
  refine (Afloat.ends moored).bind fun timer u moored => (Afloat.ends moored).bind fun time u moored =>
    (Afloat.ends moored).bind fun entry u moored => (Afloat.ends moored).bind fun next u moored => ?_
  refine Task.ends_alter (Task.ends_view (Task.ends_require (fun _ => Task.ends_alter ?_) fun _ => trivial))
  refine Task.Ends.bind (enqueue_fills ?_ entry) fun _ u filled => ?_
  · exact moored
  exact (Unmailed.ends filled).bind fun _ u filled => (Unmailed.ends filled).bind fun _ u filled =>
    Unmailed.ends filled

/-- If the mailbox is empty in the end no timer has fired. -/
theorem fireDue_fills (n : Nat) (moored : s.state.heap.Moored) : (fireDue n).Ends s
    (fun _ u => u.mailFirst.isNil = true →
      u.mailFirst = s.state.mailFirst ∧ u.pending = s.state.pending) fun _ _ => True := by
  induction n generalizing s with
  | zero => exact Task.ends_pure fun _ => ⟨rfl, rfl⟩
  | succ n ih =>
    refine Task.ends_view ?_
    split
    · exact Task.ends_pure fun _ => ⟨rfl, rfl⟩
    have asked : (dueTime s.state.timers).Ends s
        (fun _ u => u.heap.Moored ∧ u.mailFirst = s.state.mailFirst ∧ u.pending = s.state.pending)
        fun _ _ => True := by
      refine ((Afloat.ends moored).and (Passes.ends (R := Unmailed) inferInstance s fun u same => ?_)).mono
        (fun _ _ => id) fun _ _ _ => trivial
      exact ⟨same.first, same.pending⟩
    refine Task.ends_view (asked.bind fun due u ⟨moored, first, pending⟩ => ?_)
    split
    · exact Task.ends_pure fun _ => ⟨first, pending⟩
    · -- the first timer fills the mailbox, and the others take nothing out of it
      refine (fire_fills moored _).bind fun _ u ⟨moored, filled⟩ => ?_
      refine (ih moored).mono (fun _ v stays empty => ?_) fun _ _ => id
      rw [(stays empty).1, filled] at empty
      cases empty

theorem tick_fills (moored : s.state.heap.Moored) (reading : Moment) : (tick reading).Ends s
    (fun _ u => u.mailFirst.isNil = true → u.pending = s.state.pending) fun _ _ => True := by
  refine Task.ends_alter (Task.ends_view ?_)
  exact (fireDue_fills (s := ⟨{ s.state with now := reading }, s.journal⟩) _ moored).mono
    (fun _ _ stays empty => (stays empty).2) fun _ _ => id

end Treadmill.World

import Mathlib
import Treadmill.Proofs.Layouts.Lockstep

/-!
# The heap in lockstep

Reading, writing, allocating and collecting depend on what references mean, never on their words.
-/

namespace Treadmill.Heap
variable {L M : Layout} {a r x y : Ref L} {b u v w : Ref M} {i : Nat}

/-! ### Arenas -/

@[simp] theorem arena_insertBefore (h : Heap L) (i j : Nat) :
    (h.insertBefore i j).cells.size = h.cells.size := by
  simp [insertBefore]

@[simp] theorem arena_insertAfter (h : Heap L) (i j : Nat) :
    (h.insertAfter i j).cells.size = h.cells.size := by
  simp [insertAfter]

@[simp] theorem arena_pushBack (h : Heap L) (q : Ring) (i : Nat) :
    (h.pushBack q i).cells.size = h.cells.size := by
  simp [pushBack]

@[simp] theorem arena_pushFront (h : Heap L) (q : Ring) (i : Nat) :
    (h.pushFront q i).cells.size = h.cells.size := by
  simp [pushFront]

@[simp] theorem arena_withdraw (h : Heap L) (q : Ring) (i : Nat) :
    (h.withdraw q i).cells.size = h.cells.size := by
  simp [withdraw, extract]

@[simp] theorem arena_popFront (h : Heap L) (q : Ring) :
    (h.popFront q).2.cells.size = h.cells.size := by
  unfold popFront
  dsimp only
  split <;> simp

@[simp] theorem arena_popBack (h : Heap L) (q : Ring) :
    (h.popBack q).2.cells.size = h.cells.size := by
  unfold popBack
  dsimp only
  split <;> simp

@[simp] theorem arena_splice (h : Heap L) (p q : Ring) :
    (h.splice p q).cells.size = h.cells.size := by
  unfold splice
  dsimp only
  split <;> simp

@[simp] theorem arena_promote (h : Heap L) (i : Nat) : (h.promote i).cells.size = h.cells.size := by
  simp [promote]

@[simp] theorem arena_enroll (h : Heap L) (i : Nat) (x y : Ref L) :
    (h.enroll i x y).cells.size = h.cells.size := by
  simp [enroll]

/-! What changes the heap outright. -/

instance : Grows (Task.alter (·.promote i) : HeapTask L Unit) :=
  .of_alter fun _ => by simp

instance {f : Cell L → Cell L} : Grows (Task.alter (·.modifyCell i f) : HeapTask L Unit) :=
  .of_alter fun _ => by simp

instance : Grows (Task.alter (·.setSlots i x y) : HeapTask L Unit) :=
  .of_alter fun _ => by simp

instance (q : Ring) : Grows (Task.alter (·.extend q) : HeapTask L Unit) :=
  .of_alter fun _ => by simp [arena_extend]

instance (q : Ring) : Grows (Task.change (·.popFront q) : HeapTask L (Option Nat)) :=
  .of_change fun _ => by simp

instance (q : Ring) : Grows (Task.change (·.popBack q) : HeapTask L (Option Nat)) :=
  .of_change fun _ => by simp

instance : Grows (Task.alter (·.enroll i x y) : HeapTask L Unit) :=
  .of_alter fun _ => by simp

instance : Grows (Task.alter fun h => (h.setMark i .x).setSlots i x y : HeapTask L Unit) :=
  .of_alter fun _ => by simp

/-! What is made up of such changes. -/

instance : Grows (fetch i : HeapTask L (Cell L)) where
  arena s := by
    unfold fetch
    split <;> exact Nat.le_refl _

instance : Grows (scanCell i : HeapTask L Unit) := by
  unfold scanCell
  infer_instance

instance : Grows (scanValue r) := by
  unfold scanValue
  infer_instance

instance : Grows (shade r) := by
  unfold shade
  infer_instance

instance : Grows (approach r) := by
  unfold approach
  infer_instance

instance : Grows (markOf r) := by
  unfold markOf
  infer_instance

instance : Grows (first r) := by
  unfold first
  infer_instance

instance : Grows (rest r) := by
  unfold rest
  infer_instance

instance : Grows (behavior r) := by
  unfold behavior
  infer_instance

instance : Grows (state r) := by
  unfold state
  infer_instance

instance : Grows (setFirst r x) := by
  unfold setFirst
  infer_instance

instance : Grows (setRest r x) := by
  unfold setRest
  infer_instance

instance : Grows (setActor a x y) := by
  unfold setActor
  infer_instance

instance (q : Ring) : Grows (refill q : HeapTask L Unit) := by
  unfold refill
  infer_instance

instance (q : Ring) : Grows (refillEmpty q : HeapTask L Unit) := by
  unfold refillEmpty
  infer_instance

instance : Grows (takeFree : HeapTask L Nat) := by
  unfold takeFree
  infer_instance

instance : Grows (takeReserved : HeapTask L Nat) := by
  unfold takeReserved
  infer_instance

instance (e : Heap L → Event) : Grows (noteTraced e) := by
  unfold noteTraced
  infer_instance

instance : Grows (cons x y) := by
  unfold cons
  infer_instance

instance : Grows (perm x y) := by
  unfold perm
  infer_instance

instance : Grows (actorCell x y) := by
  unfold actorCell
  infer_instance

instance (items : List (Ref L)) (tail : Ref L) : Grows (consAll items tail) := by
  unfold consAll
  induction items with
  | nil => exact Grows.pure tail
  | cons c items ih =>
    rw [List.foldrM_cons]
    infer_instance

instance (items : List (Ref L)) : Grows (ofList items) := by
  unfold ofList
  infer_instance

instance : Grows (walkLimit : HeapTask L Nat) := by
  unfold walkLimit
  infer_instance

/-! ### Access -/

theorem fetch_lockstep (i : Nat) :
    Lockstep Cell.Alike (fetch i : HeapTask L (Cell L)) (fetch i : HeapTask M (Cell M)) := by
  intro s t alike
  refine Or.inl ?_
  by_cases inside : i < s.state.cells.size
  · have within : i < t.state.cells.size := alike.arena ▸ inside
    have cell := alike.cell i
    simp only [cellAt, Array.getD, inside, within, dif_pos] at cell
    simp only [fetch, Array.getElem?_eq_getElem, inside, within]
    exact .answers cell alike
  · have beyond : ¬ i < t.state.cells.size := alike.arena ▸ inside
    rw [fetch, fetch, Array.getElem?_eq_none (by omega), Array.getElem?_eq_none (by omega)]
    exact .faults alike

theorem scanCell_lockstep (i : Nat) :
    Lockstep Eq (scanCell i : HeapTask L Unit) (scanCell i : HeapTask M Unit) := by
  refine (fetch_lockstep i).bind fun {c d} cell => ?_
  refine (Lockstep.view fun alike => alike.lastPhase).bind_eq fun last => ?_
  refine .ite (by rw [cell.mark]) ?_ (.pure rfl)
  refine (Lockstep.view fun alike => alike.size .aged).bind_eq fun candidates => ?_
  refine (Lockstep.require rfl).bind_eq fun _ => ?_
  exact .alter fun alike => alike.promote i

theorem scanValue_lockstep (same : SameValue r u) : Lockstep Eq (scanValue r) (scanValue u) := by
  refine .ite (by rw [Ref.isCons_congr same, Ref.isActor_congr same]) ?_ (.pure rfl)
  exact (Lockstep.ofExcept (Ref.cell_congr same)).bind_eq fun i => scanCell_lockstep i

theorem shade_lockstep (same : SameValue r u) : Lockstep Eq (shade r) (shade u) := by
  refine (Lockstep.view fun alike => alike.collecting).bind_eq fun collecting => ?_
  exact .ite Iff.rfl (scanValue_lockstep same) (.pure rfl)

theorem approach_lockstep (same : SameValue r u) : Lockstep Eq (approach r) (approach u) := by
  refine (Lockstep.ofExcept (Ref.cell_congr same)).bind_eq fun i => ?_
  exact (scanCell_lockstep i).bind_eq fun _ => .pure rfl

theorem markOf_lockstep (same : SameValue r u) : Lockstep Eq (markOf r) (markOf u) := by
  refine (Lockstep.ofExcept (Ref.cell_congr same)).bind_eq fun i => ?_
  exact (fetch_lockstep i).bind fun cell => .pure cell.mark

/-- What is read of a cell once it is approached. -/
theorem read_lockstep {f : Cell L → Ref L} {g : Cell M → Ref M} (same : SameValue r u)
    (slot : ∀ {c d}, c.Alike d → SameValue (f c) (g d)) :
    Lockstep SameValue (do return f (← fetch (← approach r))) (do return g (← fetch (← approach u))) :=
  (approach_lockstep same).bind_eq fun i => (fetch_lockstep i).bind fun cell => .pure (slot cell)

theorem sameValue_nil : SameValue (.nil : Ref L) (.nil : Ref M) :=
  Ref.nil_value.trans Ref.nil_value.symm

theorem first_lockstep (same : SameValue r u) : Lockstep SameValue (first r) (first u) := by
  refine .ite (by rw [Ref.isNil_congr same]) (.pure sameValue_nil) ?_
  refine (Lockstep.require (Ref.isPair_congr same)).bind_eq fun _ => ?_
  exact read_lockstep same fun cell => cell.first

theorem rest_lockstep (same : SameValue r u) : Lockstep SameValue (rest r) (rest u) := by
  refine .ite (by rw [Ref.isNil_congr same]) (.pure sameValue_nil) ?_
  refine (Lockstep.require (Ref.isPair_congr same)).bind_eq fun _ => ?_
  exact read_lockstep same fun cell => cell.rest

theorem behavior_lockstep (same : SameValue r u) :
    Lockstep SameValue (behavior r) (behavior u) := by
  refine (Lockstep.require (Ref.isActor_congr same)).bind_eq fun _ => ?_
  exact read_lockstep same fun cell => cell.first

theorem state_lockstep (same : SameValue r u) : Lockstep SameValue (state r) (state u) := by
  refine (Lockstep.require (Ref.isActor_congr same)).bind_eq fun _ => ?_
  exact read_lockstep same fun cell => cell.rest

theorem setFirst_lockstep (same : SameValue r u) (stored : SameValue x v) :
    Lockstep Eq (setFirst r x) (setFirst u v) := by
  refine (Lockstep.require (Ref.isCons_congr same)).bind_eq fun _ => ?_
  refine (approach_lockstep same).bind_eq fun i => ?_
  refine (Lockstep.alter fun alike => alike.modifyCell i fun c => ?_).bind_eq fun _ =>
    shade_lockstep stored
  exact ⟨c.next, c.prev, c.mark, stored, c.rest⟩

theorem setRest_lockstep (same : SameValue r u) (stored : SameValue x v) :
    Lockstep Eq (setRest r x) (setRest u v) := by
  refine (Lockstep.require (Ref.isCons_congr same)).bind_eq fun _ => ?_
  refine (approach_lockstep same).bind_eq fun i => ?_
  refine (Lockstep.alter fun alike => alike.modifyCell i fun c => ?_).bind_eq fun _ =>
    shade_lockstep stored
  exact ⟨c.next, c.prev, c.mark, c.first, stored⟩

theorem setActor_lockstep (same : SameValue a b) (beh : SameValue x v) (st : SameValue y w) :
    Lockstep Eq (setActor a x y) (setActor b v w) := by
  refine (Lockstep.require (Ref.isActor_congr same)).bind_eq fun _ => ?_
  refine (Lockstep.require (Ref.isFunc_congr beh)).bind_eq fun _ => ?_
  refine (approach_lockstep same).bind_eq fun i => ?_
  refine (Lockstep.alter fun alike => ?_).bind_eq fun _ => shade_lockstep st
  exact alike.setSlots i beh st

/-! ### Allocation -/

/-- The one step that looks at the limits of a layout. Where only one of two layouts has room for the
block, the arena of that one outgrows what both have room for. -/
theorem refill_lockstep (q : Ring) :
    Lockstep Eq (refill q : HeapTask L Unit) (refill q : HeapTask M Unit) := by
  intro s t alike
  have room := sharedCells_le L
  have room' := sharedCells_le M
  by_cases fits : s.state.cells.size + blockCells ≤ Ref.maxCell L
  all_goals by_cases fits' : t.state.cells.size + blockCells ≤ Ref.maxCell M
  · refine Or.inl ?_
    simp only [refill, Task.bind_apply, Task.view_apply, fits, fits', decide_true, Task.require_true,
      Task.pure_apply, Task.alter_apply, Task.note_apply]
    exact .answers rfl (alike.extend q)
  · refine Or.inr (Or.inl (Or.inl ?_))
    simp only [refill, Task.bind_apply, Task.view_apply, fits, decide_true, Task.require_true,
      Task.pure_apply, Task.alter_apply, Task.note_apply, stateAfter, arena_extend]
    rw [alike.arena]
    omega
  · refine Or.inr (Or.inr (Or.inl ?_))
    simp only [refill, Task.bind_apply, Task.view_apply, fits', decide_true, Task.require_true,
      Task.pure_apply, Task.alter_apply, Task.note_apply, stateAfter, arena_extend]
    rw [← alike.arena]
    omega
  · refine Or.inl ?_
    simp only [refill, Task.bind_apply, Task.view_apply, fits, fits', decide_false, Task.require_false,
      Task.throw_apply]
    exact .faults alike

theorem refillEmpty_lockstep (q : Ring) :
    Lockstep Eq (refillEmpty q : HeapTask L Unit) (refillEmpty q : HeapTask M Unit) := by
  refine (Lockstep.view fun alike => alike.size q).bind_eq fun left => ?_
  exact .ite Iff.rfl (refill_lockstep q) (.pure rfl)

theorem takeFree_lockstep :
    Lockstep Eq (takeFree : HeapTask L Nat) (takeFree : HeapTask M Nat) := by
  refine (refillEmpty_lockstep .free).bind_eq fun _ => ?_
  exact (Lockstep.change fun alike => alike.popFront .free).bind_option (.throw _ _)
    fun i => .pure rfl

theorem takeReserved_lockstep :
    Lockstep Eq (takeReserved : HeapTask L Nat) (takeReserved : HeapTask M Nat) := by
  refine (refillEmpty_lockstep .perm).bind_eq fun _ => ?_
  exact (Lockstep.change fun alike => alike.popBack .perm).bind_option (.throw _ _)
    fun i => .pure rfl

/-- A reference to a cell, for which one of two layouts may have no room. -/
theorem named_lockstep (v : Value) (i : Nat)
    (refused : ∀ (L : Layout) f, (Ref.ofValue v : Except Fault (Ref L)) = .error f → f = .cellRange i) :
    Lockstep SameValue (Task.ofExcept (Ref.ofValue v) : HeapTask L (Ref L))
      (Task.ofExcept (Ref.ofValue v) : HeapTask M (Ref M)) := by
  intro s t alike
  cases named : (Ref.ofValue v : Except Fault (Ref L)) with
  | error f =>
    refine Or.inr (Or.inl (Or.inr ⟨i, ?_⟩))
    rw [Task.ofExcept_error, outcomeOf, refused L f named]
  | ok r =>
    cases named' : (Ref.ofValue v : Except Fault (Ref M)) with
    | error f =>
      refine Or.inr (Or.inr (Or.inr ⟨i, ?_⟩))
      rw [Task.ofExcept_error, outcomeOf, refused M f named']
    | ok u =>
      have same := (Ref.value_of_ofValue named).trans (Ref.value_of_ofValue named').symm
      exact Or.inl (.answers same alike)

theorem pair_lockstep (i : Nat) :
    Lockstep SameValue (Task.ofExcept (Ref.pair i) : HeapTask L (Ref L))
      (Task.ofExcept (Ref.pair i) : HeapTask M (Ref M)) := by
  refine named_lockstep (.pair i) i fun L f refused => ?_
  simp only [Ref.ofValue, Ref.pair] at refused
  split at refused
  · cases refused
  · exact (Except.error.inj refused).symm

theorem actor_lockstep (i : Nat) :
    Lockstep SameValue (Task.ofExcept (Ref.actor i) : HeapTask L (Ref L))
      (Task.ofExcept (Ref.actor i) : HeapTask M (Ref M)) := by
  refine named_lockstep (.actor i) i fun L f refused => ?_
  simp only [Ref.ofValue, Ref.actor] at refused
  split at refused
  · cases refused
  · exact (Except.error.inj refused).symm

/-- Whether a line is printed makes no difference to the heap. -/
theorem noteTraced_lockstep (d : Heap L → Event) (e : Heap M → Event) :
    Lockstep Eq (noteTraced d) (noteTraced e) := by
  intro s t alike
  obtain ⟨j, left⟩ := noteTraced_apply d s
  obtain ⟨j', right⟩ := noteTraced_apply e t
  rw [left, right]
  exact Or.inl (.answers rfl alike)

theorem cons_lockstep (first : SameValue x v) (rest : SameValue y w) :
    Lockstep SameValue (cons x y) (cons v w) := by
  refine takeFree_lockstep.bind_eq fun i => ?_
  refine (Lockstep.alter fun alike => alike.enroll i first rest).bind_eq fun _ => ?_
  refine (shade_lockstep first).bind_eq fun _ => ?_
  refine (shade_lockstep rest).bind_eq fun _ => ?_
  exact (noteTraced_lockstep _ _).bind_eq fun _ => pair_lockstep i

theorem perm_lockstep (first : SameValue x v) (rest : SameValue y w) :
    Lockstep SameValue (perm x y) (perm v w) := by
  refine takeReserved_lockstep.bind_eq fun i => ?_
  refine (Lockstep.alter fun alike => (alike.setMark i .x).setSlots i first rest).bind_eq fun _ => ?_
  refine (shade_lockstep first).bind_eq fun _ => ?_
  refine (shade_lockstep rest).bind_eq fun _ => ?_
  exact (noteTraced_lockstep _ _).bind_eq fun _ => pair_lockstep i

theorem actorCell_lockstep (beh : SameValue x v) (st : SameValue y w) :
    Lockstep SameValue (actorCell x y) (actorCell v w) := by
  refine (Lockstep.require (Ref.isFunc_congr beh)).bind_eq fun _ => ?_
  refine (cons_lockstep beh st).bind fun named => ?_
  exact (Lockstep.ofExcept (Ref.cell_congr named)).bind_eq fun i => actor_lockstep i

theorem consAll_lockstep {items : List (Ref L)} {others : List (Ref M)} {tail : Ref L} {end' : Ref M}
    (pairs : List.Forall₂ SameValue items others) (last : SameValue tail end') :
    Lockstep SameValue (consAll items tail) (consAll others end') := by
  unfold consAll
  induction pairs with
  | nil => exact .pure last
  | @cons c d items others same _ ih =>
    have made : Grows (items.foldrM cons tail) := by
      change Grows (consAll items tail)
      infer_instance
    have made' : Grows (others.foldrM cons end') := by
      change Grows (consAll others end')
      infer_instance
    rw [List.foldrM_cons, List.foldrM_cons]
    exact ih.bind fun tail => cons_lockstep same tail

theorem ofList_lockstep {items : List (Ref L)} {others : List (Ref M)}
    (pairs : List.Forall₂ SameValue items others) :
    Lockstep SameValue (ofList items) (ofList others) :=
  consAll_lockstep pairs sameValue_nil

theorem walkLimit_lockstep :
    Lockstep Eq (walkLimit : HeapTask L Nat) (walkLimit : HeapTask M Nat) := by
  refine (Lockstep.view fun alike => alike.arena).bind_eq fun arena => ?_
  exact .pure rfl

end Treadmill.Heap

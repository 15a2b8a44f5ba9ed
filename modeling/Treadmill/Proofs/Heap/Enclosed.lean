import Mathlib
import Treadmill.Proofs.Heap.Moored
import Treadmill.Proofs.Heap.Print
import Treadmill.Proofs.Tends

/-!
References that stay within the arena. Wherever references to cells of the arena alone are given to the
operations of a heap, none to another cell comes to stand in any slot, be it the slot of a free cell
(`Enclosed`). So whatever is found in a slot can be written out (`Enclosed.showFrom_whole`).
-/

namespace Treadmill.Heap
open Treadmill.Task (Passage Noting Passes Tends TendsAt Knows)
variable {L : Layout} {β : Type} {h k : Heap L} {i j n : Nat} {r v a b : Ref L} {q : Ring}

/-! ### What writes no slot -/

@[simp] theorem slots_pushBack (h : Heap L) (q : Ring) (i j : Nat) : (h.pushBack q i).slots j = h.slots j := by
  simp [pushBack, insertBefore]

@[simp] theorem slots_pushFront (h : Heap L) (q : Ring) (i j : Nat) : (h.pushFront q i).slots j = h.slots j := by
  simp [pushFront, insertAfter]

@[simp] theorem slots_withdraw (h : Heap L) (q : Ring) (i j : Nat) : (h.withdraw q i).slots j = h.slots j := by
  simp [withdraw, extract]

theorem slots_popFront (h : Heap L) (q : Ring) (j : Nat) : (h.popFront q).2.slots j = h.slots j := by
  unfold popFront
  dsimp only
  split <;> simp

theorem slots_popBack (h : Heap L) (q : Ring) (j : Nat) : (h.popBack q).2.slots j = h.slots j := by
  unfold popBack
  dsimp only
  split <;> simp

theorem slots_splice (h : Heap L) (p q : Ring) (j : Nat) : (h.splice p q).slots j = h.slots j := by
  unfold splice
  dsimp only
  split <;> simp

theorem slots_outside (outside : h.cells.size ≤ j) : h.slots j = [.nil, .nil] := by
  simp [slots, cellAt, Array.getD, Nat.not_lt.mpr outside, default, Cell.unlinked, Cell.slots]

/-- A new block holds nothing. -/
theorem slots_extend_all (h : Heap L) (q : Ring) (j : Nat) : (h.extend q).slots j = h.slots j := by
  by_cases old : j < h.cells.size
  · exact slots_extend old
  rw [slots_outside (Nat.not_lt.mp old)]
  by_cases new : j < h.cells.size + blockCells
  · obtain ⟨n, rfl⟩ : ∃ n, j = h.cells.size + n := ⟨j - h.cells.size, by omega⟩
    rw [extend_eq, slots_setSize, slots_setPrev, slots_setNext, slots, cellAt_grown_new (by omega)]
    rfl
  · exact slots_outside (by rw [arena_extend]; omega)

/-- The arena may have grown, and every slot holds what it held. -/
structure Unwritten (s u : Logged (Heap L)) : Prop where
  arena : s.state.cells.size ≤ u.state.cells.size
  slots : ∀ i, u.state.slots i = s.state.slots i

instance : Passage (Unwritten (L := L)) :=
  ⟨fun _ => ⟨le_refl _, fun _ => rfl⟩, fun one two =>
    ⟨one.arena.trans two.arena, fun i => (two.slots i).trans (one.slots i)⟩⟩

instance : Noting (Unwritten (L := L)) := ⟨fun _ _ => ⟨le_refl _, fun _ => rfl⟩⟩

theorem unwritten_alter {f : Heap L → Heap L} (arena : ∀ h, h.cells.size ≤ (f h).cells.size)
    (slots : ∀ h i, (f h).slots i = h.slots i) : Passes Unwritten (Task.alter f) :=
  ⟨fun s => ⟨arena s.state, slots s.state⟩⟩

theorem unwritten_change {f : Heap L → β × Heap L} (arena : ∀ h, h.cells.size ≤ (f h).2.cells.size)
    (slots : ∀ h i, (f h).2.slots i = h.slots i) : Passes Unwritten (Task.change f) :=
  ⟨fun s => ⟨arena s.state, slots s.state⟩⟩

section
variable {roots : List (Ref L)}

instance : Passes Unwritten (fetch i : HeapTask L (Cell L)) := Passes.of_stay fun s => by
  unfold fetch
  split <;> rfl

instance : Passes Unwritten (Task.alter (·.promote i) : HeapTask L Unit) :=
  unwritten_alter (fun _ => by simp) fun h => slots_promote h i

instance : Passes Unwritten (Task.alter (·.pushFront q i) : HeapTask L Unit) :=
  unwritten_alter (fun _ => by simp) fun h => slots_pushFront h q i

instance : Passes Unwritten (Task.alter (·.extend q) : HeapTask L Unit) :=
  unwritten_alter (fun h => by rw [arena_extend]; omega) fun h => slots_extend_all h q

instance : Passes Unwritten (Task.change (·.popFront q) : HeapTask L (Option Nat)) :=
  unwritten_change (fun _ => by simp) fun h => slots_popFront h q

instance : Passes Unwritten (Task.change (·.popBack q) : HeapTask L (Option Nat)) :=
  unwritten_change (fun _ => by simp) fun h => slots_popBack h q

instance : Passes Unwritten (Task.alter Heap.aged : HeapTask L Unit) :=
  unwritten_alter (fun h => (arena_splice h .aged .fresh).symm.le) fun h => slots_splice h .aged .fresh

instance : Passes Unwritten (Task.alter Heap.swept : HeapTask L Unit) :=
  unwritten_alter (fun h => (arena_splice h .free .aged).symm.le) fun h => slots_splice h .free .aged

instance : Passes Unwritten (scanCell i : HeapTask L Unit) := by unfold scanCell; infer_instance

instance : Passes Unwritten (scanValue r) := by unfold scanValue; infer_instance

instance : Passes Unwritten (shade r) := by unfold shade; infer_instance

instance : Passes Unwritten (approach r) := by unfold approach; infer_instance

instance : Passes Unwritten (refill q : HeapTask L Unit) := by unfold refill; infer_instance

instance : Passes Unwritten (refillEmpty q : HeapTask L Unit) := by unfold refillEmpty; infer_instance

instance : Passes Unwritten (takeFree : HeapTask L Nat) := by
  unfold takeFree
  refine Passes.after inferInstance fun _ => Passes.after inferInstance fun taken => ?_
  split <;> infer_instance

instance : Passes Unwritten (takeReserved : HeapTask L Nat) := by
  unfold takeReserved
  refine Passes.after inferInstance fun _ => Passes.after inferInstance fun taken => ?_
  split <;> infer_instance

instance (e : Heap L → Event) : Passes Unwritten (noteTraced e) := by unfold noteTraced; infer_instance

instance : Passes Unwritten (traceStep : HeapTask L Bool) := by
  unfold traceStep
  refine Passes.after inferInstance fun taken => ?_
  split <;> infer_instance

instance : Passes Unwritten (age : HeapTask L Unit) := by unfold age; infer_instance

instance : Passes Unwritten (beginCollect roots) := by unfold beginCollect; infer_instance

instance : Passes Unwritten (noteDeaths : HeapTask L Unit) := by unfold noteDeaths; infer_instance

instance : Passes Unwritten (usage : HeapTask L Usage) := by unfold usage; infer_instance

instance : Passes Unwritten (checkRing q : HeapTask L Unit) := by
  unfold checkRing
  refine Passes.after inferInstance fun checked => ?_
  split <;> infer_instance

instance : Passes Unwritten (checkAllRings : HeapTask L Unit) := by unfold checkAllRings; infer_instance

instance : Passes Unwritten (endCycle : HeapTask L Unit) := by
  unfold endCycle
  iterate 2 refine Passes.after inferInstance fun _ => ?_
  infer_instance

instance : Passes Unwritten (sweep : HeapTask L Unit) := by unfold sweep; infer_instance

instance (n done : Nat) : Passes Unwritten (traceFrom n done : HeapTask L Nat) := by
  induction n generalizing done with
  | zero => unfold traceFrom; infer_instance
  | succ n ih => unfold traceFrom; infer_instance

instance : Passes Unwritten (traceAll : HeapTask L Nat) := by unfold traceAll; infer_instance

instance : Passes Unwritten (finishCollect : HeapTask L Unit) := by unfold finishCollect; infer_instance

instance : Passes Unwritten (fullCollect roots) := by unfold fullCollect; infer_instance

theorem Unwritten.grows {t : HeapTask L β} (unwritten : Passes Unwritten t) : Grows t :=
  ⟨fun s => (unwritten.along s).arena⟩

theorem grows_op (op : Op L) : Grows op.task := by
  cases op with
  | act a => cases a <;> exact inferInstanceAs (Grows (_ >>= _))
  | age | beginCollect | traceStep | sweep | fullCollect =>
    exact Unwritten.grows (inferInstanceAs (Passes Unwritten (_ >>= _)))

end

/-! ### Enclosed heaps -/

/-- The reference names no cell or one of the arena. -/
def Encloses (h : Heap L) (v : Ref L) : Prop := ∀ i, v.target? = some i → i < h.cells.size

/-- Whatever stands in a slot names no cell or one of the arena. -/
structure Enclosed (h : Heap L) : Prop extends Moored h where
  slots : ∀ i, ∀ v ∈ h.slots i, h.Encloses v

theorem encloses_of_target? (none : v.target? = none) : h.Encloses v := fun i target => by simp [none] at target

theorem Encloses.mono (within : h.Encloses v) (arena : h.cells.size ≤ k.cells.size) : k.Encloses v :=
  fun i target => Nat.lt_of_lt_of_le (within i target) arena

theorem Holds.encloses (sound : h.Sound) (holds : h.Holds v) : h.Encloses v :=
  fun i target => (sound.threaded.inside_of_inUse (holds i target)).2

theorem Encloses.cell (within : h.Encloses r) (moored : h.Moored) (named : r.cell = .ok i) : i < h.cells.size := by
  cases target : r.target? with
  | some j =>
    obtain rfl : j = i := by simpa [Ref.cell_of_target? target] using named
    exact within j target
  | none =>
    -- only the empty list is in a cell and names none
    have isPair : r.isPair = true := by
      by_contra other
      have notActor : r.isActor = false := by
        by_contra isActor
        simp [Ref.target?_of_isActor (Bool.eq_true_of_not_eq_false isActor)] at target
      have : r.kind ≠ .pair ∧ r.kind ≠ .actor := by simpa [Ref.isPair, Ref.isActor] using And.intro other notActor
      unfold Ref.cell at named
      split at named <;> simp_all
    obtain rfl := Ref.eq_nil_of_isPair isPair target
    obtain rfl : 0 = i := by simpa [Ref.cell, Ref.nil, Ref.field_make, Ref.kind_make] using named
    exact (moored.head .free).1.trans (moored.head .free).2

theorem Enclosed.unwritten {s u : Logged (Heap L)} (enclosed : s.state.Enclosed) (unwritten : Unwritten s u)
    (moored : u.state.Moored) : u.state.Enclosed where
  toMoored := moored
  slots i v slot := by
    rw [unwritten.slots] at slot
    exact (enclosed.slots i v slot).mono unwritten.arena

/-- What is written into a slot names a cell of the arena. -/
theorem Enclosed.written (enclosed : h.Enclosed) (moored : k.Moored) (arena : k.cells.size = h.cells.size)
    (slots : ∀ i, ∀ v ∈ k.slots i, v ∈ h.slots i ∨ h.Encloses v) : k.Enclosed where
  toMoored := moored
  slots i v slot := ((slots i v slot).elim (enclosed.slots i v) id).mono arena.symm.le

theorem enclosed_empty (traced : Bool) : (Heap.empty traced : Heap L).Enclosed where
  toMoored := moored_empty traced
  slots i v slot := by
    have none : (Heap.empty traced : Heap L).slots i = [.nil, .nil] := by
      by_cases low : i < firstCell
      · simp [slots, cellAt, Heap.empty, low, Cell.slots, Cell.unlinked]
      · exact slots_outside (by simpa [Heap.empty] using low)
    rw [none] at slot
    obtain rfl : v = .nil := by simpa using slot
    exact encloses_of_target? Ref.target?_nil

/-! ### Tasks on enclosed heaps -/

/-- The heap is enclosed, and so is what is at hand. -/
structure Tight (s : Logged (Heap L)) (known : List (Ref L)) : Prop where
  heap : s.state.Enclosed
  given : ∀ v ∈ known, s.state.Encloses v

instance : Knows (Tight (L := L)) where
  blank tight none := ⟨tight.heap, List.forall_mem_cons.mpr ⟨encloses_of_target? none, tight.given⟩⟩
  fewer tight less := ⟨tight.heap, fun v on => tight.given v (less on)⟩

theorem Enclosed.tight {s : Logged (Heap L)} (enclosed : s.state.Enclosed) : Tight s [] := ⟨enclosed, by simp⟩

instance : HasRefs L (Cell L) := ⟨Cell.slots⟩

section
variable {known roots : List (Ref L)} {t : HeapTask L β}

instance (c : Cell L) : Known (HasRefs.refs c ++ known) c.first :=
  ⟨Or.inl (by simp [HasRefs.refs, Cell.slots])⟩

instance (c : Cell L) : Known (HasRefs.refs c ++ known) c.rest :=
  ⟨Or.inl (by simp [HasRefs.refs, Cell.slots])⟩

theorem encloses_of_known [Known known v] (given : ∀ w ∈ known, h.Encloses w) : h.Encloses v :=
  Known.holds (fun _ => encloses_of_target?) given

instance (priority := low) [HasRefs L β] [Refless L β] [unwritten : Passes Unwritten t] [firm : Passes Firm t] :
    Tends Tight known t where
  along s tight := by
    have same := unwritten.along s
    have moored := firm.along s tight.heap.toMoored
    cases ran : t s with
    | ok a u =>
      rw [ran] at same moored
      exact Task.tendsAt_ok ran (Knows.refless
        ⟨tight.heap.unwritten same moored, fun v on => (tight.given v on).mono same.arena⟩)
    | error f u =>
      rw [ran] at same moored
      exact Task.tendsAt_error ran (tight.heap.unwritten same moored).tight

instance : Tends Tight known (fetch i : HeapTask L (Cell L)) where
  along s tight := by
    by_cases inside : i < s.state.cells.size
    · refine Task.tendsAt_ok (fetch_apply inside) ⟨tight.heap, fun v on => ?_⟩
      rcases List.mem_append.mp on with slot | old
      · exact tight.heap.slots i v slot
      · exact tight.given v old
    · have outside : fetch i s = .error (.outOfBounds s.state.cells.size i) s := by
        unfold fetch
        rw [Array.getElem?_eq_none (Nat.not_lt.mp inside)]
      exact Task.tendsAt_error outside tight.heap.tight

/-- A write that leaves all other slots alone. -/
theorem tends_write {f : Heap L → Heap L} (firm : Passes Firm (Task.alter f))
    (arena : ∀ h, (f h).cells.size = h.cells.size)
    (slots : ∀ h : Heap L, (∀ w ∈ known, h.Encloses w) → ∀ i, ∀ v ∈ (f h).slots i, v ∈ h.slots i ∨ h.Encloses v) :
    Tends Tight known (Task.alter f : HeapTask L Unit) where
  along s tight := by
    refine Task.tendsAt_ok (Task.alter_apply _ _) (Knows.refless ⟨?_, fun v on => ?_⟩)
    · exact tight.heap.written (firm.along s tight.heap.toMoored) (arena _) (slots _ tight.given)
    · exact (tight.given v on).mono (arena _).symm.le

/-- Where one cell is changed, each slot holds what it held or what the change has put there. -/
theorem mem_slots_modifyCell {f : Cell L → Cell L} {v : Ref L} (slot : v ∈ (h.modifyCell i f).slots j) :
    v ∈ h.slots j ∨ v ∈ (f (h.cellAt j)).slots := by
  unfold slots at slot
  rw [cellAt_modifyCell] at slot
  split at slot
  · exact Or.inr slot
  · exact Or.inl slot

instance [Known known v] :
    Tends Tight known (Task.alter (·.modifyCell i fun c => { c with first := v }) : HeapTask L Unit) :=
  tends_write inferInstance (fun _ => by simp) fun h given j w slot => by
    rcases mem_slots_modifyCell slot with old | new
    · exact Or.inl old
    · rcases List.mem_pair.mp new with rfl | rfl
      · exact Or.inr (encloses_of_known given)
      · exact Or.inl (by simp [slots, Cell.slots])

instance [Known known v] :
    Tends Tight known (Task.alter (·.modifyCell i fun c => { c with rest := v }) : HeapTask L Unit) :=
  tends_write inferInstance (fun _ => by simp) fun h given j w slot => by
    rcases mem_slots_modifyCell slot with old | new
    · exact Or.inl old
    · rcases List.mem_pair.mp new with rfl | rfl
      · exact Or.inl (by simp [slots, Cell.slots])
      · exact Or.inr (encloses_of_known given)

instance [Known known a] [Known known b] :
    Tends Tight known (Task.alter (·.setSlots i a b) : HeapTask L Unit) :=
  tends_write inferInstance (fun _ => by simp) fun h given j w slot => by
    rcases mem_slots_modifyCell slot with old | new
    · exact Or.inl old
    · rcases List.mem_pair.mp new with rfl | rfl <;> exact Or.inr (encloses_of_known given)

instance [Known known r] : Tends Tight known (first r) := by unfold first; infer_instance

instance [Known known r] : Tends Tight known (rest r) := by unfold rest; infer_instance

instance [Known known r] : Tends Tight known (behavior r) := by unfold behavior; infer_instance

instance [Known known r] : Tends Tight known (state r) := by unfold state; infer_instance

instance [Known known r] [Known known v] : Tends Tight known (setFirst r v) := by
  unfold setFirst; infer_instance

instance [Known known r] [Known known v] : Tends Tight known (setRest r v) := by
  unfold setRest; infer_instance

instance [Known known r] [Known known a] [Known known b] : Tends Tight known (setActor r a b) := by
  unfold setActor; infer_instance

/-- A new cell that holds what is known. -/
theorem tends_birth [Known known a] [Known known b] {take : HeapTask L Nat} {put : Nat → Heap L → Heap L}
    {e : Nat → Heap L → Event} (finds : Finds take) (unwritten : Passes Unwritten take)
    (arena : ∀ i h, (put i h).cells.size = h.cells.size)
    (moored : ∀ i h, h.Moored → h.Inside i → (put i h).Moored)
    (slots : ∀ i h j, ∀ v ∈ (put i h).slots j, v ∈ h.slots j ∨ v = a ∨ v = b) :
    Tends Tight known (do
      let i ← take
      Task.alter (put i)
      shade a
      shade b
      noteTraced (e i)
      Task.ofExcept (Ref.pair i) : HeapTask L (Ref L)) where
  along s tight := by
    have ended := finds s tight.heap.toMoored
    have same := unwritten.along s
    unfold TendsAt
    rw [Task.bind_apply]
    cases ran : take s with
    | error f u =>
      rw [ran] at same
      exact Or.inr (tight.heap.unwritten same (ended.of_error ran)).tight
    | ok i u =>
      rw [ran] at same
      obtain ⟨safe, inside⟩ := ended.of_ok ran
      have before : u.state.Enclosed := tight.heap.unwritten same safe
      have later : Enclosed (put i u.state) :=
        Enclosed.written before (moored i _ safe inside) (arena i _) fun j v slot =>
          (slots i _ j v slot).imp_right fun new => by
            have known : ∀ w ∈ known, u.state.Encloses w := fun w on => (tight.given w on).mono same.arena
            rcases new with rfl | rfl <;> exact encloses_of_known known
      have follows : Passes Firm (do shade a; shade b; noteTraced (e i); Task.ofExcept (Ref.pair i) :
        HeapTask L (Ref L)) := inferInstance
      have follows' : Passes Unwritten (do shade a; shade b; noteTraced (e i); Task.ofExcept (Ref.pair i) :
        HeapTask L (Ref L)) := inferInstance
      have named : (do shade a; shade b; noteTraced (e i); Task.ofExcept (Ref.pair i) : HeapTask L (Ref L)).Ends
          ⟨put i u.state, u.journal⟩ (fun r _ => r.target? = some i) fun _ _ => True :=
        (Task.ends_trivial _ _).bind fun _ _ _ => (Task.ends_trivial _ _).bind fun _ _ _ =>
          (Task.ends_trivial _ _).bind fun _ _ _ =>
            Task.ends_ofExcept_last (fun r isPair => (Ref.of_pair isPair).2.2 inside.1) fun _ _ => trivial
      have safe' := follows.along ⟨put i u.state, u.journal⟩ later.toMoored
      have same' := follows'.along ⟨put i u.state, u.journal⟩
      dsimp only
      rw [Task.bind_apply, Task.alter_apply]
      dsimp only
      cases ran' : (do shade a; shade b; noteTraced (e i); Task.ofExcept (Ref.pair i) : HeapTask L (Ref L))
          ⟨put i u.state, u.journal⟩ with
      | error f w =>
        rw [ran'] at safe' same'
        exact Or.inr (Enclosed.unwritten later same' safe').tight
      | ok r w =>
        rw [ran'] at safe' same'
        have arena' : u.state.cells.size ≤ w.state.cells.size := (arena i u.state).symm.le.trans same'.arena
        refine ⟨later.unwritten same' safe', fun v on => ?_⟩
        rcases List.mem_append.mp on with new | old
        · obtain rfl : v = r := by simpa [HasRefs.refs] using new
          intro j target
          obtain rfl : i = j := by simpa [named.of_ok ran'] using target
          exact Nat.lt_of_lt_of_le inside.2 arena'
        · exact (tight.given v old).mono (same.arena.trans arena')

instance [Known known a] [Known known b] : Tends Tight known (cons a b) := by
  refine tends_birth takeFree_finds inferInstance (fun i h => arena_enroll h i a b)
    (fun i h moored inside => moored.enroll inside a b) fun i h j v slot => ?_
  unfold enroll at slot
  rw [slots_pushBack] at slot
  rcases mem_slots_modifyCell slot with old | new
  · exact Or.inl (by rwa [slots_setMark] at old)
  · exact Or.inr (by simpa [Cell.slots] using new)

instance [Known known a] [Known known b] : Tends Tight known (perm a b) := by
  refine tends_birth takeReserved_finds inferInstance (fun i h => by simp) (fun i h moored inside => ?_)
    fun i h j v slot => ?_
  · exact (moored.setMark inside .x).modifyCell i (f := fun c => { c with first := a, rest := b })
      (fun _ => rfl) (fun _ => rfl) fun _ => rfl
  · rcases mem_slots_modifyCell slot with old | new
    · exact Or.inl (by rwa [slots_setMark] at old)
    · exact Or.inr (by simpa [Cell.slots] using new)

instance [Known known a] [Known known b] : Tends Tight known (actorCell a b) := by
  refine Tends.after inferInstance fun _ => Tends.after inferInstance fun p => ⟨fun s tight => ?_⟩
  cases named : p.cell with
  | error f => exact Task.tendsAt_error (by rw [Task.bind_apply]; rfl) tight.heap.tight
  | ok i =>
    have inside := (tight.given p (by simp [HasRefs.refs])).cell tight.heap.toMoored named
    cases made : (Ref.actor i : Except Fault (Ref L)) with
    | error f =>
      exact Task.tendsAt_error (by rw [Task.bind_apply]; dsimp only [Task.ofExcept]; rw [made]) tight.heap.tight
    | ok r =>
      refine Task.tendsAt_ok (by rw [Task.bind_apply]; dsimp only [Task.ofExcept]; rw [made])
        ⟨tight.heap, fun v on => ?_⟩
      rcases List.mem_append.mp on with new | old
      · obtain rfl : v = r := by simpa [HasRefs.refs] using new
        intro j target
        obtain rfl : i = j := by simpa [(Ref.of_actor made).2] using target
        exact inside
      · exact tight.given v old

/-- What a user of the heap does, if the references given are within the arena. -/
theorem tends_op (op : Op L) (operands : ∀ v ∈ op.operands, Known known v) :
    Tends Tight known op.task := by
  cases op with
  | act a =>
    cases a with
    | cons x y | perm x y | actorCell x y | setFirst x y | setRest x y =>
      have := operands x (by simp [Op.operands, Act.operands])
      have := operands y (by simp [Op.operands, Act.operands])
      exact inferInstanceAs (Tends Tight known (_ >>= _))
    | first r | rest r | behavior r | state r | scanValue r =>
      have := operands r (by simp [Op.operands, Act.operands])
      exact inferInstanceAs (Tends Tight known (_ >>= _))
    | setActor r x y =>
      have := operands r (by simp [Op.operands, Act.operands])
      have := operands x (by simp [Op.operands, Act.operands])
      have := operands y (by simp [Op.operands, Act.operands])
      exact inferInstanceAs (Tends Tight known (_ >>= _))
  | age | beginCollect | traceStep | sweep | fullCollect =>
    exact inferInstanceAs (Tends Tight known (_ >>= _))

end

/-! ### Printing -/

theorem Enclosed.showFrom_whole (enclosed : h.Enclosed) (within : h.Encloses r) (names : Symbols) (n : Nat) :
    (Data.showFrom h names n r).fault? = none := by
  refine Data.showFrom_whole_of (P := h.Encloses) (fun r isCons within => ?_) within
  have target := Ref.target?_of_isCons isCons
  exact ⟨_, Data.peek_of_inside target (within _ target), enclosed.slots r.field.toNat _ (by simp [slots_eq]),
    enclosed.slots r.field.toNat _ (by simp [slots_eq])⟩

end Treadmill.Heap

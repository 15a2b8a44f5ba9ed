import Mathlib
import Treadmill.Proofs.Layouts.Access
import Treadmill.Proofs.Passage

/-!
Whatever a heap is asked to do, be it with references to no cell in use, and however that ends, its links
go on leading from cell to cell (`Moored`): none leads out of the arena or to the empty list. So a new
cell is never the empty list (`perm_gives`).
-/

namespace Treadmill.Heap
open Treadmill.Task (Passage Noting Passes)
variable {L : Layout} {α β : Type} {h k : Heap L} {i j n x y : Nat} {r v a b : Ref L} {q : Ring}

/-- A cell of the arena other than the empty list. -/
def Inside (h : Heap L) (i : Nat) : Prop := 0 < i ∧ i < h.cells.size

structure Moored (h : Heap L) : Prop where
  heads : firstCell ≤ h.cells.size
  narrow : h.cells.size ≤ 2 ^ 62
  next : ∀ {i}, h.Inside i → h.Inside (h.next i)
  prev : ∀ {i}, h.Inside i → h.Inside (h.prev i)
  /-- The empty list is never taken for a candidate. -/
  nil : h.mark 0 = .z
  phases : h.phase ≠ .z ∧ h.lastPhase ≠ .z

theorem inside_congr (arena : k.cells.size = h.cells.size) : k.Inside i ↔ h.Inside i := by
  simp only [Inside, arena]

@[simp] theorem inside_setNext : (h.setNext j n).Inside i ↔ h.Inside i := inside_congr (arena_setNext j n)

@[simp] theorem inside_setPrev : (h.setPrev j n).Inside i ↔ h.Inside i := inside_congr (arena_setPrev j n)

@[simp] theorem inside_setMark {m : Mark} : (h.setMark j m).Inside i ↔ h.Inside i :=
  inside_congr (arena_setMark j m)

@[simp] theorem inside_setSlots : (h.setSlots j a b).Inside i ↔ h.Inside i :=
  inside_congr (arena_setSlots j a b)

theorem moored_empty (traced : Bool) : (Heap.empty traced : Heap L).Moored where
  heads := by simp [Heap.empty]
  narrow := by simp [Heap.empty, firstCell]
  next {i} on := by
    have low : i < firstCell := by simpa [Heap.empty] using on.2
    rwa [next_empty low]
  prev {i} on := by
    have low : i < firstCell := by simpa [Heap.empty] using on.2
    rwa [prev_empty low]
  nil := mark_empty (by decide) traced
  phases := ⟨by simp [Heap.empty], by simp [Heap.empty]⟩

namespace Moored
variable (moored : h.Moored)
include moored

theorem congr (arena : k.cells.size = h.cells.size) (next : ∀ i, k.next i = h.next i)
    (prev : ∀ i, k.prev i = h.prev i) (mark : k.mark 0 = h.mark 0)
    (phases : k.phase = h.phase ∧ k.lastPhase = h.lastPhase) : k.Moored where
  heads := arena ▸ moored.heads
  narrow := arena ▸ moored.narrow
  next on := by
    rw [next, inside_congr arena] at *
    exact moored.next on
  prev on := by
    rw [prev, inside_congr arena] at *
    exact moored.prev on
  nil := mark.trans moored.nil
  phases := by
    rw [phases.1, phases.2]
    exact moored.phases

theorem head (q : Ring) : h.Inside q.head := by
  have := moored.heads
  cases q <;> simp only [Inside, Ring.head] <;> unfold firstCell at this <;> omega

theorem setNext (inside : h.Inside i) (goal : h.Inside n) : (h.setNext i n).Moored where
  heads := by simpa using moored.heads
  narrow := by simpa using moored.narrow
  next {j} on := by
    rw [inside_setNext] at on ⊢
    rw [next_setNext inside.2 (Nat.lt_of_lt_of_le goal.2 moored.narrow)]
    split
    · exact goal
    · exact moored.next on
  prev {j} on := by
    rw [inside_setNext] at on ⊢
    rw [prev_setNext]
    exact moored.prev on
  nil := (mark_setNext i n 0).trans moored.nil
  phases := moored.phases

theorem setPrev (inside : h.Inside i) (goal : h.Inside n) : (h.setPrev i n).Moored where
  heads := by simpa using moored.heads
  narrow := by simpa using moored.narrow
  next {j} on := by
    rw [inside_setPrev] at on ⊢
    rw [next_setPrev]
    exact moored.next on
  prev {j} on := by
    rw [inside_setPrev] at on ⊢
    rw [prev_setPrev inside.2 (Nat.lt_of_lt_of_le goal.2 moored.narrow)]
    split
    · exact goal
    · exact moored.prev on
  nil := (mark_setPrev i n 0).trans moored.nil
  phases := moored.phases

theorem setMark (inside : h.Inside i) (m : Mark) : (h.setMark i m).Moored :=
  moored.congr (arena_setMark i m) (next_setMark i m) (prev_setMark i m)
    (by rw [mark_setMark inside.2, if_neg inside.1.ne]) ⟨rfl, rfl⟩

theorem setSize (q : Ring) (n : Nat) : (h.setSize q n).Moored :=
  moored.congr rfl (fun _ => rfl) (fun _ => rfl) rfl ⟨rfl, rfl⟩

theorem modifyCell (i : Nat) {f : Cell L → Cell L} (next : ∀ c, (f c).next = c.next)
    (prev : ∀ c, (f c).prev = c.prev) (mark : ∀ c, (f c).mark = c.mark) : (h.modifyCell i f).Moored :=
  moored.congr (size_cells_modifyCell h i f) (modifyCell_frame Cell.next f next h i)
    (modifyCell_frame Cell.prev f prev h i) (modifyCell_frame Cell.mark f mark h i 0) ⟨rfl, rfl⟩

theorem insertBefore (inside : h.Inside y) (new : h.Inside x) : (h.insertBefore y x).Moored := by
  have before := moored.prev inside
  unfold Heap.insertBefore
  refine (((moored.setNext new inside).setPrev ?_ ?_).setNext ?_ ?_).setPrev ?_ ?_ <;> simpa

theorem insertAfter (inside : h.Inside y) (new : h.Inside x) : (h.insertAfter y x).Moored := by
  have behind := moored.next inside
  unfold Heap.insertAfter
  refine (((moored.setPrev new inside).setNext ?_ ?_).setPrev ?_ ?_).setNext ?_ ?_ <;> simpa

theorem extract (inside : h.Inside x) : (h.extract x).Moored := by
  have before := moored.prev inside
  have behind := moored.next inside
  unfold Heap.extract
  refine (((moored.setNext before behind).setPrev ?_ ?_).setNext ?_ ?_).setPrev ?_ ?_ <;> simpa

theorem splice (target source : Ring) : (h.splice target source).Moored := by
  have first := moored.next (moored.head source)
  have last := moored.prev (moored.head source)
  have tail := moored.prev (moored.head target)
  have head := moored.head source
  have head' := moored.head target
  unfold Heap.splice
  dsimp only
  split
  · exact moored
  · have joined := (((moored.setNext tail first).setPrev (inside_setNext.mpr first)
      (inside_setNext.mpr tail)).setNext (i := h.prev source.head) (n := target.head) (by simpa)
      (by simpa)).setPrev (i := target.head) (n := h.prev source.head) (by simpa) (by simpa)
    have emptied := (joined.setNext (i := source.head) (n := source.head) (by simpa) (by simpa)).setPrev
      (i := source.head) (n := source.head) (by simpa) (by simpa)
    exact (emptied.setSize _ _).setSize _ _

theorem grown (room : h.cells.size + blockCells ≤ 2 ^ 62) (q : Ring) : (h.grown q).Moored := by
  have heads := moored.heads
  have head := moored.head q
  have tail := moored.prev head
  have old : ∀ {j}, h.Inside j → (h.grown q).Inside j := fun on =>
    ⟨on.1, by rw [arena_grown]; exact Nat.lt_add_right _ on.2⟩
  unfold firstCell at heads
  have parts : ∀ {i}, (h.grown q).Inside i → h.Inside i ∨ ∃ n < blockCells, i = h.cells.size + n := by
    intro i on
    by_cases before : i < h.cells.size
    · exact Or.inl ⟨on.1, before⟩
    · have high := on.2
      rw [arena_grown] at high
      exact Or.inr ⟨i - h.cells.size, by omega, by omega⟩
  refine ⟨?_, ?_, fun {i} on => ?_, fun {i} on => ?_, ?_, by simpa only [Heap.grown] using moored.phases⟩
  · rw [arena_grown]
    unfold firstCell
    omega
  · rwa [arena_grown]
  · rcases parts on with before | ⟨n, new, rfl⟩
    · rw [Heap.next, cellAt_grown_old before.2]
      exact old (moored.next before)
    · rw [Heap.next, cellAt_grown_new new, next_blockCell (Nat.lt_of_lt_of_le head.2 moored.narrow) (by omega)]
      split
      · exact old head
      · exact ⟨by omega, by rw [arena_grown]; omega⟩
  · rcases parts on with before | ⟨n, new, rfl⟩
    · rw [Heap.prev, cellAt_grown_old before.2]
      exact old (moored.prev before)
    · rw [Heap.prev, cellAt_grown_new new, prev_blockCell (Nat.lt_of_lt_of_le tail.2 moored.narrow) (by omega)]
      split
      · exact old tail
      · exact ⟨by omega, by rw [arena_grown]; omega⟩
  · rw [mark, cellAt_grown_old (by omega)]
    exact moored.nil

theorem extend (room : h.cells.size + blockCells ≤ 2 ^ 62) (q : Ring) : (h.extend q).Moored := by
  have grown := moored.grown room q
  have tail := moored.prev (moored.head q)
  have positive : 0 < blockCells := by decide
  have base := Nat.lt_trans tail.1 tail.2
  have low := tail.2
  have inBlock : ∀ {j}, 0 < j → j < h.cells.size + blockCells → (h.grown q).Inside j :=
    fun low high => ⟨low, arena_grown.symm ▸ high⟩
  rw [extend_eq]
  refine ((grown.setNext (inBlock tail.1 (by omega)) (inBlock base (by omega))).setPrev ?_ ?_).setSize _ _
  · exact inside_setNext.mpr (grown.head q)
  · exact inside_setNext.mpr (inBlock (by omega) (by omega))

theorem withdraw (inside : h.Inside x) (q : Ring) : (h.withdraw q x).Moored :=
  (moored.extract inside).setSize _ _

theorem pushFront (inside : h.Inside x) (q : Ring) : (h.pushFront q x).Moored :=
  (moored.insertAfter (moored.head q) inside).setSize _ _

theorem pushBack (inside : h.Inside x) (q : Ring) : (h.pushBack q x).Moored :=
  (moored.insertBefore (moored.head q) inside).setSize _ _

theorem promote (inside : h.Inside i) : (h.promote i).Moored := by
  have out := inside_congr (arena_withdraw h .aged i) |>.mpr inside
  have one := (moored.withdraw inside .aged).setMark out h.phase
  exact one.pushBack (inside_setMark.mpr out) .scan

theorem popFront (q : Ring) :
    (h.popFront q).2.Moored ∧ ∀ i, (h.popFront q).1 = some i → (h.popFront q).2.Inside i := by
  have inside := moored.next (moored.head q)
  unfold Heap.popFront
  dsimp only
  split
  · exact ⟨moored, by simp⟩
  · refine ⟨moored.withdraw inside q, fun i isSome => ?_⟩
    obtain rfl := Option.some.inj isSome
    exact (inside_congr (arena_withdraw _ _ _)).mpr inside

theorem popBack (q : Ring) :
    (h.popBack q).2.Moored ∧ ∀ i, (h.popBack q).1 = some i → (h.popBack q).2.Inside i := by
  have inside := moored.prev (moored.head q)
  unfold Heap.popBack
  dsimp only
  split
  · exact ⟨moored, by simp⟩
  · refine ⟨moored.withdraw inside q, fun i isSome => ?_⟩
    obtain rfl := Option.some.inj isSome
    exact (inside_congr (arena_withdraw _ _ _)).mpr inside

theorem enroll (inside : h.Inside i) (a b : Ref L) : (h.enroll i a b).Moored := by
  have one := (moored.setMark inside h.phase).modifyCell i (f := fun c => { c with first := a, rest := b })
    (fun _ => rfl) (fun _ => rfl) fun _ => rfl
  exact one.pushBack (inside_setSlots.mpr (inside_setMark.mpr inside)) .fresh

theorem aged : h.aged.Moored := by
  have one := moored.splice .aged .fresh
  have flips : ∀ m : Mark, m.flip ≠ .z := fun m => by cases m <;> decide
  exact
    { heads := one.heads, narrow := one.narrow, next := one.next, prev := one.prev, nil := one.nil
      phases := ⟨flips _, one.phases.1⟩ }

theorem swept : h.swept.Moored :=
  (moored.splice .free .aged).congr rfl (fun _ => rfl) (fun _ => rfl) rfl ⟨rfl, rfl⟩

end Moored

/-! ### Tasks -/

/-- A moored heap stays so. -/
def Firm (s u : Logged (Heap L)) : Prop := s.state.Moored → u.state.Moored

instance : Passage (Firm (L := L)) := ⟨fun _ => id, fun one two moored => two (one moored)⟩

instance : Noting (Firm (L := L)) := ⟨fun _ _ => id⟩

theorem Firm.ends {t : HeapTask L β} {s : Logged (Heap L)} (firm : Passes Firm t) (moored : s.state.Moored) :
    t.Ends s (fun _ u => u.Moored) fun _ u => u.Moored :=
  firm.ends s fun _ stays => stays moored

theorem firm_alter {f : Heap L → Heap L} (keeps : ∀ h, h.Moored → (f h).Moored) : Passes Firm (Task.alter f) :=
  ⟨fun _ moored => keeps _ moored⟩

/-- A task that answers with a cell of the arena. -/
def Finds (t : HeapTask L Nat) : Prop :=
  ∀ s, s.state.Moored → t.Ends s (fun i u => u.Moored ∧ u.Inside i) fun _ u => u.Moored

theorem Finds.bind {t : HeapTask L Nat} {f : Nat → HeapTask L β} (finds : Finds t)
    (rest : ∀ i s, s.state.Inside i → Firm s (stateAfter (f i s))) : Passes Firm (t >>= f) := by
  refine ⟨fun s moored => ?_⟩
  have ends := finds s moored
  rw [Task.bind_apply]
  cases ran : t s with
  | error g u => exact ends.of_error ran
  | ok i u =>
    obtain ⟨moored, inside⟩ := ends.of_ok ran
    exact rest i u inside moored

section
variable {roots : List (Ref L)}

instance : Passes Firm (fetch i : HeapTask L (Cell L)) := Passes.of_stay fun s => by
  unfold fetch
  split <;> rfl

/-- Only a cell of the arena is promoted: the empty list bears the mark of no candidate. -/
instance : Passes Firm (scanCell i : HeapTask L Unit) := by
  refine ⟨fun s moored => ?_⟩
  by_cases outside : s.state.cells.size ≤ i
  · -- there is no such cell: the scan gives up before it changes anything
    have missing : fetch i s = .error (.outOfBounds s.state.cells.size i) s := by
      unfold fetch
      rw [Array.getElem?_eq_none outside]
    simpa [scanCell, Task.bind_apply, missing, stateAfter] using moored
  · have found := fetch_apply (s := s) (Nat.lt_of_not_le outside)
    simp only [scanCell, Task.bind_apply, found, Task.view_apply]
    split
    · rename_i candidate
      have inside : s.state.Inside i := by
        refine ⟨Nat.pos_of_ne_zero ?_, Nat.lt_of_not_le outside⟩
        rintro rfl
        exact moored.phases.2 (candidate.symm.trans moored.nil)
      by_cases some : 0 < s.state.size .aged
      · simpa [Task.bind_apply, some, stateAfter] using moored.promote inside
      · simpa [Task.bind_apply, some, stateAfter] using moored
    · exact moored

instance : Passes Firm (scanValue r) := by unfold scanValue; infer_instance

instance : Passes Firm (shade r) := by unfold shade; infer_instance

instance : Passes Firm (approach r) := by unfold approach; infer_instance

instance : Passes Firm (first r) := by unfold first; infer_instance

instance : Passes Firm (rest r) := by unfold rest; infer_instance

instance : Passes Firm (behavior r) := by unfold behavior; infer_instance

instance : Passes Firm (state r) := by unfold state; infer_instance

instance {f : Cell L → Ref L} {g : Cell L → Ref L} :
    Passes Firm (Task.alter (·.modifyCell i fun c => { c with first := f c, rest := g c }) : HeapTask L Unit) :=
  firm_alter fun _ moored => moored.modifyCell i (fun _ => rfl) (fun _ => rfl) fun _ => rfl

instance : Passes Firm (setFirst r v) := by unfold setFirst; infer_instance

instance : Passes Firm (setRest r v) := by unfold setRest; infer_instance

instance : Passes Firm (Task.alter (·.setSlots i a b) : HeapTask L Unit) :=
  firm_alter fun _ moored => moored.modifyCell i (fun _ => rfl) (fun _ => rfl) fun _ => rfl

instance : Passes Firm (setActor r a b) := by unfold setActor; infer_instance

/-! New cells -/

instance : Passes Firm (refill q : HeapTask L Unit) := by
  refine ⟨fun s moored => ?_⟩
  unfold refill
  by_cases room : s.state.cells.size + blockCells ≤ Ref.maxCell L
  · have room' : s.state.cells.size + blockCells ≤ 2 ^ 62 := room.trans (Ref.maxCell_lt L).le
    simpa [Task.bind_apply, room, stateAfter] using moored.extend room' q
  · simpa [Task.bind_apply, room, stateAfter] using moored

instance : Passes Firm (refillEmpty q : HeapTask L Unit) := by unfold refillEmpty; infer_instance

theorem takeFree_finds : Finds (takeFree : HeapTask L Nat) := by
  intro s moored
  refine Task.Ends.bind (Firm.ends inferInstance moored) fun _ u moored => ?_
  obtain ⟨moored, found⟩ := moored.popFront .free
  refine Task.ends_bind_ok (Task.change_apply _ _) ?_
  split
  · rename_i i isSome
    exact ⟨moored, found i isSome⟩
  · exact moored

theorem takeReserved_finds : Finds (takeReserved : HeapTask L Nat) := by
  intro s moored
  refine Task.Ends.bind (Firm.ends inferInstance moored) fun _ u moored => ?_
  obtain ⟨moored, found⟩ := moored.popBack .perm
  refine Task.ends_bind_ok (Task.change_apply _ _) ?_
  split
  · rename_i i isSome
    exact ⟨moored, found i isSome⟩
  · exact moored

instance (e : Heap L → Event) : Passes Firm (noteTraced e) := by unfold noteTraced; infer_instance

instance : Passes Firm (cons a b) := by
  refine takeFree_finds.bind fun i s inside moored => ?_
  exact Passes.along (R := Firm) (t := do
    shade a; shade b; noteTraced fun h => .cellBorn i h.phase; Task.ofExcept (Ref.pair i))
    ⟨s.state.enroll i a b, s.journal⟩ (moored.enroll inside a b)

instance : Passes Firm (perm a b) := by
  refine takeReserved_finds.bind fun i s inside moored => ?_
  have kept := (moored.setMark inside .x).modifyCell i (f := fun c => { c with first := a, rest := b })
    (fun _ => rfl) (fun _ => rfl) fun _ => rfl
  exact Passes.along (R := Firm) (t := do
    shade a; shade b; noteTraced fun _ => .cellFixed i; Task.ofExcept (Ref.pair i))
    ⟨(s.state.setMark i .x).setSlots i a b, s.journal⟩ kept

/-- A permanent cell is not the empty list. -/
theorem perm_gives {s : Logged (Heap L)} (moored : s.state.Moored) (a b : Ref L) :
    (perm a b).Ends s (fun p _ => p.isNil = false) fun _ _ => True := by
  refine ((takeReserved_finds s moored).mono (fun _ _ => And.right) fun _ _ _ => trivial).bind
    fun i u inside => Task.ends_alter ?_
  refine (Task.ends_trivial _ _).bind fun _ _ _ => (Task.ends_trivial _ _).bind fun _ _ _ =>
    (Task.ends_trivial _ _).bind fun _ _ _ => ?_
  refine Task.ends_ofExcept_last (fun p named => ?_) fun _ _ => trivial
  have target := (Ref.of_pair named).2.2 inside.1
  refine Bool.eq_false_iff.mpr fun isNil => ?_
  simp [Ref.isNil_iff.mp isNil] at target

instance : Passes Firm (actorCell a b) := by unfold actorCell; infer_instance

instance : Passes Firm (walkLimit : HeapTask L Nat) := by unfold walkLimit; infer_instance

end

/-! ### Cycles -/

/-- A moored heap stays so and keeps the cell `i`. -/
def Keeping (i : Nat) (s u : Logged (Heap L)) : Prop :=
  s.state.Moored ∧ s.state.Inside i → u.state.Moored ∧ u.state.Inside i

instance : Passage (Keeping (L := L) i) := ⟨fun _ => id, fun one two both => two (one both)⟩

instance (priority := low) {t : HeapTask L β} [firm : Passes Firm t] [grows : Grows t] :
    Passes (Keeping i) t :=
  ⟨fun s ⟨moored, inside⟩ => ⟨firm.along s moored, inside.1, Nat.lt_of_lt_of_le inside.2 (grows.arena s)⟩⟩

instance : Passes (Keeping i) (Task.alter (·.pushFront q i) : HeapTask L Unit) :=
  ⟨fun _ ⟨moored, inside⟩ => ⟨moored.pushFront inside q, (inside_congr (arena_pushFront _ _ _)).mpr inside⟩⟩

instance : Passes Firm (traceStep : HeapTask L Bool) := by
  refine ⟨fun s moored => ?_⟩
  obtain ⟨moored, found⟩ := moored.popFront .scan
  rw [traceStep, Task.bind_apply, Task.change_apply]
  cases taken : (s.state.popFront .scan).1 with
  | none => exact moored
  | some i =>
    exact (Passes.along (R := Keeping i) (t := do
      let c ← fetch i; scanValue c.first; scanValue c.rest; Task.alter (·.pushFront .fresh i); return true)
      _ ⟨moored, found i taken⟩).1

instance : Passes Firm (Task.alter Heap.aged : HeapTask L Unit) := firm_alter fun _ moored => moored.aged

instance : Passes Firm (Task.alter Heap.swept : HeapTask L Unit) := firm_alter fun _ moored => moored.swept

instance : Passes Firm (age : HeapTask L Unit) := by unfold age; infer_instance

instance (roots : List (Ref L)) : Passes Firm (beginCollect roots) := by unfold beginCollect; infer_instance

instance : Passes Firm (noteDeaths : HeapTask L Unit) := by unfold noteDeaths; infer_instance

instance : Passes Firm (usage : HeapTask L Usage) := by unfold usage; infer_instance

instance : Passes Firm (checkRing q : HeapTask L Unit) := by
  unfold checkRing
  refine Passes.after inferInstance fun checked => ?_
  split <;> infer_instance

instance : Passes Firm (checkAllRings : HeapTask L Unit) := by unfold checkAllRings; infer_instance

instance : Passes Firm (endCycle : HeapTask L Unit) := by
  unfold endCycle
  iterate 2 refine Passes.after inferInstance fun _ => ?_
  infer_instance

instance : Passes Firm (sweep : HeapTask L Unit) := by unfold sweep; infer_instance

instance (n done : Nat) : Passes Firm (traceFrom n done : HeapTask L Nat) := by
  induction n generalizing done with
  | zero => unfold traceFrom; infer_instance
  | succ n ih => unfold traceFrom; infer_instance

instance : Passes Firm (traceAll : HeapTask L Nat) := by unfold traceAll; infer_instance

instance : Passes Firm (finishCollect : HeapTask L Unit) := by unfold finishCollect; infer_instance

instance (roots : List (Ref L)) : Passes Firm (fullCollect roots) := by unfold fullCollect; infer_instance

instance (op : Op L) : Passes Firm op.task := by
  cases op with
  | act act => cases act <;> exact inferInstanceAs (Passes Firm (_ >>= _))
  | age | beginCollect | traceStep | sweep | fullCollect => unfold Op.task; infer_instance

end Treadmill.Heap

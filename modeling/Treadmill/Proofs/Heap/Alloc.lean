import Mathlib
import Treadmill.Proofs.Heap.Barrier

/-!
Allocation. A task that hands out a cell either finds the arena exhausted and leaves the heap as it
was, or takes a cell that was not in use (`Birth`), after adding a block of cells if it had to
(`Stocked`).
-/

namespace Treadmill.Heap
variable {L : Layout} {h k m : Heap L} {i j : Nat} {r : Ring} {a b v : Ref L}
  {lasting : Bool} {s : Logged (Heap L)}

/-! ### Adding a block -/

/-- `k` is `h`, perhaps with more cells to hand out. -/
structure Stocked (h k : Heap L) : Prop extends SameCycle h k where
  tidy : k.Tidy
  arena : h.cells.size ≤ k.cells.size
  slots : ∀ i < h.cells.size, k.slots i = h.slots i
  mark : ∀ i < h.cells.size, k.mark i = h.mark i
  others : ∀ r, r ≠ .free → r ≠ .perm → k.members r = h.members r
  fixed : ∀ i, k.Fixed i ↔ h.Fixed i

theorem Stocked.refl (tidy : h.Tidy) : Stocked h h :=
  ⟨.refl h, tidy, le_rfl, fun _ _ => rfl, fun _ _ => rfl, fun _ _ _ => rfl,
    fun _ => Iff.rfl⟩

theorem Stocked.inUse_iff (stocked : Stocked h k) : k.InUse i ↔ h.InUse i := by
  rw [InUse, InUse, Collectable, Collectable, stocked.others _ (by decide) (by decide),
    stocked.others _ (by decide) (by decide), stocked.others _ (by decide) (by decide),
    stocked.fixed]

theorem Stocked.holds (stocked : Stocked h k) (holds : h.Holds v) : k.Holds v :=
  fun j target => stocked.inUse_iff.mpr (holds j target)

theorem Tidy.members_extend (tidy : h.Tidy) (room : h.cells.size + blockCells ≤ Ref.maxCell L)
    (r : Ring) : (h.extend r).members =
      Function.update h.members r (h.members r ++ List.range' h.cells.size blockCells) := by
  have := Ref.maxCell_lt L
  exact (tidy.threaded.extend r (by omega)).members_eq

/-- The cells of a block are all on a ring. -/
theorem Tidy.fixed_extend (tidy : h.Tidy) (room : h.cells.size + blockCells ≤ Ref.maxCell L) :
    (h.extend r).Fixed i ↔ h.Fixed i := by
  unfold Fixed
  rw [arena_extend, tidy.members_extend room]
  constructor
  · rintro ⟨low, high, off⟩
    have new := off r
    rw [Function.update_self, List.mem_append, List.mem_range'_1] at new
    refine ⟨low, by omega, fun q on => ?_⟩
    rcases eq_or_ne q r with rfl | other
    · exact new (Or.inl on)
    · exact off q (by rwa [Function.update_of_ne other])
  · rintro ⟨low, high, off⟩
    refine ⟨low, by omega, fun q on => ?_⟩
    rcases eq_or_ne q r with rfl | other
    · rw [Function.update_self, List.mem_append, List.mem_range'_1] at on
      exact on.elim (off q) (by omega)
    · rw [Function.update_of_ne other] at on
      exact off q on

theorem Tidy.extend (tidy : h.Tidy) (spare : r = .free ∨ r = .perm)
    (room : h.cells.size + blockCells ≤ Ref.maxCell L) : Stocked h (h.extend r) := by
  have small := Ref.maxCell_lt L
  have arena := arena_extend (h := h) r
  have same := sameCycle_extend h r
  have members := tidy.members_extend room r
  have others : ∀ q, q ≠ .free → q ≠ .perm → (h.extend r).members q = h.members q := by
    intro q notFree notPerm
    rw [members, Function.update_of_ne]
    rcases spare with rfl | rfl <;> assumption
  have fresh := others .fresh (by decide) (by decide)
  have aged := others .aged (by decide) (by decide)
  have scan := others .scan (by decide) (by decide)
  have collectable : ∀ i, (h.extend r).Collectable i ↔ h.Collectable i := by
    intro i
    rw [Collectable, Collectable, fresh, aged, scan]
  have fixed : ∀ i, (h.extend r).Fixed i ↔ h.Fixed i := fun i => tidy.fixed_extend room
  have inside : ∀ {q i}, i ∈ h.members q → i < h.cells.size := fun on => (tidy.threaded.inside on).2
  have low := tidy.threaded.heads
  have kept : (h.extend r).Tidy :=
    { threaded := by rw [members]; exact tidy.threaded.extend r (by omega)
      parked := by rw [members]; exact tidy.threaded.extend_parked tidy.parked r (by omega)
      phases := by rw [same.phase, same.lastPhase]; exact tidy.phases
      fresh := fun i on => by
        rw [fresh] at on
        rw [mark_extend (inside on), same.phase]
        exact tidy.fresh i on
      scan := fun i on => by
        rw [scan] at on
        rw [mark_extend (inside on), same.phase]
        exact tidy.scan i on
      aged := fun i on => by
        rw [aged] at on
        rw [mark_extend (inside on), same.lastPhase]
        exact tidy.aged i on
      fixed := fun i on => by
        rw [fixed] at on
        rw [mark_extend on.2.1, same.lastPhase]
        exact tidy.fixed i on
      heads := fun i head => by
        rw [mark_extend (by omega)]
        exact tidy.heads i head
      idle := by rw [aged, scan, same.collecting]; exact tidy.idle
      nil := by
        have positive : 0 < firstCell := by decide
        rw [slots_extend (by omega), tidy.nil]
      room := by rw [arena]; exact room
      held := fun i on v slot => by
        rw [collectable] at on
        rw [slots_extend (tidy.threaded.inside_of_collectable on).2] at slot
        intro j target
        rw [InUse, collectable, fixed]
        exact tidy.held i on v slot j target }
  exact ⟨same, kept, by omega, fun i old => slots_extend old,
    fun i old => mark_extend old, others, fixed⟩

/-- There is no cell to hand out and no room for more cells. -/
def Short (h : Heap L) (r : Ring) : Prop :=
  h.members r = [] ∧ Ref.maxCell L < h.cells.size + blockCells

instance (h : Heap L) (r : Ring) : Decidable (h.Short r) :=
  inferInstanceAs (Decidable (_ ∧ _))

theorem refillEmpty_short (tidy : s.state.Tidy) (short : s.state.Short r) :
    refillEmpty r s = .error .arenaExhausted s := by
  obtain ⟨empty, full⟩ := short
  have recorded : s.state.size r = 0 := by rw [tidy.threaded.recorded, empty]; rfl
  have closed : decide (s.state.cells.size + blockCells ≤ Ref.maxCell L) = false :=
    decide_eq_false (by omega)
  simp [refillEmpty, refill, Task.bind_apply, recorded, closed]

theorem refillEmpty_ok (tidy : s.state.Tidy) (spare : r = .free ∨ r = .perm)
    (enough : ¬s.state.Short r) :
    ∃ h j, refillEmpty r s = .ok () ⟨h, j⟩ ∧ Stocked s.state h ∧ h.members r ≠ [] := by
  have recorded := tidy.threaded.recorded r
  by_cases empty : s.state.members r = []
  · have room : s.state.cells.size + blockCells ≤ Ref.maxCell L := by
      unfold Short at enough
      simp only [empty, true_and, not_lt] at enough
      exact enough
    rw [empty, List.length_nil] at recorded
    refine ⟨s.state.extend r, s.journal.add (.blockAdded r (s.state.cells.size + blockCells)), ?_,
      tidy.extend spare room, ?_⟩
    · simp [refillEmpty, refill, Task.bind_apply, recorded, room]
    · rw [tidy.members_extend room, Function.update_self]
      simp [blockCells]
  · have counted : s.state.size r ≠ 0 := by
      rw [recorded]
      exact fun none => empty (List.length_eq_zero_iff.mp none)
    exact ⟨s.state, s.journal, by simp [refillEmpty, Task.bind_apply, counted],
      Stocked.refl tidy, empty⟩

/-! ### Births -/

/-- `k` is `h` with the cell `i`, which was not in use, in use: on the fresh ring, or on none if it
is to last. -/
structure Birth (h k : Heap L) (i : Nat) (a b : Ref L) (lasting : Bool) : Prop
    extends SameCycle h k where
  arena : h.cells.size ≤ k.cells.size
  low : firstCell ≤ i
  unused : ¬h.InUse i
  fresh : ∀ j, j ∈ k.members .fresh ↔ j ∈ h.members .fresh ∨ lasting = false ∧ j = i
  aged : k.members .aged = h.members .aged
  scan : k.members .scan = h.members .scan
  fixed : ∀ j, k.Fixed j ↔ h.Fixed j ∨ lasting = true ∧ j = i
  marked : k.mark i = if lasting then .x else h.phase
  mark : ∀ j, j ≠ i → j < h.cells.size → k.mark j = h.mark j
  filled : k.slots i = [a, b]
  slots : ∀ j, j ≠ i → j < h.cells.size → k.slots j = h.slots j

namespace Birth

theorem collectable_iff (birth : Birth h k i a b lasting) :
    k.Collectable j ↔ h.Collectable j ∨ lasting = false ∧ j = i := by
  rw [Collectable, Collectable, birth.fresh, birth.aged, birth.scan]
  tauto

theorem inUse_iff (birth : Birth h k i a b lasting) : k.InUse j ↔ h.InUse j ∨ j = i := by
  rw [InUse, InUse, birth.collectable_iff, birth.fixed]
  cases lasting <;> simp only [reduceCtorEq, true_and, false_and, or_false] <;> tauto

theorem holds (birth : Birth h k i a b lasting) (holds : h.Holds v) : k.Holds v :=
  fun j target => birth.inUse_iff.mpr (Or.inl (holds j target))

theorem positive (birth : Birth h k i a b lasting) : 0 < i := by
  have low : 0 < firstCell := by decide
  exact Nat.lt_of_lt_of_le low birth.low

theorem ne (birth : Birth h k i a b lasting) (use : h.InUse j) : j ≠ i :=
  fun same => birth.unused (same ▸ use)

theorem tidy (birth : Birth h k i a b lasting) (tidy : h.Tidy) (threaded : k.Threaded k.members)
    (parked : k.Parked k.members) (room : k.cells.size ≤ Ref.maxCell L) (holdsFirst : h.Holds a)
    (holdsRest : h.Holds b) : k.Tidy := by
  have head : ∀ {j}, j < firstCell → j ≠ i := fun low same => by
    have := birth.low
    omega
  exact
    { threaded := threaded
      parked := parked
      phases := by rw [birth.phase, birth.lastPhase]; exact tidy.phases
      fresh := fun j on => by
        rw [birth.phase]
        rcases (birth.fresh j).mp on with on | ⟨passing, rfl⟩
        · rw [birth.mark j (birth.ne (Or.inl (Or.inl on))) (tidy.threaded.inside on).2]
          exact tidy.fresh j on
        · rw [birth.marked, passing]
          rfl
      scan := fun j on => by
        rw [birth.scan] at on
        rw [birth.phase, birth.mark j (birth.ne (Or.inl (Or.inr (Or.inr on))))
          (tidy.threaded.inside on).2]
        exact tidy.scan j on
      aged := fun j on => by
        rw [birth.aged] at on
        rw [birth.lastPhase, birth.mark j (birth.ne (Or.inl (Or.inr (Or.inl on))))
          (tidy.threaded.inside on).2]
        exact tidy.aged j on
      fixed := fun j fixed => by
        rw [birth.lastPhase]
        rcases (birth.fixed j).mp fixed with fixed | ⟨lasting, rfl⟩
        · rw [birth.mark j (birth.ne (Or.inr fixed)) fixed.2.1]
          exact tidy.fixed j fixed
        · rw [birth.marked, if_pos lasting]
          rcases tidy.phases with ⟨-, last⟩ | ⟨-, last⟩ <;> rw [last] <;> decide
      heads := fun j low => by
        rw [birth.mark j (head low) (Nat.lt_of_lt_of_le low tidy.threaded.heads)]
        exact tidy.heads j low
      idle := by rw [birth.aged, birth.scan, birth.collecting]; exact tidy.idle
      nil := by
        have low : 0 < firstCell := by decide
        rw [birth.slots 0 (head low) (Nat.lt_of_lt_of_le low tidy.threaded.heads), tidy.nil]
      room := room
      held := fun j on v slot => by
        rcases birth.collectable_iff.mp on with on | ⟨-, rfl⟩
        · rw [birth.slots j (birth.ne (Or.inl on)) (tidy.threaded.inside_of_collectable on).2] at slot
          exact birth.holds (tidy.held j on v slot)
        · rw [birth.filled] at slot
          rcases List.mem_pair.mp slot with rfl | rfl
          · exact birth.holds holdsFirst
          · exact birth.holds holdsRest }

theorem stocked (first : Stocked h m) (second : Birth m k i a b lasting) :
    Birth h k i a b lasting where
  toSameCycle := first.toSameCycle.trans second.toSameCycle
  arena := first.arena.trans second.arena
  low := second.low
  unused use := second.unused (first.inUse_iff.mpr use)
  fresh j := by rw [second.fresh, first.others _ (by decide) (by decide)]
  aged := second.aged.trans (first.others _ (by decide) (by decide))
  scan := second.scan.trans (first.others _ (by decide) (by decide))
  fixed j := by rw [second.fixed, first.fixed]
  marked := by rw [second.marked, first.phase]
  mark j other old := (second.mark j other (Nat.lt_of_lt_of_le old first.arena)).trans
    (first.mark j old)
  filled := second.filled
  slots j other old := (second.slots j other (Nat.lt_of_lt_of_le old first.arena)).trans
    (first.slots j old)

end Birth

theorem Tidy.unused_of_spare (tidy : h.Tidy) (spare : r = .free ∨ r = .perm)
    (on : i ∈ h.members r) : ¬h.InUse i := by
  rw [tidy.threaded.inUse_iff]
  rintro ⟨-, -, notFree, notPerm⟩
  rcases spare with rfl | rfl
  · exact notFree on
  · exact notPerm on

theorem enroll_eq (h : Heap L) (i : Nat) (a b : Ref L) :
    h.enroll i a b = ((h.setMark i h.phase).setSlots i a b).pushBack .fresh i := rfl

/-- A free cell that is handed out moves to the fresh ring. -/
theorem Tidy.enroll_threaded (tidy : h.Tidy) (free : i ∈ h.members .free) (a b : Ref L) :
    ((h.withdraw .free i).enroll i a b).Threaded (Function.update
      (Function.update h.members .free ((h.members .free).erase i)) .fresh (h.members .fresh ++ [i])) := by
  have inside := tidy.threaded.inside free
  have threaded := ((tidy.threaded.withdraw free).setMark i (h.withdraw .free i).phase).setSlots i a b
  have size : (((h.withdraw .free i).setMark i (h.withdraw .free i).phase).setSlots i a b).cells.size =
      h.cells.size := by
    rw [arena_setSlots, arena_setMark, (relinked_withdraw h .free i).arena]
  have rows := threaded.pushBack .fresh (tidy.threaded.strung.loose free) ⟨inside.1, by rw [size]; exact inside.2⟩
  rwa [Function.update_of_ne (by decide : Ring.fresh ≠ .free)] at rows

theorem Tidy.enroll (tidy : h.Tidy) (free : i ∈ h.members .free) (holdsFirst : h.Holds a)
    (holdsRest : h.Holds b) :
    ((h.withdraw .free i).enroll i a b).Tidy ∧
      Birth h ((h.withdraw .free i).enroll i a b) i a b false := by
  have inside := tidy.threaded.inside free
  have out := relinked_withdraw h .free i
  have inside' : i < (h.withdraw .free i).cells.size := by rw [out.arena]; exact inside.2
  have threaded := ((tidy.threaded.withdraw free).setMark i (h.withdraw .free i).phase).setSlots i a b
  have parked := ((tidy.threaded.withdraw_parked tidy.parked free).setMark i
    (h.withdraw .free i).phase).setSlots i a b
  have size : (((h.withdraw .free i).setMark i (h.withdraw .free i).phase).setSlots i a b).cells.size =
      h.cells.size := by
    rw [arena_setSlots, arena_setMark, out.arena]
  have back := relinked_pushBack (((h.withdraw .free i).setMark i
    (h.withdraw .free i).phase).setSlots i a b) .fresh i
  have rows := tidy.enroll_threaded free a b
  rw [enroll_eq] at rows
  have parkedRows := threaded.pushBack_parked parked .fresh (x := i) (by rw [size]; exact inside.2)
  rw [Function.update_of_ne (by decide : Ring.fresh ≠ .free)] at parkedRows
  have members := rows.members_eq
  rw [enroll_eq]
  have birth : Birth h ((((h.withdraw .free i).setMark i (h.withdraw .free i).phase).setSlots i a
      b).pushBack .fresh i) i a b false :=
    { toSameCycle := ((out.toSameCycle.trans (sameCycle_modifyCell _ _ _)).trans
        (sameCycle_modifyCell _ _ _)).trans back.toSameCycle
      arena := le_of_eq (back.arena.trans size).symm
      low := inside.1
      unused := tidy.unused_of_spare (Or.inl rfl) free
      fresh := fun j => by
        rw [members, Function.update_self]
        simp
      aged := by
        rw [members, Function.update_of_ne (by decide), Function.update_of_ne (by decide)]
      scan := by
        rw [members, Function.update_of_ne (by decide), Function.update_of_ne (by decide)]
      fixed := fun j => by
        have only := (tidy.threaded.nodup .free).mem_erase_iff (a := j) (b := i)
        rw [fixed_iff, fixed_iff, back.arena, size, members, Function.update_self]
        simp only [Function.update_of_ne, Function.update_self, ne_eq, reduceCtorEq,
          not_false_eq_true, only, List.mem_append, List.mem_singleton, Bool.false_eq_true,
          false_and, or_false]
        by_cases same : j = i
        · subst same
          simp [free]
        · simp [same]
      marked := by
        rw [back.mark, mark_setSlots, mark_setMark inside', if_pos rfl, out.phase]
        rfl
      mark := fun j other _ => by
        rw [back.mark, mark_setSlots, mark_setMark inside', if_neg other, out.mark]
      filled := by
        rw [back.slots, slots_setSlots (by rw [arena_setMark]; exact inside'), if_pos rfl]
      slots := fun j other _ => by
        rw [back.slots, slots_setSlots (by rw [arena_setMark]; exact inside'), if_neg other,
          slots_setMark, out.slots] }
  have kept := birth.tidy tidy rows.members (by rw [members]; exact parkedRows)
    (by rw [back.arena, size]; exact tidy.room) holdsFirst holdsRest
  exact ⟨kept, birth⟩

theorem Tidy.fix (tidy : h.Tidy) (spare : i ∈ h.members .perm) (holdsFirst : h.Holds a)
    (holdsRest : h.Holds b) :
    (((h.withdraw .perm i).setMark i .x).setSlots i a b).Tidy ∧
      Birth h (((h.withdraw .perm i).setMark i .x).setSlots i a b) i a b true := by
  have inside := tidy.threaded.inside spare
  have out := relinked_withdraw h .perm i
  have inside' : i < (h.withdraw .perm i).cells.size := by rw [out.arena]; exact inside.2
  have rows := ((tidy.threaded.withdraw spare).setMark i .x).setSlots i a b
  have parked := ((tidy.threaded.withdraw_parked tidy.parked spare).setMark i .x).setSlots i a b
  have members := rows.members_eq
  have others : ∀ q, q ≠ .perm →
      (((h.withdraw .perm i).setMark i .x).setSlots i a b).members q = h.members q := by
    intro q other
    rw [members, Function.update_of_ne other]
  have size : (((h.withdraw .perm i).setMark i .x).setSlots i a b).cells.size = h.cells.size := by
    rw [arena_setSlots, arena_setMark, out.arena]
  have birth : Birth h (((h.withdraw .perm i).setMark i .x).setSlots i a b) i a b true :=
    { toSameCycle := (out.toSameCycle.trans (sameCycle_modifyCell _ _ _)).trans
        (sameCycle_modifyCell _ _ _)
      arena := le_of_eq size.symm
      low := inside.1
      unused := tidy.unused_of_spare (Or.inr rfl) spare
      fresh := fun j => by rw [others .fresh (by decide)]; simp
      aged := others .aged (by decide)
      scan := others .scan (by decide)
      fixed := fun j => by
        have only := (tidy.threaded.nodup .perm).mem_erase_iff (a := j) (b := i)
        have alone : ∀ {q}, i ∈ h.members q → q = .perm := fun on => tidy.threaded.apart on spare
        rw [fixed_iff, fixed_iff, size, members, Function.update_self]
        simp only [Function.update_of_ne, ne_eq, reduceCtorEq, not_false_eq_true, only, true_and]
        by_cases same : j = i
        · subst same
          have : ∀ q, q ≠ .perm → j ∉ h.members q := fun q other on => other (alone on)
          simp [this, inside]
        · simp [same]
      marked := by rw [mark_setSlots, mark_setMark inside', if_pos rfl, if_pos rfl]
      mark := fun j other _ => by rw [mark_setSlots, mark_setMark inside', if_neg other, out.mark]
      filled := by rw [slots_setSlots (by rw [arena_setMark]; exact inside'), if_pos rfl]
      slots := fun j other _ => by
        rw [slots_setSlots (by rw [arena_setMark]; exact inside'), if_neg other, slots_setMark,
          out.slots] }
  exact ⟨birth.tidy tidy rows.members (by rw [members]; exact parked) (by rw [size]; exact tidy.room)
    holdsFirst holdsRest, birth⟩

/-! ### Handing out -/

theorem takeFree_short (tidy : s.state.Tidy) (short : s.state.Short .free) :
    takeFree s = .error .arenaExhausted s := by
  unfold takeFree
  rw [Task.bind_apply, refillEmpty_short tidy short]

theorem takeReserved_short (tidy : s.state.Tidy) (short : s.state.Short .perm) :
    takeReserved s = .error .arenaExhausted s := by
  unfold takeReserved
  rw [Task.bind_apply, refillEmpty_short tidy short]

theorem takeFree_ok (tidy : s.state.Tidy) (enough : ¬s.state.Short .free) :
    ∃ m i j, takeFree s = .ok i ⟨m.withdraw .free i, j⟩ ∧ Stocked s.state m ∧
      i ∈ m.members .free := by
  obtain ⟨m, j, refilled, stocked, filled⟩ := refillEmpty_ok tidy (Or.inl rfl) enough
  obtain ⟨i, row, shape⟩ := List.exists_cons_of_ne_nil filled
  refine ⟨m, i, j, ?_, stocked, by simp [shape]⟩
  unfold takeFree
  rw [Task.bind_apply, refilled]
  simp [Task.bind_apply, stocked.tidy.threaded.strung.popFront_cons shape]

theorem takeReserved_ok (tidy : s.state.Tidy) (enough : ¬s.state.Short .perm) :
    ∃ m i j, takeReserved s = .ok i ⟨m.withdraw .perm i, j⟩ ∧ Stocked s.state m ∧
      i ∈ m.members .perm := by
  obtain ⟨m, j, refilled, stocked, filled⟩ := refillEmpty_ok tidy (Or.inr rfl) enough
  obtain ⟨row, i, shape⟩ : ∃ row i, m.members .perm = row ++ [i] :=
    ⟨_, _, (List.dropLast_concat_getLast filled).symm⟩
  refine ⟨m, i, j, ?_, stocked, by simp [shape]⟩
  unfold takeReserved
  rw [Task.bind_apply, refilled]
  simp [Task.bind_apply, stocked.tidy.threaded.strung.popBack_concat shape]

theorem noteTraced_apply (e : Heap L → Event) (s : Logged (Heap L)) :
    ∃ j, noteTraced e s = .ok () ⟨s.state, j⟩ := by
  cases traced : s.state.traced with
  | true => exact ⟨s.journal.add (e s.state), by simp [noteTraced, Task.bind_apply, traced]⟩
  | false => exact ⟨s.journal, by simp [noteTraced, Task.bind_apply, traced]⟩

/-- The heap once what two references name is kept. -/
def keepBoth (h : Heap L) (a b : Ref L) : Heap L := (h.keepTarget a).keepTarget b

theorem Tidy.keepBoth (tidy : h.Tidy) (regularFirst : h.Regular a) (regularRest : h.Regular b) :
    (h.keepBoth a b).Tidy ∧ Promoted h (h.keepBoth a b) ∧ (h.keepBoth a b).Clear a ∧
      (h.keepBoth a b).Clear b := by
  obtain ⟨one, firstStep, clear⟩ := tidy.keepTarget regularFirst
  obtain ⟨two, secondStep, clear'⟩ := one.keepTarget (firstStep.regular one regularRest)
  exact ⟨two, firstStep.trans secondStep, secondStep.clear clear, clear'⟩

theorem shade_both (tidy : s.state.Tidy) (holdsFirst : s.state.Holds a)
    (holdsRest : s.state.Holds b) (after : HeapTask L α) :
    (do shade a; shade b; after) s = after ⟨s.state.keepBoth a b, s.journal⟩ := by
  obtain ⟨kept, promoted, -⟩ := tidy.keepTarget (tidy.regular holdsFirst)
  rw [Task.bind_apply, shade_apply tidy holdsFirst]
  dsimp only
  rw [Task.bind_apply, shade_apply (s := ⟨s.state.keepTarget a, s.journal⟩) kept
    (promoted.holds_iff.mpr holdsRest)]
  rfl

theorem cons_short (tidy : s.state.Tidy) (short : s.state.Short .free) :
    cons a b s = .error .arenaExhausted s := by
  unfold cons
  rw [Task.bind_apply, takeFree_short tidy short]

theorem perm_short (tidy : s.state.Tidy) (short : s.state.Short .perm) :
    perm a b s = .error .arenaExhausted s := by
  unfold perm
  rw [Task.bind_apply, takeReserved_short tidy short]

/-- What is left to do once a cell is in use always succeeds. -/
theorem birth_finish (tidy : h.Tidy) (birth : Birth m h i a b lasting) (holdsFirst : h.Holds a)
    (holdsRest : h.Holds b) (e : Heap L → Event) (j : Journal) :
    ∃ r l, (do shade a; shade b; noteTraced e; Task.ofExcept (Ref.pair i) : HeapTask L (Ref L))
      ⟨h, j⟩ = .ok r ⟨h.keepBoth a b, l⟩ ∧ Ref.pair i = .ok r := by
  have use : h.InUse i := birth.inUse_iff.mpr (Or.inr rfl)
  have inside := (tidy.threaded.inside_of_inUse use).2
  obtain ⟨r, named⟩ := Ref.pair_ok (L := L) (i := i) (by have := tidy.room; omega)
  obtain ⟨l, noted⟩ := noteTraced_apply e ⟨h.keepBoth a b, j⟩
  refine ⟨r, l, ?_, named⟩
  rw [shade_both (s := ⟨h, j⟩) tidy holdsFirst holdsRest, Task.bind_apply, noted, named]
  rfl

theorem cons_ok (tidy : s.state.Tidy) (holdsFirst : s.state.Holds a) (holdsRest : s.state.Holds b)
    (enough : ¬s.state.Short .free) :
    ∃ i r k j, cons a b s = .ok r ⟨k.keepBoth a b, j⟩ ∧ Ref.pair i = .ok r ∧ k.Tidy ∧
      Birth s.state k i a b false := by
  obtain ⟨m, i, j, taken, stocked, free⟩ := takeFree_ok tidy enough
  obtain ⟨kept, birth⟩ := stocked.tidy.enroll free (stocked.holds holdsFirst)
    (stocked.holds holdsRest)
  obtain ⟨r, l, finished, named⟩ := birth_finish kept birth
    (birth.holds (stocked.holds holdsFirst)) (birth.holds (stocked.holds holdsRest))
    (fun h => .cellBorn i h.phase) j
  refine ⟨i, r, _, l, ?_, named, kept, birth.stocked stocked⟩
  unfold cons
  rw [Task.bind_apply, taken]
  exact finished

/-- As long as there are free cells, the first of them is handed out. -/
theorem cons_next {row : List Nat} (tidy : s.state.Tidy) (holdsFirst : s.state.Holds a)
    (holdsRest : s.state.Holds b) (shape : s.state.members .free = i :: row) :
    ∃ r k j, cons a b s = .ok r ⟨k, j⟩ ∧ Ref.pair i = .ok r ∧ k.members .free = row := by
  have free : i ∈ s.state.members .free := by simp [shape]
  have counted : s.state.size .free ≠ 0 := by simp [tidy.threaded.recorded, shape]
  have taken : takeFree s = .ok i ⟨s.state.withdraw .free i, s.journal⟩ := by
    simp [takeFree, refillEmpty, Task.bind_apply, counted, tidy.threaded.strung.popFront_cons shape]
  obtain ⟨kept, birth⟩ := tidy.enroll free holdsFirst holdsRest
  have first := birth.holds holdsFirst
  have rest := birth.holds holdsRest
  obtain ⟨r, l, finished, named⟩ := birth_finish kept birth first rest (fun h => .cellBorn i h.phase) s.journal
  obtain ⟨-, p, -⟩ := kept.keepBoth (kept.regular first) (kept.regular rest)
  refine ⟨r, ((s.state.withdraw .free i).enroll i a b).keepBoth a b, l, ?_, named, ?_⟩
  · unfold cons
    rw [Task.bind_apply, taken]
    exact finished
  · rw [p.others .free (by decide) (by decide), (tidy.enroll_threaded free a b).members_eq,
      Function.update_of_ne (by decide), Function.update_self, shape, List.erase_cons_head]

theorem perm_ok (tidy : s.state.Tidy) (holdsFirst : s.state.Holds a) (holdsRest : s.state.Holds b)
    (enough : ¬s.state.Short .perm) :
    ∃ i r k j, perm a b s = .ok r ⟨k.keepBoth a b, j⟩ ∧ Ref.pair i = .ok r ∧ k.Tidy ∧
      Birth s.state k i a b true := by
  obtain ⟨m, i, j, taken, stocked, spare⟩ := takeReserved_ok tidy enough
  obtain ⟨kept, birth⟩ := stocked.tidy.fix spare (stocked.holds holdsFirst)
    (stocked.holds holdsRest)
  obtain ⟨r, l, finished, named⟩ := birth_finish kept birth
    (birth.holds (stocked.holds holdsFirst)) (birth.holds (stocked.holds holdsRest))
    (fun _ => .cellFixed i) j
  refine ⟨i, r, _, l, ?_, named, kept, birth.stocked stocked⟩
  unfold perm
  rw [Task.bind_apply, taken]
  exact finished

/-- A heap is sound again once what was stored in the cell that was born is kept. -/
theorem Sound.born (sound : h.Sound) (birth : Birth h m i a b lasting) (p : Promoted m k)
    (tidy : k.Tidy) (clearFirst : k.Clear a) (clearRest : k.Clear b) : k.Sound where
  toTidy := tidy
  sealed j fixed := by
    rw [p.fixed_iff] at fixed
    rw [p.mark j (fixed.2.2 .aged)]
    rcases (birth.fixed j).mp fixed with fixed | ⟨lasts, rfl⟩
    · rw [birth.mark j (birth.ne (Or.inr fixed)) fixed.2.1]
      exact sound.sealed j fixed
    · rw [birth.marked, if_pos lasts]
  shielded j member v slot := by
    rw [p.others .fresh (by decide) (by decide)] at member
    rw [p.slots] at slot
    rcases (birth.fresh j).mp member with member | ⟨-, rfl⟩
    · rw [birth.slots j (birth.ne (Or.inl (Or.inl member)))
        (sound.threaded.inside member).2] at slot
      intro c target onAged
      have := p.aged c onAged
      rw [birth.aged] at this
      exact sound.shielded j member v slot c target this
    · rw [birth.filled] at slot
      rcases List.mem_pair.mp slot with rfl | rfl
      · exact clearFirst
      · exact clearRest

end Treadmill.Heap

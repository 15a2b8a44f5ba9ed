import Mathlib
import Treadmill.Proofs.Heap.Keep

/-!
Between operations no fresh cell names a candidate (`Sound`). Every access keeps what it names
alive, and every store what it stores, so reads and writes of cells in use preserve this.
-/

namespace Treadmill.Heap
variable {L : Layout} {h k : Heap L} {i j : Nat} {r v w : Ref L} {s : Logged (Heap L)}

structure Sound (h : Heap L) : Prop extends Tidy h where
  sealed : ∀ i, h.Fixed i → h.mark i = .x
  shielded : ∀ i ∈ h.members .fresh, ∀ v ∈ h.slots i, h.Clear v

theorem Promoted.sound (p : Promoted h k) (sound : h.Sound) (tidy : k.Tidy) : k.Sound where
  toTidy := tidy
  sealed i fixed := by
    rw [p.fixed_iff] at fixed
    rw [p.mark i (fixed.2.2 .aged)]
    exact sound.sealed i fixed
  shielded i member v slot := by
    rw [p.others .fresh (by decide) (by decide)] at member
    rw [p.slots] at slot
    exact p.clear (sound.shielded i member v slot)

theorem Sound.keepTarget (sound : h.Sound) (regular : h.Regular v) :
    (h.keepTarget v).Sound ∧ Promoted h (h.keepTarget v) ∧ (h.keepTarget v).Clear v := by
  obtain ⟨tidy, promoted, clear⟩ := sound.toTidy.keepTarget regular
  exact ⟨promoted.sound sound tidy, promoted, clear⟩

/-! ### The barrier -/

theorem fetch_apply (inside : i < s.state.cells.size) :
    fetch i s = .ok (s.state.cellAt i) s := by
  unfold fetch
  rw [Array.getElem?_eq_getElem inside]
  simp [cellAt, Array.getD, inside]

theorem scanCell_apply (threaded : s.state.Threaded s.state.members) (inside : i < s.state.cells.size)
    (candidate : s.state.mark i = s.state.lastPhase → i ∈ s.state.members .aged) :
    scanCell i s = .ok () ⟨s.state.keep i, s.journal⟩ := by
  unfold scanCell keep
  rw [Task.bind_apply, fetch_apply inside]
  simp only [Task.bind_apply, Task.view_apply]
  have seen : s.state.mark i = (s.state.cellAt i).mark := rfl
  rw [seen] at candidate ⊢
  by_cases marked : (s.state.cellAt i).mark = s.state.lastPhase
  · have counted : 0 < s.state.size .aged := by
      rw [threaded.recorded]
      exact List.length_pos_of_mem (candidate marked)
    rw [if_pos marked, if_pos marked]
    simp [counted, Task.bind_apply]
  · rw [if_neg marked, if_neg marked]
    rfl

theorem scanValue_apply (threaded : s.state.Threaded s.state.members)
    (regular : s.state.Regular v) :
    scanValue v s = .ok () ⟨s.state.keepTarget v, s.journal⟩ := by
  unfold scanValue
  cases target : v.target? with
  | none =>
    have idle : (v.isCons || v.isActor) = false := by
      simpa [Ref.target?] using target
    simp [idle, keepTarget_none target]
  | some i =>
    have names : (v.isCons || v.isActor) = true := by
      simpa using (Ref.target?_eq_some_iff.mp target).1
    rw [if_pos names, Task.bind_apply, Ref.cell_of_target? target, keepTarget_some target]
    exact scanCell_apply threaded (regular i target).1 (regular i target).2

theorem shade_apply (tidy : s.state.Tidy) (holds : s.state.Holds v) :
    shade v s = .ok () ⟨s.state.keepTarget v, s.journal⟩ := by
  have regular := tidy.regular holds
  unfold shade
  rw [Task.bind_apply, Task.view_apply]
  dsimp only
  split
  · exact scanValue_apply tidy.threaded regular
  · rename_i resting
    rw [tidy.keepTarget_idle regular (by simpa using resting)]
    rfl

theorem approach_apply (tidy : s.state.Tidy) (target : r.target? = some i)
    (use : s.state.InUse i) :
    approach r s = .ok i ⟨s.state.keepTarget r, s.journal⟩ := by
  unfold approach
  rw [Task.bind_apply, Ref.cell_of_target? target, Task.ofExcept_ok]
  dsimp only
  rw [Task.bind_apply, scanCell_apply tidy.threaded (tidy.threaded.inside_of_inUse use).2
    (tidy.mem_aged_of_mark use), keepTarget_some target]
  rfl

/-! ### Reading -/

theorem slots_keepTarget (h : Heap L) (v : Ref L) (j : Nat) :
    (h.keepTarget v).slots j = h.slots j := by
  cases target : v.target? with
  | none => rw [keepTarget_none target]
  | some i =>
    rw [keepTarget_some target, keep]
    split
    · exact slots_promote h i j
    · rfl

theorem arena_keepTarget (h : Heap L) (v : Ref L) :
    (h.keepTarget v).cells.size = h.cells.size := by
  cases target : v.target? with
  | none => rw [keepTarget_none target]
  | some i =>
    rw [keepTarget_some target, keep]
    split
    · exact (relinked_pushBack _ .scan i).arena.trans ((arena_setMark _ _).trans
        (relinked_withdraw h .aged i).arena)
    · rfl

/-- A slot read behind the barrier is what the cell held before it. -/
theorem approach_read (tidy : s.state.Tidy) (target : r.target? = some i)
    (use : s.state.InUse i) (slot : Cell L → Ref L)
    (only : ∀ c d : Cell L, c.slots = d.slots → slot c = slot d) :
    (do return slot (← fetch (← approach r)) : HeapTask L (Ref L)) s =
      .ok (slot (s.state.cellAt i)) ⟨s.state.keepTarget r, s.journal⟩ := by
  have inside : i < (s.state.keepTarget r).cells.size := by
    rw [arena_keepTarget]
    exact (tidy.threaded.inside_of_inUse use).2
  have same : slot ((s.state.keepTarget r).cellAt i) = slot (s.state.cellAt i) :=
    only _ _ (slots_keepTarget s.state r i)
  simp only [Task.bind_apply, approach_apply tidy target use, Task.pure_apply]
  rw [fetch_apply (s := ⟨s.state.keepTarget r, s.journal⟩) inside]
  simp only [same]

theorem slots_inj {c d : Cell L} (same : c.slots = d.slots) : c.first = d.first ∧ c.rest = d.rest := by
  simpa [Cell.slots] using same

theorem first_apply (tidy : s.state.Tidy) (isPair : r.isPair = true) (target : r.target? = some i)
    (use : s.state.InUse i) :
    first r s = .ok (s.state.cellAt i).first ⟨s.state.keepTarget r, s.journal⟩ := by
  have read := approach_read tidy target use Cell.first fun _ _ same => (slots_inj same).1
  unfold first
  rw [if_neg (by simp [Ref.isNil_of_target? target]), isPair]
  exact read

theorem rest_apply (tidy : s.state.Tidy) (isPair : r.isPair = true) (target : r.target? = some i)
    (use : s.state.InUse i) :
    rest r s = .ok (s.state.cellAt i).rest ⟨s.state.keepTarget r, s.journal⟩ := by
  have read := approach_read tidy target use Cell.rest fun _ _ same => (slots_inj same).2
  unfold rest
  rw [if_neg (by simp [Ref.isNil_of_target? target]), isPair]
  exact read

theorem behavior_apply (tidy : s.state.Tidy) (isActor : r.isActor = true)
    (target : r.target? = some i) (use : s.state.InUse i) :
    behavior r s = .ok (s.state.cellAt i).first ⟨s.state.keepTarget r, s.journal⟩ := by
  have read := approach_read tidy target use Cell.first fun _ _ same => (slots_inj same).1
  unfold behavior
  rw [isActor]
  exact read

theorem state_apply (tidy : s.state.Tidy) (isActor : r.isActor = true)
    (target : r.target? = some i) (use : s.state.InUse i) :
    state r s = .ok (s.state.cellAt i).rest ⟨s.state.keepTarget r, s.journal⟩ := by
  have read := approach_read tidy target use Cell.rest fun _ _ same => (slots_inj same).2
  unfold state
  rw [isActor]
  exact read

/-! ### Writing -/

theorem modifyCell_congr {f g : Cell L → Cell L} (same : f (h.cellAt i) = g (h.cellAt i)) :
    h.modifyCell i f = h.modifyCell i g := by
  unfold modifyCell
  congr 1
  refine Array.ext (by simp) fun j lower upper => ?_
  simp only [Array.size_modify] at lower
  rw [Array.getElem_modify, Array.getElem_modify]
  split
  · rename_i there
    subst there
    have : h.cells[i] = h.cellAt i := by simp [cellAt, Array.getD, lower]
    rw [this, same]
  · rfl

theorem Threaded.members_setSlots (t : h.Threaded h.members) (i : Nat) (v w : Ref L) :
    (h.setSlots i v w).members = h.members :=
  (t.setSlots i v w).members_eq

section
variable (t : h.Threaded h.members)
include t

theorem collectable_setSlots : (h.setSlots i v w).Collectable j ↔ h.Collectable j := by
  rw [Collectable, Collectable, t.members_setSlots]

theorem fixed_setSlots : (h.setSlots i v w).Fixed j ↔ h.Fixed j := by
  rw [Fixed, Fixed, t.members_setSlots, arena_setSlots]

theorem inUse_setSlots : (h.setSlots i v w).InUse j ↔ h.InUse j := by
  rw [InUse, InUse, collectable_setSlots t, fixed_setSlots t]

theorem holds_setSlots : (h.setSlots i v w).Holds r ↔ h.Holds r := by
  simp only [Holds, inUse_setSlots t]

theorem clear_setSlots : (h.setSlots i v w).Clear r ↔ h.Clear r := by
  rw [Clear, Clear, t.members_setSlots]

end

theorem Tidy.setSlots (tidy : h.Tidy) (use : h.InUse i)
    (holds : h.Collectable i → h.Holds v ∧ h.Holds w) : (h.setSlots i v w).Tidy := by
  have inside := tidy.threaded.inside_of_inUse use
  have members := tidy.threaded.members_setSlots i v w
  have slots := slots_setSlots inside.2 v w
  exact
    { threaded := by rw [members]; exact tidy.threaded.setSlots i v w
      parked := by rw [members]; exact tidy.parked.setSlots i v w
      phases := tidy.phases
      fresh := fun j member => by
        rw [members] at member
        rw [mark_setSlots]
        exact tidy.fresh j member
      scan := fun j member => by
        rw [members] at member
        rw [mark_setSlots]
        exact tidy.scan j member
      aged := fun j member => by
        rw [members] at member
        rw [mark_setSlots]
        exact tidy.aged j member
      fixed := fun j fixed => by
        rw [fixed_setSlots tidy.threaded] at fixed
        rw [mark_setSlots]
        exact tidy.fixed j fixed
      heads := fun j low => by rw [mark_setSlots]; exact tidy.heads j low
      idle := by rw [members]; exact tidy.idle
      nil := by
        have low : 0 < firstCell := by decide
        rw [slots, if_neg (by omega), tidy.nil]
      room := by rw [arena_setSlots]; exact tidy.room
      held := fun j on u slot => by
        rw [collectable_setSlots tidy.threaded] at on
        rw [holds_setSlots tidy.threaded]
        rw [slots] at slot
        split at slot
        · rename_i same
          subst same
          rcases List.mem_pair.mp slot with rfl | rfl
          · exact (holds on).1
          · exact (holds on).2
        · exact tidy.held j on u slot }

/-- A heap is sound again once what was stored in a fresh cell is kept. -/
theorem Sound.stored (sound : h.Sound) (use : h.InUse i) (p : Promoted (h.setSlots i v w) k)
    (tidy : k.Tidy) (kept : i ∈ h.members .fresh → k.Clear v ∧ k.Clear w) : k.Sound where
  toTidy := tidy
  sealed j fixed := by
    rw [p.fixed_iff] at fixed
    rw [p.mark j (fixed.2.2 .aged), mark_setSlots]
    exact sound.sealed j ((fixed_setSlots sound.threaded).mp fixed)
  shielded j member u slot := by
    have members := sound.threaded.members_setSlots i v w
    rw [p.others .fresh (by decide) (by decide), members] at member
    rw [p.slots, slots_setSlots (sound.threaded.inside_of_inUse use).2] at slot
    split at slot
    · rename_i same
      subst same
      rcases List.mem_pair.mp slot with rfl | rfl
      · exact (kept member).1
      · exact (kept member).2
    · exact p.clear ((clear_setSlots sound.threaded).mpr (sound.shielded j member u slot))

/-- The heap once the cell `i`, which `r` names, is kept and holds other slots. -/
def written (h : Heap L) (r : Ref L) (i : Nat) (first rest : Ref L) : Heap L :=
  (h.keepTarget r).setSlots i first rest

theorem approach_write (tidy : s.state.Tidy) (target : r.target? = some i)
    (use : s.state.InUse i) (f : Cell L → Cell L) {a b : Ref L}
    (sets : ∀ c, c.slots = s.state.slots i → f c = { c with first := a, rest := b })
    (slotsHold : s.state.Collectable i → s.state.Holds a ∧ s.state.Holds b)
    (holds : s.state.Holds v) :
    (do let i ← approach r; Task.alter (·.modifyCell i f); shade v : HeapTask L Unit) s =
      .ok () ⟨(s.state.written r i a b).keepTarget v, s.journal⟩ := by
  have regular : s.state.Regular r := fun j named => by
    rw [target, Option.some.injEq] at named
    subst named
    exact ⟨(tidy.threaded.inside_of_inUse use).2, tidy.mem_aged_of_mark use⟩
  obtain ⟨kept, promoted, -⟩ := tidy.keepTarget regular
  have wrote : (s.state.keepTarget r).modifyCell i f = s.state.written r i a b :=
    modifyCell_congr (sets _ (slots_keepTarget s.state r i))
  have tidy' : (s.state.written r i a b).Tidy :=
    kept.setSlots (promoted.inUse_iff.mpr use) fun on => by
      rw [promoted.holds_iff, promoted.holds_iff]
      exact slotsHold (promoted.collectable_iff.mp on)
  simp only [Task.bind_apply, approach_apply tidy target use, Task.alter_apply, wrote]
  exact shade_apply (s := ⟨s.state.written r i a b, s.journal⟩) tidy'
    ((holds_setSlots kept.threaded).mpr (promoted.holds_iff.mpr holds))

theorem setFirst_apply (tidy : s.state.Tidy) (isCons : r.isCons = true)
    (target : r.target? = some i) (use : s.state.InUse i) {a b : Ref L}
    (slots : s.state.slots i = [a, b]) (holds : s.state.Holds v) :
    setFirst r v s = .ok () ⟨(s.state.written r i v b).keepTarget v, s.journal⟩ := by
  have write := approach_write tidy target use (fun c => { c with first := v })
    (fun c same => by rw [slots] at same; cases c; simp_all [Cell.slots])
    (fun on => ⟨holds, tidy.held i on b (by simp [slots])⟩) holds
  unfold setFirst
  rw [isCons]
  exact write

theorem setRest_apply (tidy : s.state.Tidy) (isCons : r.isCons = true)
    (target : r.target? = some i) (use : s.state.InUse i) {a b : Ref L}
    (slots : s.state.slots i = [a, b]) (holds : s.state.Holds v) :
    setRest r v s = .ok () ⟨(s.state.written r i a v).keepTarget v, s.journal⟩ := by
  have write := approach_write tidy target use (fun c => { c with rest := v })
    (fun c same => by rw [slots] at same; cases c; simp_all [Cell.slots])
    (fun on => ⟨tidy.held i on a (by simp [slots]), holds⟩) holds
  unfold setRest
  rw [isCons]
  exact write

theorem holds_of_isFunc (isFunc : w.isFunc = true) : h.Holds w := fun i target => by
  rw [Ref.target?_of_isFunc isFunc] at target
  cases target

theorem setActor_apply (tidy : s.state.Tidy) (isActor : r.isActor = true) (isFunc : w.isFunc = true)
    (target : r.target? = some i) (use : s.state.InUse i) (holds : s.state.Holds v) :
    setActor r w v s = .ok () ⟨(s.state.written r i w v).keepTarget v, s.journal⟩ := by
  have write := approach_write tidy target use (fun c => { c with first := w, rest := v })
    (fun c _ => rfl) (fun _ => ⟨holds_of_isFunc isFunc, holds⟩) holds
  unfold setActor
  rw [isActor, isFunc]
  exact write

end Treadmill.Heap

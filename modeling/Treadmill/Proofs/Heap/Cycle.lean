import Mathlib
import Treadmill.Heap.Collect
import Treadmill.Proofs.Heap.Alloc
import Treadmill.Proofs.Heap.Count

/-!
The collector. Its steps change no slot and bring no cell into use (`Turned`). A sweep frees just
the candidates; that no cell left in use names one of them is the tri-colour invariant of a sound
heap with nothing left to scan.
-/

namespace Treadmill.Heap
variable {L : Layout} {h k m : Heap L} {i : Nat} {v : Ref L} {s : Logged (Heap L)}
  {roots : List (Ref L)}

/-- `k` is `h` after some work of the collector. -/
structure Turned (h k : Heap L) : Prop where
  sound : k.Sound
  arena : k.cells.size = h.cells.size
  slots : ∀ i, k.slots i = h.slots i
  fixed : ∀ i, k.Fixed i ↔ h.Fixed i
  collectable : ∀ i, k.Collectable i → h.Collectable i
  reserve : k.members .perm = h.members .perm

theorem Turned.trans (first : Turned h m) (second : Turned m k) : Turned h k where
  sound := second.sound
  arena := second.arena.trans first.arena
  slots i := (second.slots i).trans (first.slots i)
  fixed i := (second.fixed i).trans (first.fixed i)
  collectable i on := first.collectable i (second.collectable i on)
  reserve := second.reserve.trans first.reserve

/-- A cell that is in use no longer is free. -/
theorem Turned.inUse_or_free (turned : Turned h k) (sound : h.Sound) (use : h.InUse i) :
    k.InUse i ∨ i ∈ k.members .free := by
  obtain ⟨low, high, -, notPerm⟩ := sound.threaded.inUse_iff.mp use
  by_cases free : i ∈ k.members .free
  · exact Or.inr free
  · refine Or.inl (turned.sound.threaded.inUse_iff.mpr ⟨low, ?_, free, ?_⟩)
    · rw [turned.arena]
      exact high
    · rw [turned.reserve]
      exact notPerm

theorem Promoted.turned (p : Promoted h k) (sound : k.Sound) : Turned h k :=
  ⟨sound, p.arena, p.slots, fun _ => p.fixed_iff, fun _ => p.collectable_iff.mp,
    p.others .perm (by decide) (by decide)⟩

/-! ### Beginning -/

/-- `k` is `h` with every fresh cell a candidate. -/
structure Begun (h k : Heap L) : Prop extends Turned h k where
  phase : k.phase = h.lastPhase
  lastPhase : k.lastPhase = h.phase
  collecting : k.collecting = true
  cycles : k.cycles = h.cycles
  all : ∀ i, h.Collectable i → k.Collectable i
  fresh : k.members .fresh = []

theorem Tidy.flip_phase (tidy : h.Tidy) : h.phase.flip = h.lastPhase := by
  rcases tidy.phases with ⟨this, last⟩ | ⟨this, last⟩ <;> rw [this, last] <;> rfl

theorem mark_aged (h : Heap L) (i : Nat) : h.aged.mark i = h.mark i :=
  (relinked_splice h .aged .fresh).mark i

theorem lastPhase_aged (h : Heap L) : h.aged.lastPhase = h.phase :=
  (relinked_splice h .aged .fresh).phase

theorem Sound.begun (sound : h.Sound) (resting : h.collecting = false) :
    Begun h h.aged ∧ h.aged.members .scan = [] := by
  have move := relinked_splice h .aged .fresh
  obtain ⟨noAged, noScan⟩ := sound.idle resting
  have rows : h.aged.Threaded (splicedRows h.members .aged .fresh) :=
    (sound.threaded.splice (by decide)).congr (fun _ => rfl) (fun _ => rfl) (fun _ => rfl) rfl
  have members := rows.members_eq
  have parked : h.aged.Parked (splicedRows h.members .aged .fresh) :=
    (sound.threaded.splice_parked sound.parked (by decide)).congr (fun _ => rfl) (fun _ => rfl) rfl
  have fresh : h.aged.members .fresh = [] := by rw [members, splicedRows_source]
  have aged : h.aged.members .aged = h.members .fresh := by
    rw [members, splicedRows_target _ (by decide), noAged, List.nil_append]
  have others : ∀ r, r ≠ .aged → r ≠ .fresh → h.aged.members r = h.members r := fun r one two => by
    rw [members, splicedRows_other _ one two]
  have scan : h.aged.members .scan = [] := by rw [others _ (by decide) (by decide), noScan]
  have mark := mark_aged h
  have slots : ∀ i, h.aged.slots i = h.slots i := move.slots
  have arena : h.aged.cells.size = h.cells.size := move.arena
  have phase : h.aged.phase = h.lastPhase := by
    rw [← sound.flip_phase, ← move.phase]
    rfl
  have lastPhase := lastPhase_aged h
  have collectable : ∀ i, h.aged.Collectable i ↔ h.Collectable i := fun i => by
    rw [Collectable, Collectable, fresh, aged, scan, noAged, noScan]
    simp
  have fixed : ∀ i, h.aged.Fixed i ↔ h.Fixed i := fun i => by
    rw [fixed_iff, fixed_iff, arena, fresh, aged, scan, noAged, noScan,
      others .free (by decide) (by decide), others .perm (by decide) (by decide)]
    simp only [List.not_mem_nil, not_false_eq_true, true_and]
  have inUse : ∀ i, h.aged.InUse i ↔ h.InUse i := fun i => by
    rw [InUse, InUse, collectable, fixed]
  have tidy : h.aged.Tidy :=
    { threaded := rows.members
      parked := by rw [members]; exact parked
      phases := by rw [phase, lastPhase]; exact sound.phases.symm.imp And.symm And.symm
      fresh := by rw [fresh]; simp
      scan := by rw [scan]; simp
      aged := fun i on => by
        rw [aged] at on
        rw [mark, lastPhase, sound.fresh i on]
      fixed := fun i on => by
        rw [mark, lastPhase, sound.sealed i ((fixed i).mp on)]
        rcases sound.phases with ⟨this, -⟩ | ⟨this, -⟩ <;> rw [this] <;> decide
      heads := fun i low => by rw [mark, sound.heads i low]
      idle := fun resting => by cases resting
      nil := by rw [slots, sound.nil]
      room := by rw [arena]; exact sound.room
      held := fun i on v slot j target => by
        rw [collectable] at on
        rw [slots] at slot
        exact (inUse j).mpr (sound.held i on v slot j target) }
  have begun : Begun h h.aged :=
    { sound := ⟨tidy, fun i on => by rw [mark, sound.sealed i ((fixed i).mp on)],
        by rw [fresh]; simp⟩
      arena := arena
      slots := slots
      fixed := fixed
      collectable := fun i => (collectable i).mp
      reserve := others .perm (by decide) (by decide)
      phase := phase
      lastPhase := lastPhase
      collecting := rfl
      cycles := move.cycles
      all := fun i => (collectable i).mpr
      fresh := fresh }
  exact ⟨begun, scan⟩

theorem age_busy (busy : s.state.collecting = true) : age s = .error .cycleUnderWay s := by
  simp [age, Task.bind_apply, busy]

theorem age_apply (resting : s.state.collecting = false) :
    ∃ j, age s = .ok () ⟨s.state.aged, j⟩ := by
  exact ⟨_, by simp [age, Task.bind_apply, resting]; rfl⟩

/-- The heap once what the references name is kept. -/
def keepAll (h : Heap L) (roots : List (Ref L)) : Heap L := roots.foldl keepTarget h

theorem Sound.keepAll (sound : h.Sound) (regular : ∀ v ∈ roots, h.Regular v) :
    (h.keepAll roots).Sound ∧ Promoted h (h.keepAll roots) ∧
      ∀ v ∈ roots, (h.keepAll roots).Clear v := by
  induction roots generalizing h with
  | nil => exact ⟨sound, .refl h, by simp⟩
  | cons v roots ih =>
    obtain ⟨kept, first, clear⟩ := sound.keepTarget (regular v (by simp))
    obtain ⟨kept', rest, clears⟩ := ih kept fun w on =>
      first.regular kept.toTidy (regular w (by simp [on]))
    refine ⟨kept', first.trans rest, fun w on => ?_⟩
    rcases List.mem_cons.mp on with rfl | on
    · exact rest.clear clear
    · exact clears w on

theorem scanAll_apply (sound : s.state.Sound) (regular : ∀ v ∈ roots, s.state.Regular v) :
    roots.forM scanValue s = .ok () ⟨s.state.keepAll roots, s.journal⟩ := by
  induction roots generalizing s with
  | nil => rfl
  | cons v roots ih =>
    obtain ⟨kept, first, -⟩ := sound.keepTarget (regular v (by simp))
    change (scanValue v >>= fun _ => roots.forM scanValue) s = _
    rw [Task.bind_apply, scanValue_apply sound.threaded (regular v (by simp))]
    exact ih (s := ⟨s.state.keepTarget v, s.journal⟩) kept fun w on =>
      first.regular kept.toTidy (regular w (by simp [on]))

theorem beginCollect_eq (sound : s.state.Sound) (resting : s.state.collecting = false)
    (regular : ∀ v ∈ roots, s.state.aged.Regular v) :
    ∃ j, beginCollect roots s = .ok () ⟨s.state.aged.keepAll roots, j⟩ := by
  obtain ⟨j, began⟩ := age_apply resting
  obtain ⟨begun, -⟩ := sound.begun resting
  refine ⟨j, ?_⟩
  unfold beginCollect
  rw [Task.bind_apply, began]
  exact scanAll_apply (s := ⟨s.state.aged, j⟩) begun.sound regular

/-- A cycle begins with the roots out of danger, whether or not their cells are in use. -/
theorem beginCollect_apply (sound : s.state.Sound) (resting : s.state.collecting = false)
    (regular : ∀ v ∈ roots, s.state.aged.Regular v) :
    ∃ k j, beginCollect roots s = .ok () ⟨k, j⟩ ∧ Begun s.state k ∧ ∀ v ∈ roots, k.Clear v := by
  obtain ⟨j, began⟩ := beginCollect_eq sound resting regular
  obtain ⟨begun, -⟩ := sound.begun resting
  obtain ⟨kept, p, clear⟩ := begun.sound.keepAll regular
  refine ⟨_, j, began, ?_, clear⟩
  exact
    { toTurned := begun.toTurned.trans (p.turned kept)
      phase := p.phase.trans begun.phase
      lastPhase := p.lastPhase.trans begun.lastPhase
      collecting := p.collecting.trans begun.collecting
      cycles := p.cycles.trans begun.cycles
      all := fun i on => p.collectable_iff.mpr (begun.all i on)
      fresh := (p.others .fresh (by decide) (by decide)).trans begun.fresh }

theorem beginCollect_busy (busy : s.state.collecting = true) :
    beginCollect roots s = .error .cycleUnderWay s := by
  unfold beginCollect
  rw [Task.bind_apply, age_busy busy]

/-! ### Tracing -/

/-- `k` is `h` once one cell has been traced. -/
structure Traced (h k : Heap L) : Prop extends Turned h k, SameCycle h k where
  all : ∀ i, h.Collectable i → k.Collectable i
  aged : ∀ i ∈ k.members .aged, i ∈ h.members .aged
  count : (k.members .aged).length + (k.members .scan).length + 1 =
    (h.members .aged).length + (h.members .scan).length

/-- `m` is `h` with the cell `i` taken off the scan ring to be traced. -/
structure Lifted (h m : Heap L) (i : Nat) : Prop extends Relinked h m where
  tidy : m.Tidy
  loose : ∀ r, i ∉ m.members r
  others : ∀ r, r ≠ .scan → m.members r = h.members r
  scan : ∀ j, j ∈ h.members .scan ↔ j = i ∨ j ∈ m.members .scan
  count : (m.members .scan).length + 1 = (h.members .scan).length
  fixed : ∀ j, m.Fixed j ↔ h.Fixed j ∨ j = i

theorem Lifted.inUse_iff (lifted : Lifted h m i) {j : Nat} : m.InUse j ↔ h.InUse j := by
  rw [InUse, InUse, Collectable, Collectable, lifted.fixed, lifted.scan,
    lifted.others .fresh (by decide), lifted.others .aged (by decide)]
  simp only [or_assoc, or_comm, or_left_comm]

/-- A cell that is taken off its ring is on none. -/
theorem Threaded.fixed_withdraw {r : Ring} {j : Nat} (t : h.Threaded h.members)
    (on : i ∈ h.members r) : (h.withdraw r i).Fixed j ↔ h.Fixed j ∨ j = i := by
  unfold Fixed
  rw [(relinked_withdraw h r i).arena, (t.withdraw on).members_eq]
  by_cases same : j = i
  · subst same
    simpa using ⟨(t.inside on).1, (t.inside on).2, t.strung.loose on⟩
  · have row : ∀ q, j ∈ Function.update h.members r ((h.members r).erase i) q ↔ j ∈ h.members q := by
      intro q
      rcases eq_or_ne q r with rfl | other
      · rw [Function.update_self, List.mem_erase_of_ne same]
      · rw [Function.update_of_ne other]
    simp only [row, same, or_false]

theorem Sound.lift (sound : h.Sound) (onScan : i ∈ h.members .scan) :
    Lifted h (h.withdraw .scan i) i := by
  have out := relinked_withdraw h .scan i
  have rows := sound.threaded.withdraw onScan
  have parked := sound.threaded.withdraw_parked sound.parked onScan
  have members := rows.members_eq
  have loose : ∀ r, i ∉ (h.withdraw .scan i).members r := by
    rw [members]
    exact sound.threaded.strung.loose onScan
  have others : ∀ r, r ≠ .scan → (h.withdraw .scan i).members r = h.members r := fun r other => by
    rw [members, Function.update_of_ne other]
  have left : (h.withdraw .scan i).members .scan = (h.members .scan).erase i := by
    rw [members, Function.update_self]
  have only := fun j => (sound.threaded.nodup .scan).mem_erase_iff (a := j) (b := i)
  have scan : ∀ j, j ∈ h.members .scan ↔ j = i ∨ j ∈ (h.withdraw .scan i).members .scan := by
    intro j
    rw [left, only]
    by_cases same : j = i <;> simp [same, onScan]
  have fixed := fun j => sound.threaded.fixed_withdraw onScan (j := j)
  have inUse : ∀ j, (h.withdraw .scan i).InUse j ↔ h.InUse j := fun j => by
    rw [InUse, InUse, Collectable, Collectable, fixed, scan, others .fresh (by decide),
      others .aged (by decide)]
    simp only [or_assoc, or_comm, or_left_comm]
  have tidy : (h.withdraw .scan i).Tidy :=
    { threaded := rows.members
      parked := by rw [members]; exact parked
      phases := by rw [out.phase, out.lastPhase]; exact sound.phases
      fresh := fun j on => by
        rw [others .fresh (by decide)] at on
        rw [out.mark, out.phase, sound.fresh j on]
      scan := fun j on => by rw [out.mark, out.phase, sound.scan j ((scan j).mpr (Or.inr on))]
      aged := fun j on => by
        rw [others .aged (by decide)] at on
        rw [out.mark, out.lastPhase, sound.toTidy.aged j on]
      fixed := fun j on => by
        rw [out.mark, out.lastPhase]
        rcases (fixed j).mp on with on | rfl
        · exact sound.toTidy.fixed j on
        · rw [sound.scan j onScan]
          exact sound.phase_ne
      heads := fun j low => by rw [out.mark, sound.heads j low]
      idle := fun resting => by
        rw [out.collecting] at resting
        rw [(sound.idle resting).2] at onScan
        cases onScan
      nil := by rw [out.slots, sound.nil]
      room := by rw [out.arena]; exact sound.room
      held := fun j on v slot c target => by
        rw [out.slots] at slot
        refine (inUse c).mpr (sound.held j ?_ v slot c target)
        rw [Collectable, others .fresh (by decide), others .aged (by decide)] at on
        exact on.imp id (Or.imp id fun scanned => (scan j).mpr (Or.inr scanned)) }
  refine ⟨out, tidy, loose, others, scan, ?_, fixed⟩
  have := List.length_pos_of_mem onScan
  rw [left, List.length_erase_of_mem onScan]
  omega

section
variable (lifted : Lifted h m i) (p : Promoted m k) (tidy : k.Tidy)
include lifted p

/-- What is kept meanwhile leaves the cell off the rings. -/
theorem Lifted.loose_kept : k.Fixed i :=
  p.fixed_iff.mpr ((lifted.fixed i).mpr (Or.inr rfl))

theorem Lifted.slots_returned (j : Nat) : (k.pushFront .fresh i).slots j = h.slots j := by
  rw [(relinked_pushFront k .fresh i).slots, p.slots, lifted.slots]

theorem Lifted.sameCycle_returned : SameCycle h (k.pushFront .fresh i) :=
  (lifted.toSameCycle.trans p.toSameCycle).trans (relinked_pushFront k .fresh i).toSameCycle

include tidy

theorem Lifted.rows_returned :
    (k.pushFront .fresh i).Threaded (Function.update k.members .fresh (i :: k.members .fresh)) :=
  have loose := lifted.loose_kept p
  tidy.threaded.pushFront .fresh loose.2.2 ⟨loose.1, loose.2.1⟩

theorem Lifted.fresh_returned {j : Nat} :
    j ∈ (k.pushFront .fresh i).members .fresh ↔ j = i ∨ j ∈ k.members .fresh := by
  rw [(lifted.rows_returned p tidy).members_eq, Function.update_self, List.mem_cons]

theorem Lifted.others_returned {r : Ring} (other : r ≠ .fresh) :
    (k.pushFront .fresh i).members r = k.members r := by
  rw [(lifted.rows_returned p tidy).members_eq, Function.update_of_ne other]

/-- The cell that came off the scan ring is on the fresh one. -/
theorem Lifted.collectable_returned {j : Nat} : (k.pushFront .fresh i).Collectable j ↔ h.Collectable j := by
  have kept := p.collectable_iff (i := j)
  rw [Collectable, Collectable, lifted.others .fresh (by decide), lifted.others .aged (by decide)] at kept
  rw [Collectable, Collectable, lifted.fresh_returned p tidy, lifted.others_returned p tidy (by decide),
    lifted.others_returned p tidy (by decide), lifted.scan, or_assoc, kept]
  simp only [or_left_comm]

theorem Lifted.fixed_returned (out : ¬h.Fixed i) {j : Nat} :
    (k.pushFront .fresh i).Fixed j ↔ h.Fixed j := by
  have others := fun r (other : r ≠ .fresh) => lifted.others_returned p tidy (r := r) other
  have kept : (k.pushFront .fresh i).Fixed j ↔ j ≠ i ∧ k.Fixed j := by
    rw [fixed_iff, fixed_iff, (relinked_pushFront k .fresh i).arena, lifted.fresh_returned p tidy,
      others .free (by decide), others .aged (by decide), others .scan (by decide),
      others .perm (by decide), not_or]
    simp only [and_assoc, and_left_comm, ne_eq]
  rw [kept, p.fixed_iff, lifted.fixed]
  by_cases same : j = i
  · simp [same, out]
  · simp [same]

theorem Lifted.tidy_returned (sound : h.Sound) (onScan : i ∈ h.members .scan) (out : ¬h.Fixed i) :
    (k.pushFront .fresh i).Tidy := by
  have back := relinked_pushFront k .fresh i
  have rows := lifted.rows_returned p tidy
  have same := lifted.sameCycle_returned p
  have others := fun r (other : r ≠ .fresh) => lifted.others_returned p tidy (r := r) other
  have loose := lifted.loose_kept p
  have inUse : ∀ j, (k.pushFront .fresh i).InUse j ↔ h.InUse j := fun j => by
    rw [InUse, InUse, lifted.collectable_returned p tidy, lifted.fixed_returned p tidy out]
  exact
    { threaded := rows.members
      parked := by
        rw [rows.members_eq]
        exact tidy.threaded.pushFront_parked tidy.parked .fresh loose.2.1
      phases := by rw [same.phase, same.lastPhase]; exact sound.phases
      fresh := fun j on => by
        rw [back.mark, back.phase]
        rcases (lifted.fresh_returned p tidy).mp on with rfl | on
        · rw [p.mark j (lifted.loose .aged), p.phase, lifted.mark, lifted.phase, sound.scan j onScan]
        · exact tidy.fresh j on
      scan := fun j on => by
        rw [others .scan (by decide)] at on
        rw [back.mark, back.phase, tidy.scan j on]
      aged := fun j on => by
        rw [others .aged (by decide)] at on
        rw [back.mark, back.lastPhase, tidy.aged j on]
      fixed := fun j on => by
        rw [back.mark, back.lastPhase]
        exact tidy.fixed j (p.fixed_iff.mpr ((lifted.fixed j).mpr
          (Or.inl ((lifted.fixed_returned p tidy out).mp on))))
      heads := fun j low => by rw [back.mark, tidy.heads j low]
      idle := fun resting => by
        rw [same.collecting] at resting
        rw [(sound.idle resting).2] at onScan
        cases onScan
      nil := by rw [lifted.slots_returned p, sound.nil]
      room := by rw [back.arena]; exact tidy.room
      held := fun j on v slot c target => by
        rw [lifted.slots_returned p] at slot
        exact (inUse c).mpr
          (sound.held j ((lifted.collectable_returned p tidy).mp on) v slot c target) }

end

/-- A cell off the rings whose slots are out of danger may become fresh. -/
theorem Sound.traced (sound : h.Sound) (onScan : i ∈ h.members .scan) (lifted : Lifted h m i)
    (p : Promoted m k) (tidy : k.Tidy) (clear : ∀ v ∈ h.slots i, k.Clear v) :
    Traced h (k.pushFront .fresh i) := by
  have back := relinked_pushFront k .fresh i
  have out : ¬h.Fixed i := fun fixed => fixed.2.2 .scan onScan
  have fixed := fun j => lifted.fixed_returned p tidy out (j := j)
  have collectable := fun j => lifted.collectable_returned p tidy (j := j)
  have slots := lifted.slots_returned p
  have same := lifted.sameCycle_returned p
  have others := fun r (other : r ≠ .fresh) => lifted.others_returned p tidy (r := r) other
  have kept := lifted.tidy_returned p tidy sound onScan out
  refine ⟨⟨⟨kept, fun j on => ?_, fun j on v slot c target danger => ?_⟩, ?_, slots, fixed,
    fun j => (collectable j).mp, ?_⟩, same, fun j => (collectable j).mpr, fun j on => ?_, ?_⟩
  · have old := (fixed j).mp on
    rw [back.mark, p.mark j ?_, lifted.mark, sound.sealed j old]
    rw [lifted.others .aged (by decide)]
    exact old.2.2 .aged
  · rw [others .aged (by decide)] at danger
    rw [slots] at slot
    rcases (lifted.fresh_returned p tidy).mp on with rfl | on
    · exact clear v slot c target danger
    · rw [p.others .fresh (by decide) (by decide), lifted.others .fresh (by decide)] at on
      have := p.aged c danger
      rw [lifted.others .aged (by decide)] at this
      exact sound.shielded j on v slot c target this
  · rw [back.arena, p.arena, lifted.arena]
  · rw [others .perm (by decide), p.others .perm (by decide) (by decide),
      lifted.others .perm (by decide)]
  · rw [others .aged (by decide)] at on
    have := p.aged j on
    rwa [lifted.others .aged (by decide)] at this
  · rw [others .aged (by decide), others .scan (by decide), p.count, Nat.add_assoc, lifted.count,
      lifted.others .aged (by decide)]

theorem scan_both {a b : Ref L} (tidy : s.state.Tidy) (first : s.state.Regular a)
    (rest : s.state.Regular b) (after : HeapTask L α) :
    (do scanValue a; scanValue b; after) s = after ⟨s.state.keepBoth a b, s.journal⟩ := by
  obtain ⟨kept, p, -⟩ := tidy.keepTarget first
  rw [Task.bind_apply, scanValue_apply tidy.threaded first]
  dsimp only
  rw [Task.bind_apply, scanValue_apply (s := ⟨s.state.keepTarget a, s.journal⟩) kept.threaded
    (p.regular kept rest)]
  rfl

theorem traceStep_none (sound : s.state.Sound) (empty : s.state.members .scan = []) :
    traceStep s = .ok false s := by
  simp [traceStep, Task.bind_apply, sound.threaded.strung.popFront_nil empty]

/-- The first cell of the scan ring is lifted, its slots are kept, and it becomes fresh. -/
theorem traceStep_cons (sound : s.state.Sound) {row : List Nat}
    (shape : s.state.members .scan = i :: row) :
    Lifted s.state (s.state.withdraw .scan i) i ∧
      (∀ v ∈ s.state.slots i, (s.state.withdraw .scan i).Regular v) ∧
      ∃ a b, s.state.slots i = [a, b] ∧
        traceStep s = .ok true ⟨((s.state.withdraw .scan i).keepBoth a b).pushFront .fresh i, s.journal⟩ := by
  have onScan : i ∈ s.state.members .scan := by simp [shape]
  have lifted := sound.lift onScan
  have inside : i < (s.state.withdraw .scan i).cells.size := by
    rw [lifted.arena]
    exact (sound.threaded.inside onScan).2
  have slots := lifted.slots i
  have regular : ∀ v ∈ s.state.slots i, (s.state.withdraw .scan i).Regular v := fun v slot =>
    lifted.tidy.regular fun c target => lifted.inUse_iff.mpr
      (sound.held i (Or.inr (Or.inr onScan)) v slot c target)
  have first := regular ((s.state.withdraw .scan i).cellAt i).first (by
    rw [← slots]
    simp [Heap.slots, Cell.slots])
  have rest := regular ((s.state.withdraw .scan i).cellAt i).rest (by
    rw [← slots]
    simp [Heap.slots, Cell.slots])
  refine ⟨lifted, regular, _, _, slots.symm, ?_⟩
  unfold traceStep
  rw [Task.bind_apply, Task.change_apply, sound.threaded.strung.popFront_cons shape]
  dsimp only
  rw [Task.bind_apply, fetch_apply (s := ⟨s.state.withdraw .scan i, s.journal⟩) inside]
  exact scan_both (s := ⟨s.state.withdraw .scan i, s.journal⟩) lifted.tidy first rest _

theorem traceStep_some (sound : s.state.Sound) (filled : s.state.members .scan ≠ []) :
    ∃ k, traceStep s = .ok true ⟨k, s.journal⟩ ∧ Traced s.state k := by
  obtain ⟨i, row, shape⟩ := List.exists_cons_of_ne_nil filled
  obtain ⟨lifted, regular, a, b, slots, done⟩ := traceStep_cons sound shape
  rw [slots] at regular
  obtain ⟨tidy, p, clearFirst, clearRest⟩ := lifted.tidy.keepBoth (regular a (by simp))
    (regular b (by simp))
  refine ⟨_, done, sound.traced (by simp [shape]) lifted p tidy ?_⟩
  rw [slots]
  simpa using ⟨clearFirst, clearRest⟩

/-! ### Sweeping -/

/-- `k` is `h` with its candidates free. -/
structure Swept (h k : Heap L) : Prop extends Turned h k where
  phase : k.phase = h.phase
  lastPhase : k.lastPhase = h.lastPhase
  collecting : k.collecting = false
  cycles : k.cycles = h.cycles + 1
  fresh : k.members .fresh = h.members .fresh
  aged : k.members .aged = []
  scan : k.members .scan = []
  mark : ∀ i, k.mark i = h.mark i

theorem Sound.sweep (sound : h.Sound) (traced : h.members .scan = []) : Swept h h.swept := by
  have move := relinked_splice h .free .aged
  have rows : h.swept.Threaded (splicedRows h.members .free .aged) :=
    (sound.threaded.splice (by decide)).congr (fun _ => rfl) (fun _ => rfl) (fun _ => rfl) rfl
  have members := rows.members_eq
  have parked : h.swept.Parked (splicedRows h.members .free .aged) :=
    (sound.threaded.splice_parked sound.parked (by decide)).congr (fun _ => rfl) (fun _ => rfl) rfl
  have aged : h.swept.members .aged = [] := by rw [members, splicedRows_source]
  have free : h.swept.members .free = h.members .free ++ h.members .aged := by
    rw [members, splicedRows_target _ (by decide)]
  have others : ∀ r, r ≠ .free → r ≠ .aged → h.swept.members r = h.members r := fun r one two => by
    rw [members, splicedRows_other _ one two]
  have fresh := others .fresh (by decide) (by decide)
  have scan : h.swept.members .scan = [] := by rw [others _ (by decide) (by decide), traced]
  have mark : ∀ i, h.swept.mark i = h.mark i := move.mark
  have slots : ∀ i, h.swept.slots i = h.slots i := move.slots
  have arena : h.swept.cells.size = h.cells.size := move.arena
  have phase : h.swept.phase = h.phase := move.phase
  have lastPhase : h.swept.lastPhase = h.lastPhase := move.lastPhase
  have collectable : ∀ i, h.swept.Collectable i ↔ i ∈ h.members .fresh := fun i => by
    rw [Collectable, fresh, aged, scan]
    simp
  have fixed : ∀ i, h.swept.Fixed i ↔ h.Fixed i := fun i => by
    rw [fixed_iff, fixed_iff, arena, free, fresh, aged, scan, traced,
      others .perm (by decide) (by decide), List.mem_append, not_or]
    simp only [List.not_mem_nil, not_false_eq_true, true_and, and_assoc, and_left_comm]
  have tidy : h.swept.Tidy :=
    { threaded := rows.members
      parked := by rw [members]; exact parked
      phases := by rw [phase, lastPhase]; exact sound.phases
      fresh := fun i on => by
        rw [fresh] at on
        rw [mark, phase, sound.fresh i on]
      scan := by rw [scan]; simp
      aged := by rw [aged]; simp
      fixed := fun i on => by
        rw [mark, lastPhase]
        exact sound.toTidy.fixed i ((fixed i).mp on)
      heads := fun i low => by rw [mark, sound.heads i low]
      idle := fun _ => ⟨aged, scan⟩
      nil := by rw [slots, sound.nil]
      room := by rw [arena]; exact sound.room
      -- a fresh cell names no candidate, so what it names is still in use
      held := fun i on v slot j target => by
        have onFresh := (collectable i).mp on
        rw [slots] at slot
        rcases sound.held i (Or.inl onFresh) v slot j target with (fresh | danger | scanned) | fixed'
        · exact Or.inl ((collectable j).mpr fresh)
        · exact absurd danger (sound.shielded i onFresh v slot j target)
        · rw [traced] at scanned
          cases scanned
        · exact Or.inr ((fixed j).mpr fixed') }
  refine ⟨⟨⟨tidy, fun i on => ?_, fun i _ v _ j _ danger => ?_⟩, arena, slots, fixed,
    fun i on => Or.inl ((collectable i).mp on), others .perm (by decide) (by decide)⟩, phase, lastPhase, rfl, ?_,
    fresh, aged, scan, mark⟩
  · rw [mark, sound.sealed i ((fixed i).mp on)]
  · rw [aged] at danger
    cases danger
  · rw [← move.cycles]
    rfl

theorem noteEach_apply (e : Nat → Event) (cells : List Nat) (s : Logged (Heap L)) :
    ∃ j, (cells.forM fun i => Task.note (e i) : HeapTask L Unit) s = .ok () ⟨s.state, j⟩ := by
  induction cells generalizing s with
  | nil => exact ⟨s.journal, rfl⟩
  | cons i cells ih => exact ih ⟨s.state, s.journal.add (e i)⟩

theorem noteDeaths_apply (s : Logged (Heap L)) : ∃ j, noteDeaths s = .ok () ⟨s.state, j⟩ := by
  cases traced : s.state.traced with
  | true =>
    obtain ⟨j, noted⟩ := noteEach_apply (fun i => .cellDied i) (s.state.members .aged) s
    refine ⟨j, ?_⟩
    rw [noteDeaths, Task.bind_apply, Task.view_apply, traced]
    exact noted
  | false => exact ⟨s.journal, by simp [noteDeaths, Task.bind_apply, traced]⟩

theorem sweep_idle (resting : s.state.collecting = false) :
    sweep s = .ok () ⟨s.state, s.journal.add .nothingToSweep⟩ := by
  simp [sweep, Task.bind_apply, resting]

theorem sweep_untraced (sound : s.state.Sound) (busy : s.state.collecting = true)
    (untraced : s.state.members .scan ≠ []) :
    sweep s = .error (.tally .untraced (s.state.members .scan).length 0) s := by
  simp [sweep, endCycle, Task.bind_apply, busy, untraced, sound.threaded.recorded]

theorem sweep_swept (sound : s.state.Sound) (busy : s.state.collecting = true)
    (traced : s.state.members .scan = []) :
    ∃ j, sweep s = .ok () ⟨s.state.swept, j⟩ ∧ Swept s.state s.state.swept := by
  have counted : s.state.size .scan = 0 := by rw [sound.threaded.recorded, traced]; rfl
  obtain ⟨j, noted⟩ := noteDeaths_apply s
  have swept := sound.sweep traced
  refine ⟨j.add (.cycleEnded s.state.swept.cycles (s.state.size .aged)), ?_, swept⟩
  simp only [sweep, Task.bind_apply, Task.view_apply, busy, if_true, endCycle, counted,
    decide_true, Task.require_true, Task.pure_apply, noted, Task.alter_apply, Task.note_apply]
  exact checkAllRings_apply (s := ⟨s.state.swept, _⟩) swept.sound.threaded

theorem sweep_apply (sound : s.state.Sound) (busy : s.state.collecting = true)
    (traced : s.state.members .scan = []) :
    ∃ k j, sweep s = .ok () ⟨k, j⟩ ∧ Swept s.state k :=
  ⟨_, sweep_swept sound busy traced⟩

/-! ### Whole cycles -/

/-- `k` is `h` once the cycle under way has come to its end. -/
structure Finished (h k : Heap L) : Prop extends Turned h k where
  phase : k.phase = h.phase
  lastPhase : k.lastPhase = h.lastPhase
  collecting : k.collecting = false
  spent : ∀ i, h.Collectable i → k.Collectable i ∨ k.mark i = k.lastPhase
  kept : ∀ i, h.Collectable i → i ∉ h.members .aged → k.Collectable i

theorem traceFrom_apply (sound : s.state.Sound) {n : Nat} (done : Nat)
    (enough : (s.state.members .aged).length + (s.state.members .scan).length < n) :
    ∃ c k j, traceFrom n done s = .ok c ⟨k, j⟩ ∧ Turned s.state k ∧ SameCycle s.state k ∧
      (∀ i, s.state.Collectable i → k.Collectable i) ∧
      (∀ i ∈ k.members .aged, i ∈ s.state.members .aged) ∧ k.members .scan = [] := by
  induction n generalizing s done with
  | zero => exact absurd enough (Nat.not_lt_zero _)
  | succ n ih =>
    by_cases filled : s.state.members .scan = []
    · exact ⟨done, s.state, s.journal,
        by simp [traceFrom, Task.bind_apply, traceStep_none sound filled],
        (Promoted.refl _).turned sound, .refl _, fun _ => id, fun _ => id, filled⟩
    · obtain ⟨m, stepped, first⟩ := traceStep_some sound filled
      have count := first.count
      obtain ⟨c, k, j, ran, turned, same, all, aged, traced⟩ :=
        ih (s := ⟨m, s.journal⟩) first.sound (done + 1) (by dsimp only; omega)
      exact ⟨c, k, j, by simp [traceFrom, Task.bind_apply, stepped, ran],
        first.toTurned.trans turned, first.toSameCycle.trans same, fun i on => all i (first.all i on),
        fun i on => first.aged i (aged i on), traced⟩

theorem Threaded.two_rows_le (t : h.Threaded h.members) :
    (h.members .aged).length + (h.members .scan).length ≤ h.cells.size := by
  have counted := t.total_add
  have aged : h.sizes.aged = _ := t.recorded .aged
  have scan : h.sizes.scan = _ := t.recorded .scan
  rw [← aged, ← scan]
  simp only [Sizes.total] at counted
  omega

theorem finishCollect_apply (sound : s.state.Sound) (busy : s.state.collecting = true) :
    ∃ k j, finishCollect s = .ok () ⟨k, j⟩ ∧ Finished s.state k := by
  have fits := sound.threaded.two_rows_le
  obtain ⟨c, m, j, traced, turned, same, all, aged, empty⟩ :=
    traceFrom_apply sound (n := s.state.cells.size + 1) 0 (by omega)
  obtain ⟨k, l, swept, end'⟩ := sweep_apply (s := ⟨m, j⟩) turned.sound
    (same.collecting.trans busy) empty
  refine ⟨k, l, ?_, ?_⟩
  · simp [finishCollect, traceAll, Task.bind_apply, traced, swept]
  · exact
      { toTurned := turned.trans end'.toTurned
        phase := end'.phase.trans same.phase
        lastPhase := end'.lastPhase.trans same.lastPhase
        collecting := end'.collecting
        spent := fun i on => by
          rcases all i on with fresh | aged | scanned
          · exact Or.inl (Or.inl (by rw [end'.fresh]; exact fresh))
          · exact Or.inr (by
              rw [end'.mark, end'.lastPhase]
              exact turned.sound.toTidy.aged i aged)
          · rw [empty] at scanned
            cases scanned
        kept := fun i on safe => by
          rcases all i on with fresh | danger | scanned
          · exact Or.inl (by rw [end'.fresh]; exact fresh)
          · exact absurd (aged i danger) safe
          · rw [empty] at scanned
            cases scanned }

/-- A cell that was freed at the end of the last cycle is no candidate of the next. -/
theorem Finished.regular (finished : Finished h k) (sound : h.Sound) (holds : h.Holds v) :
    k.aged.Regular v := by
  obtain ⟨begun, -⟩ := finished.sound.begun finished.collecting
  intro i target
  have use := holds i target
  have inside := (sound.threaded.inside_of_inUse use).2
  refine ⟨by rw [begun.arena, finished.arena]; exact inside, fun marked => ?_⟩
  rw [mark_aged, lastPhase_aged] at marked
  have still : k.InUse i := by
    rcases use with on | fixed
    · rcases finished.spent i on with on | dead
      · exact Or.inl on
      · exact absurd (marked.symm.trans dead) finished.sound.phase_ne
    · exact Or.inr ((finished.fixed i).mpr fixed)
  refine begun.sound.mem_aged_of_mark ?_ (by rw [mark_aged, lastPhase_aged, marked])
  exact still.imp (begun.all i) (begun.fixed i).mpr

theorem Sound.finished (sound : h.Sound) (resting : h.collecting = false) : Finished h h :=
  ⟨(Promoted.refl h).turned sound, rfl, rfl, resting, fun _ => Or.inl, fun _ on _ => on⟩

/-- A whole cycle frees no root that is not a candidate when it is asked for. -/
theorem fullCollect_apply (sound : s.state.Sound) (holds : ∀ v ∈ roots, s.state.Holds v) :
    ∃ k j, fullCollect roots s = .ok () ⟨k, j⟩ ∧ Turned s.state k ∧ k.collecting = false ∧
      ∀ v ∈ roots, s.state.Clear v → ∀ i, v.target? = some i → s.state.Collectable i →
        k.Collectable i := by
  obtain ⟨m, j, ended, finished⟩ : ∃ m j, (Task.when s.state.collecting finishCollect) s =
      .ok () ⟨m, j⟩ ∧ Finished s.state m := by
    cases busy : s.state.collecting with
    | false => exact ⟨s.state, s.journal, rfl, sound.finished busy⟩
    | true => exact finishCollect_apply sound busy
  obtain ⟨n, l, begun, start, clear⟩ := beginCollect_apply (s := ⟨m, j⟩) finished.sound
    finished.collecting fun v on => finished.regular sound (holds v on)
  obtain ⟨k, o, ran, final⟩ := finishCollect_apply (s := ⟨n, l⟩) start.sound start.collecting
  refine ⟨k, o, by simp [fullCollect, Task.bind_apply, ended, begun, ran],
    (finished.toTurned.trans start.toTurned).trans final.toTurned, final.collecting, ?_⟩
  intro v on safe i target use
  exact final.kept i (start.all i (finished.kept i use (safe i target))) (clear v on i target)

end Treadmill.Heap

import Mathlib
import Treadmill.Proofs.Heap.Floating

/-!
Whole cycles. One that begins with its roots keeps just what is in reach of them (`Collected`). One that
is asked for while another is under way lets that come to its end first, which frees every candidate that
is not in reach of a cell still to be traced (`finishCollect_fresh`), the given roots among them.
-/

namespace Treadmill.Heap
variable {L : Layout} {h k m : Heap L} {s : Logged (Heap L)} {roots : List (Ref L)} {i : Nat}
  {source : Nat → Prop}

/-- `k` is what a whole cycle leaves of `h`. -/
structure Collected (roots : List (Ref L)) (h k : Heap L) : Prop extends Turned h k where
  phase : k.phase = h.lastPhase
  lastPhase : k.lastPhase = h.phase
  collecting : k.collecting = false
  cycles : k.cycles = h.cycles + 1
  aged : k.members .aged = []
  scan : k.members .scan = []
  fresh : ∀ i, i ∈ k.members .fresh ↔ i ∈ h.reached roots

theorem fullCollect_collected (sound : s.state.Sound) (resting : s.state.collecting = false)
    (held : ∀ v ∈ roots, s.state.Holds v) :
    ∃ k j, fullCollect roots s = .ok () ⟨k, j⟩ ∧ Collected roots s.state k := by
  obtain ⟨m, j, begun, start, searching⟩ := Searching.begun sound resting held
  have fits := start.sound.threaded.two_rows_le
  obtain ⟨c, t, l, ran, turned, same, -, -, empty⟩ :=
    traceFrom_apply (s := ⟨m, j⟩) start.sound (n := m.cells.size + 1) 0 (by dsimp only; omega)
  have searched := searching.tracedFrom ran
  obtain ⟨k, o, ended, swept⟩ := sweep_apply (s := ⟨t, l⟩) turned.sound
    (same.collecting.trans start.collecting) empty
  refine ⟨k, o, ?_, ?_⟩
  · simp [fullCollect, Task.bind_apply, resting, begun, finishCollect, traceAll, ran, ended]
  · exact
      { toTurned := (start.toTurned.trans turned).trans swept.toTurned
        phase := (swept.phase.trans same.phase).trans start.phase
        lastPhase := (swept.lastPhase.trans same.lastPhase).trans start.lastPhase
        collecting := swept.collecting
        cycles := swept.cycles.trans (congrArg (· + 1) (same.cycles.trans start.cycles))
        aged := swept.aged
        scan := swept.scan
        fresh := fun i => by
          rw [swept.fresh, searched.found sound held empty]
          exact or_iff_right id }

/-- At rest the cells that may be reclaimed are the fresh ones. -/
theorem Sound.collectable_iff (sound : h.Sound) (resting : h.collecting = false) :
    h.Collectable i ↔ i ∈ h.members .fresh := by
  obtain ⟨aged, scan⟩ := sound.idle resting
  simp [Collectable, aged, scan]

theorem Turned.inUse (turned : Turned h k) (use : k.InUse i) : h.InUse i :=
  use.imp (turned.collectable i) (turned.fixed i).mp

/-- The free cells of before are still free, and with them those that are in use no longer. -/
theorem Turned.free_iff (turned : Turned h k) (sound : h.Sound) :
    i ∈ k.members .free ↔ i ∈ h.members .free ∨ h.InUse i ∧ ¬k.InUse i := by
  have before := sound.threaded.inUse_iff (i := i)
  have after := turned.sound.threaded.inUse_iff (i := i)
  rw [turned.arena, turned.reserve] at after
  constructor
  · intro free
    have gone : ¬k.InUse i := fun use => (after.mp use).2.2.1 free
    by_cases use : h.InUse i
    · exact Or.inr ⟨use, gone⟩
    · obtain ⟨low, high⟩ := turned.sound.threaded.inside free
      have notPerm : i ∉ h.members .perm := fun perm => by
        rw [← turned.reserve] at perm
        exact absurd (turned.sound.threaded.apart free perm) (by decide)
      by_contra lost
      exact use (before.mpr ⟨low, turned.arena ▸ high, fun free => lost (Or.inl free), notPerm⟩)
  · rintro (free | ⟨use, gone⟩)
    · obtain ⟨low, high⟩ := sound.threaded.inside free
      have notPerm : i ∉ h.members .perm := fun perm =>
        absurd (sound.threaded.apart free perm) (by decide)
      by_contra lost
      exact (before.mp (turned.inUse (after.mpr ⟨low, high, lost, notPerm⟩))).2.2.1 free
    · exact (turned.inUse_or_free sound use).resolve_left gone

/-- What is in use and no candidate is in use after the sweep. -/
theorem Swept.holds {v : Ref L} (swept : Swept h k) (empty : h.members .scan = []) (holds : h.Holds v)
    (clear : h.Clear v) : k.Holds v := by
  intro i target
  rcases holds i target with (young | danger | scanned) | fixed
  · exact Or.inl (Or.inl (swept.fresh ▸ young))
  · exact absurd danger (clear i target)
  · rw [empty] at scanned
    cases scanned
  · exact Or.inr ((swept.fixed i).mpr fixed)

/-- A whole cycle of a heap at rest keeps of the fresh cells just those in reach of its roots and frees the
others. It changes no slot and no permanent cell. -/
theorem Sound.fullCollect_exact (sound : s.state.Sound) (resting : s.state.collecting = false)
    (held : ∀ v ∈ roots, s.state.Holds v) :
    ∃ k j, fullCollect roots s = .ok () ⟨k, j⟩ ∧ k.Sound ∧
      (∀ i, i ∈ k.members .fresh ↔ i ∈ s.state.members .fresh ∧ s.state.Reach (Named roots) i) ∧
      (∀ i, i ∈ k.members .free ↔ i ∈ s.state.members .free ∨
        i ∈ s.state.members .fresh ∧ ¬s.state.Reach (Named roots) i) ∧
      k.members .aged = [] ∧ k.members .scan = [] ∧ k.members .perm = s.state.members .perm ∧
      (∀ i, k.Fixed i ↔ s.state.Fixed i) ∧ (∀ i, s.state.Fixed i → k.mark i = s.state.mark i) ∧
      (∀ i, k.slots i = s.state.slots i) ∧ k.cells.size = s.state.cells.size ∧
      k.phase = s.state.phase.flip ∧ k.cycles = s.state.cycles + 1 ∧ k.collecting = false := by
  obtain ⟨k, j, done, ended⟩ := fullCollect_collected sound resting held
  have fresh : ∀ i, i ∈ k.members .fresh ↔
      i ∈ s.state.members .fresh ∧ s.state.Reach (Named roots) i := by
    intro i
    rw [ended.fresh, ← sound.collectable_iff resting]
    rfl
  have free : ∀ i, i ∈ k.members .free ↔ i ∈ s.state.members .free ∨
      i ∈ s.state.members .fresh ∧ ¬s.state.Reach (Named roots) i := by
    intro i
    rw [ended.free_iff sound, InUse, InUse, ended.sound.collectable_iff ended.collecting,
      sound.collectable_iff resting, ended.fixed, fresh]
    have apart : i ∈ s.state.members .fresh → ¬s.state.Fixed i := fun on fixed => fixed.2.2 _ on
    tauto
  have mark : ∀ i, s.state.Fixed i → k.mark i = s.state.mark i := fun i fixed => by
    rw [ended.sound.sealed i ((ended.fixed i).mpr fixed), sound.sealed i fixed]
  exact ⟨k, j, done, ended.sound, fresh, free, ended.aged, ended.scan, ended.reserve, ended.fixed, mark,
    ended.slots, ended.arena, ended.phase.trans sound.flip_phase.symm, ended.cycles, ended.collecting⟩

theorem holds_of_fresh {v : Ref L} (target : v.target? = some i) (on : i ∈ h.members .fresh) :
    h.Holds v := fun j same => by
  rw [target, Option.some.injEq] at same
  exact Or.inl (Or.inl (same ▸ on))

/-- Two cells that refer to each other, the one in both slots, are kept for a root that is given twice;
a third that refers to them is not. -/
theorem fullCollect_shared_loop :
    ∃ (q r : Ref .twoLow) (s : Logged (Heap .twoLow)) (k : Heap .twoLow) (j : Journal),
      s.state.slots 6 = [r, .nil] ∧ s.state.slots 7 = [q, q] ∧ s.state.slots 8 = [r, .nil] ∧
        q.target? = some 6 ∧ r.target? = some 7 ∧ fullCollect [r, r] s = .ok () ⟨k, j⟩ ∧
        6 ∈ k.members .fresh ∧ 7 ∈ k.members .fresh ∧ 8 ∈ k.members .free := by
  obtain ⟨q, r, x, y, z, s, isX, isY, isZ, isS, six, seven, old, both, fresh, first, second, third, resting⟩ :
      ∃ (q r : Ref .twoLow) (x y z s : Logged (Heap .twoLow)),
        x = stateAfter ((Op.act (.cons .nil .nil)).task ⟨Heap.empty false, ⟨none, #[]⟩⟩) ∧
        y = stateAfter ((Op.act (.cons q q)).task x) ∧
        z = stateAfter ((Op.act (.cons r .nil)).task y) ∧
        s = stateAfter ((Op.act (.setFirst q r)).task z) ∧ q.target? = some 6 ∧
        r.target? = some 7 ∧ x.state.members .fresh = [6] ∧ y.state.members .fresh = [6, 7] ∧
        z.state.members .fresh = [6, 7, 8] ∧ s.state.slots 6 = [r, .nil] ∧
        s.state.slots 7 = [q, q] ∧ s.state.slots 8 = [r, .nil] ∧
        s.state.collecting = false ∧ s.state.members .fresh = [6, 7, 8] :=
    ⟨⟨24, by decide⟩, ⟨28, by decide⟩, _, _, _, _, rfl, rfl, rfl, rfl, by decide +kernel⟩
  obtain ⟨resting, all⟩ := resting
  have run := ((((Runs.nil ⟨(Heap.empty false : Heap .twoLow), ⟨none, #[]⟩⟩).snoc
    (.act (.cons .nil .nil)) (by simp [Op.operands, Act.operands, Holds])).snoc
    (.act (.cons q q)) (by
      rw [← isX]
      have held := holds_of_fresh (h := x.state) six (by simp [old])
      simpa [Op.operands, Act.operands] using held)).snoc
    (.act (.cons r .nil)) (by
      rw [← isX, ← isY]
      have held := holds_of_fresh (h := y.state) seven (by simp [both])
      simpa [Op.operands, Act.operands] using ⟨held, (plain_of_target? Ref.target?_nil).holds⟩)).snoc
    (.act (.setFirst q r)) (by
      rw [← isX, ← isY, ← isZ]
      have one := holds_of_fresh (h := z.state) six (by simp [fresh])
      have two := holds_of_fresh (h := z.state) seven (by simp [fresh])
      simpa [Op.operands, Act.operands] using ⟨one, two⟩)
  rw [← isX, ← isY, ← isZ, ← isS] at run
  have root := holds_of_fresh (h := s.state) seven (by simp [all])
  have roots : ∀ v ∈ [r, r], s.state.Holds v := by simpa using root
  obtain ⟨k, j, done, -, kept, freed, -⟩ := Sound.fullCollect_exact run.sound_of_empty resting roots
  have reach : s.state.Reach (Named [r, r]) 7 := .source ⟨r, by simp, seven⟩
  have loose : ¬s.state.Fixed 7 := fun fixed => fixed.2.2 .fresh (by simp [all])
  have reach' : s.state.Reach (Named [r, r]) 6 := .step reach loose (by simp [second]) six
  refine ⟨q, r, s, k, j, first, second, third, six, seven, done, (kept 6).mpr ⟨by simp [all], reach'⟩,
    (kept 7).mpr ⟨by simp [all], reach⟩, (freed 8).mpr (Or.inr ⟨by simp [all], fun out => ?_⟩)⟩
  -- the two cells lead to each other alone
  suffices only : ∀ i, s.state.Reach (Named [r, r]) i → i = 6 ∨ i = 7 from
    absurd (only 8 out) (by decide)
  intro i reach
  induction reach with
  | source named =>
    obtain ⟨v, on, target⟩ := named
    obtain rfl : v = r := by simpa using on
    exact Or.inr (Option.some.inj (target.symm.trans seven))
  | step _ _ slot target ih =>
    rcases ih with rfl | rfl
    · rw [first] at slot
      rcases List.mem_pair.mp slot with rfl | rfl
      · exact Or.inr (Option.some.inj (target.symm.trans seven))
      · simp at target
    · rw [second] at slot
      obtain rfl : _ = q := by simpa using slot
      exact Or.inl (Option.some.inj (target.symm.trans six))

/-! ### Cycles that are asked for while another is under way -/

/-- A cycle that comes to its end keeps besides the fresh cells those in reach of a cell that is still to
be traced. -/
theorem finishCollect_fresh (sound : s.state.Sound) (busy : s.state.collecting = true) :
    ∃ k j, finishCollect s = .ok () ⟨k, j⟩ ∧ Finished s.state k ∧ k.cycles = s.state.cycles + 1 ∧
      ∀ i, i ∈ k.members .fresh ↔ i ∈ s.state.members .fresh ∨
        s.state.Collectable i ∧ s.state.Reach (· ∈ s.state.members .scan) i := by
  obtain ⟨k, j, done, finished⟩ := finishCollect_apply sound busy
  refine ⟨k, j, done, finished, ?_⟩
  have fits := sound.threaded.two_rows_le
  obtain ⟨c, t, l, ran, turned, same, all, aged, empty⟩ :=
    traceFrom_apply sound (n := s.state.cells.size + 1) 0 (by omega)
  have grounded : Grounded s.state (· ∈ s.state.members .scan) t :=
    traceFrom_keeps (fun sound grounded => grounded.traced sound) sound (.refl fun _ => id) ran
  obtain ⟨u, o, swept, ended⟩ := sweep_apply (s := ⟨t, l⟩) turned.sound
    (same.collecting.trans busy) empty
  obtain rfl : u = k := by
    simp only [finishCollect, traceAll, Task.bind_apply, Task.view_apply, ran, swept] at done
    exact congrArg (fun r => (stateAfter r).state) done
  have safe : ∀ c, s.state.Collectable c → c ∉ s.state.members .aged → c ∈ t.members .fresh := by
    intro c on notAged
    rcases all c on with fresh | danger | scanned
    · exact fresh
    · exact absurd (aged c danger) notAged
    · rw [empty] at scanned
      cases scanned
  refine ⟨ended.cycles.trans (congrArg (· + 1) same.cycles), fun i => ?_⟩
  rw [ended.fresh]
  constructor
  · intro fresh
    have old := turned.collectable i (Or.inl fresh)
    exact (grounded.fresh i fresh old).imp id fun reach => ⟨old, reach⟩
  · rintro (fresh | ⟨old, reach⟩)
    · exact safe i (Or.inl fresh) fun danger =>
        absurd (sound.threaded.apart fresh danger) (by decide)
    · refine (turned.sound.reach_settled empty (fun c scanned => ?_)
        (turned.reach.mpr reach)).resolve_right (not_fixed_of_collectable (all i old))
      exact ⟨Or.inl (all c (Or.inr (Or.inr scanned))), fun danger =>
        absurd (sound.threaded.apart scanned (aged c danger)) (by decide)⟩

/-- A whole cycle that is asked for while another is under way goes on from where that ends. -/
theorem fullCollect_busy (sound : s.state.Sound) (busy : s.state.collecting = true)
    (held : ∀ v ∈ roots, s.state.Holds v) :
    ∃ m k j, fullCollect roots s = .ok () ⟨k, j⟩ ∧ Finished s.state m ∧ Turned m k ∧
      k.cycles = s.state.cycles + 2 ∧ (∀ i, i ∈ m.members .fresh ↔ i ∈ s.state.members .fresh ∨
        s.state.Collectable i ∧ s.state.Reach (· ∈ s.state.members .scan) i) ∧
      ((∀ v ∈ roots, m.Holds v) → Collected roots m k) := by
  obtain ⟨m, j, ended, finished, once, fresh⟩ := finishCollect_fresh sound busy
  have resting := finished.collecting
  obtain ⟨n, l, begun, start, -⟩ := beginCollect_apply (s := ⟨m, j⟩) finished.sound resting fun v on =>
    finished.regular sound (held v on)
  obtain ⟨k, o, ran, final, twice, -⟩ := finishCollect_fresh (s := ⟨n, l⟩) start.sound start.collecting
  have done : fullCollect roots s = .ok () ⟨k, o⟩ := by
    simp [fullCollect, Task.bind_apply, busy, ended, begun, ran]
  refine ⟨m, k, o, done, finished, start.toTurned.trans final.toTurned, ?_, fresh, fun holds => ?_⟩
  · rw [twice, start.cycles, once]
  obtain ⟨k', o', again, collected⟩ := fullCollect_collected (s := ⟨m, j⟩) finished.sound resting holds
  obtain rfl : k' = k := by
    simp only [fullCollect, Task.bind_apply, Task.view_apply, resting, Task.when_false,
      Task.pure_apply, begun, ran] at again
    exact congrArg (fun r => (stateAfter r).state) again.symm
  exact collected

theorem fullCollect_cycles (sound : s.state.Sound) (held : ∀ v ∈ roots, s.state.Holds v) :
    ∃ k j, fullCollect roots s = .ok () ⟨k, j⟩ ∧ s.state.cycles < k.cycles := by
  cases busy : s.state.collecting with
  | false =>
    obtain ⟨k, j, done, collected⟩ := fullCollect_collected sound busy held
    exact ⟨k, j, done, by rw [collected.cycles]; omega⟩
  | true =>
    obtain ⟨-, k, j, done, -, -, cycles, -⟩ := fullCollect_busy sound busy held
    exact ⟨k, j, done, by omega⟩

end Treadmill.Heap

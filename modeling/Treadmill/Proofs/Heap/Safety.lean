import Mathlib
import Treadmill.Proofs.Heap.Run

/-!
A cycle frees nothing that is in reach (`Runs.sweep_keeps`). What a cycle has to keep was kept when
it was named and is no candidate from then on (`Runs.kept`); with nothing left to scan the tri-colour
invariant carries this to everything in reach of it.
-/

namespace Treadmill
variable {L : Layout} {h k : Heap L} {s b t : Logged (Heap L)} {op : Op L}
  {o : Except Fault (Option (Ref L))} {past deeds : List (Deed L)} {roots : List (Ref L)} {v : Ref L}
  {traced : Bool} {journal : Journal} {i : Nat}
open Heap

/-- What is reached from the sources along the slots of cells that are not permanent. -/
inductive Heap.Reach (h : Heap L) (source : Nat → Prop) : Nat → Prop
  | source {i : Nat} (named : source i) : Reach h source i
  | step {i j : Nat} {v : Ref L} (reach : Reach h source i) (passing : ¬h.Fixed i)
      (slot : v ∈ h.slots i) (target : v.target? = some j) : Reach h source j

/-- The cells that some references name. -/
def Named (refs : List (Ref L)) (i : Nat) : Prop := ∃ v ∈ refs, v.target? = some i

/-- The operations that may come between the beginning of a cycle and its end. -/
def Op.InCycle : Op L → Prop
  | act _ | traceStep => True
  | age | beginCollect _ | sweep | fullCollect _ => False

/-- What the user has touched: the operands of an operation that was carried out and the cell that
it handed out. -/
def Deed.touched : Deed L → List (Ref L)
  | ⟨.act a, .ok answer⟩ => a.operands ++ if a.birth.isSome then answer.toList else []
  | _ => []

theorem Effect.clear_old {act : Act L} {answer : Option (Ref L)} (e : Effect act h answer k)
    (clear : h.Clear v) : k.Clear v :=
  fun i target danger => clear i target (e.aged i danger)

theorem Step.still_kept (step : Step op o h k) (inCycle : op.InCycle)
    (kept : h.Holds v ∧ h.Clear v) : k.Holds v ∧ k.Clear v := by
  cases step with
  | refused | allTraced => exact kept
  | acted effect => exact ⟨effect.holds kept.1, effect.clear_old kept.2⟩
  | traced traced =>
    refine ⟨fun i target => ?_, fun i target danger => kept.2 i target (traced.aged i danger)⟩
    exact (kept.1 i target).imp (traced.all i) (traced.fixed i).mpr
  | aged | begun | swept | nothingToSweep | collected => cases inCycle

theorem Step.touched_kept (step : Step op o h k) (held : ∀ v ∈ op.operands, h.Holds v) :
    ∀ v ∈ Deed.touched ⟨op, o⟩, k.Holds v ∧ k.Clear v := by
  intro v on
  cases step with
  | acted effect =>
    rename_i act answer
    rcases List.mem_append.mp on with operand | new
    · exact ⟨effect.holds (held v operand), effect.clear v operand⟩
    · split at new
      · rename_i born
        obtain ⟨⟨kind, a, b⟩, birth⟩ := Option.isSome_iff_exists.mp born
        obtain ⟨r, i, rfl, -, target, unused, -⟩ := effect.born kind a b birth
        obtain rfl : v = r := by simpa using new
        refine ⟨fun j named => effect.inUse_iff.mpr (Or.inr ⟨born, v, rfl, named⟩), ?_⟩
        intro j named danger
        rw [target, Option.some.injEq] at named
        subst named
        exact unused (Or.inl (Or.inr (Or.inl (effect.aged _ danger))))
      · cases new
  | refused => cases op <;> cases on
  | aged | begun | traced | allTraced | swept | nothingToSweep | collected => cases on

theorem Step.sameCycle (step : Step op o h k) (inCycle : op.InCycle) : SameCycle h k := by
  cases step with
  | refused | allTraced => exact .refl h
  | acted effect => exact effect.toSameCycle
  | traced traced => exact traced.toSameCycle
  | aged | begun | swept | nothingToSweep | collected => cases inCycle

theorem Runs.sameCycle (run : Runs b deeds t) (sound : b.state.Sound)
    (inCycle : ∀ d ∈ deeds, d.op.InCycle) : SameCycle b.state t.state := by
  induction run with
  | nil => exact .refl _
  | snoc run op held ih =>
    have first := ih fun d on => inCycle d (by simp [on])
    exact first.trans ((op.step (run.sound sound) held).sameCycle
      (inCycle _ List.mem_concat_self))

/-- Throughout a cycle the roots and all that was touched are in use and no candidates. -/
theorem Runs.kept (run : Runs b deeds t) (sound : b.state.Sound)
    (inCycle : ∀ d ∈ deeds, d.op.InCycle) (start : ∀ v ∈ roots, b.state.Holds v ∧ b.state.Clear v) :
    ∀ v ∈ roots ++ deeds.flatMap Deed.touched, t.state.Holds v ∧ t.state.Clear v := by
  induction run with
  | nil => simpa using start
  | snoc run op held ih =>
    have step := op.step (run.sound sound) held
    have here : op.InCycle := inCycle _ List.mem_concat_self
    have earlier := ih fun d on => inCycle d (by simp [on])
    intro v on
    rw [List.flatMap_append, ← List.append_assoc, List.mem_append] at on
    rcases on with old | new
    · exact step.still_kept here (earlier v old)
    · refine step.touched_kept held v ?_
      simpa using new

/-- With nothing left to scan, what is in reach of cells that are no candidates is fresh or permanent. -/
theorem Heap.Sound.reach_settled (sound : h.Sound) (empty : h.members .scan = []) {source : Nat → Prop}
    (kept : ∀ c, source c → h.InUse c ∧ c ∉ h.members .aged) (reach : h.Reach source i) :
    i ∈ h.members .fresh ∨ h.Fixed i := by
  have settled : ∀ {j}, h.InUse j → j ∉ h.members .aged → j ∈ h.members .fresh ∨ h.Fixed j := by
    rintro j ((fresh | danger | scanned) | fixed) safe
    · exact Or.inl fresh
    · exact absurd danger safe
    · rw [empty] at scanned
      cases scanned
    · exact Or.inr fixed
  induction reach with
  | source named => exact settled (kept _ named).1 (kept _ named).2
  | step _ passing slot target ih =>
    have fresh := ih.resolve_right passing
    exact settled (sound.held _ (Or.inl fresh) _ slot _ target)
      (sound.shielded _ fresh _ slot _ target)

theorem Heap.Sound.reach_kept (sound : h.Sound) (empty : h.members .scan = [])
    {refs : List (Ref L)} (kept : ∀ v ∈ refs, h.Holds v ∧ h.Clear v)
    (reach : h.Reach (Named refs) i) : i ∈ h.members .fresh ∨ h.Fixed i :=
  sound.reach_settled empty (fun c ⟨v, on, target⟩ => ⟨(kept v on).1 c target, (kept v on).2 c target⟩) reach

/-- A cycle that has nothing left to scan ends well and frees nothing in reach of its roots or of
what was touched while it was under way. -/
theorem Runs.sweep_keeps (before : Runs ⟨Heap.empty traced, journal⟩ past s)
    (held : ∀ v ∈ roots, s.state.Holds v) (begun : Heap.beginCollect roots s = .ok () b)
    (cycle : Runs b deeds t) (inCycle : ∀ d ∈ deeds, d.op.InCycle)
    (empty : t.state.members .scan = []) :
    ∃ u, Heap.sweep t = .ok () u ∧ (∀ i, u.state.slots i = t.state.slots i) ∧
      ∀ i, t.state.Reach (Named (roots ++ deeds.flatMap Deed.touched)) i →
        t.state.Collectable i → i ∈ u.state.members .fresh := by
  have sound := before.sound_of_empty
  have resting : s.state.collecting = false := by
    cases busy : s.state.collecting with
    | false => rfl
    | true => simp [beginCollect_busy busy] at begun
  obtain ⟨k, j, done, start, clear⟩ := beginCollect_apply sound resting fun v on =>
    (sound.finished resting).regular sound (held v on)
  obtain rfl : b = ⟨k, j⟩ := by simpa [done] using begun.symm
  have kept := cycle.kept start.sound inCycle fun v on =>
    ⟨fun i target => (held v on i target).imp (start.all i) (start.fixed i).mpr, clear v on⟩
  have sound' := cycle.sound start.sound
  obtain ⟨u, l, swept, done'⟩ := sweep_apply sound'
    ((cycle.sameCycle start.sound inCycle).collecting.trans start.collecting) empty
  refine ⟨_, swept, done'.slots, fun i reach collectable => ?_⟩
  rw [done'.fresh]
  refine (sound'.reach_kept empty kept reach).resolve_right fun fixed => ?_
  rcases collectable with on | on | on <;> exact fixed.2.2 _ on

/-- A root, and a cell that is made while the cycle is under way. -/
theorem sweep_keeps_root_and_newborn :
    ∃ (r : Ref .twoLow) (past deeds : List (Deed .twoLow)) (s b t u : Logged (Heap .twoLow)),
      Runs ⟨Heap.empty false, ⟨none, #[]⟩⟩ past s ∧ Heap.beginCollect [r] s = .ok () b ∧
        Runs b deeds t ∧ deeds.length = 2 ∧ Heap.sweep t = .ok () u ∧
        6 ∈ u.state.members .fresh ∧ 7 ∈ u.state.members .fresh := by
  obtain ⟨r, q, s, b, c, t, isS, isB, isC, isT, named, born, begun, old, new,
      answer, empty, six, seven⟩ :
      ∃ (r q : Ref .twoLow) (s b c t : Logged (Heap .twoLow)),
        s = stateAfter ((Op.act (.cons .nil .nil)).task ⟨Heap.empty false, ⟨none, #[]⟩⟩) ∧
        b = stateAfter (Heap.beginCollect [r] s) ∧ c = stateAfter (Op.traceStep.task b) ∧
        t = stateAfter ((Op.act (.cons r .nil)).task c) ∧ r.target? = some 6 ∧
        q.target? = some 7 ∧ outcomeOf (Heap.beginCollect [r] s) = .ok () ∧
        6 ∈ s.state.members .fresh ∧ 6 ∈ c.state.members .fresh ∧
        outcomeOf ((Op.act (.cons r .nil)).task c) = .ok (some q) ∧ t.state.members .scan = [] ∧
        6 ∈ t.state.members .fresh ∧ 7 ∈ t.state.members .fresh :=
    ⟨⟨24, by decide⟩, ⟨28, by decide⟩, _, _, _, _, rfl, rfl, rfl, rfl, by decide +kernel⟩
  have held : ∀ {h : Heap .twoLow}, 6 ∈ h.members .fresh → h.Holds r := fun on i target => by
    rw [named, Option.some.injEq] at target
    exact Or.inl (Or.inl (target ▸ on))
  have past := (Runs.nil ⟨(Heap.empty false : Heap .twoLow), ⟨none, #[]⟩⟩).snoc
    (.act (.cons .nil .nil)) (by simp [Op.operands, Act.operands, Holds])
  rw [← isS] at past
  have begun' := eq_ok_of_outcome begun
  rw [← isB] at begun'
  have cycle := (Runs.nil b).snoc .traceStep (by simp [Op.operands])
  rw [← isC] at cycle
  have cycle' := cycle.snoc (.act (.cons r .nil)) (by
    have := held new
    simp [Op.operands, Act.operands, this]
    simp [Holds])
  rw [← isT, answer] at cycle'
  obtain ⟨u, swept, -, kept⟩ := past.sweep_keeps (by simpa using held old) begun' cycle'
    (by simp [Op.InCycle]) empty
  refine ⟨r, _, _, s, b, t, u, past, begun', cycle', rfl, swept, ?_, ?_⟩
  · exact kept 6 (.source ⟨r, by simp, named⟩) (Or.inl six)
  · exact kept 7 (.source ⟨q, by simp [Deed.touched, Act.birth], born⟩) (Or.inl seven)

end Treadmill

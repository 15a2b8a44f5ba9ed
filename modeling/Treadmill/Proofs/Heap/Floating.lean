import Mathlib
import Treadmill.Proofs.Heap.Hold
import Treadmill.Proofs.Heap.Search

/-!
What a cycle may keep although nothing refers to it any more. Slots are written while it is under
way, but a reference that turns up in a slot where it did not stand was stored there by the user, so
a cell of before is traced only if it was in reach of the roots or of what the user has touched
(`Grounded`).
-/

namespace Treadmill
variable {L : Layout} {g h k : Heap L} {s b t : Logged (Heap L)} {op : Op L} {act : Act L}
  {answer : Option (Ref L)} {deeds : List (Deed L)} {roots : List (Ref L)} {v : Ref L} {i : Nat}
  {source : Nat → Prop} {j : Journal}
open Heap

/-- The operands of an operation that was carried out. -/
def Deed.used : Deed L → List (Ref L)
  | ⟨op, .ok _⟩ => op.operands
  | ⟨_, .error _⟩ => []

theorem Deed.mem_used {d : Deed L} (used : v ∈ d.used) : v ∈ d.op.operands := by
  obtain ⟨op, o⟩ := d
  cases o with
  | ok answer => exact used
  | error f => cases used

namespace Heap

/-- Work of the collector changes nothing about what is in reach. -/
theorem Turned.reach (turned : Turned h k) : k.Reach source i ↔ h.Reach source i := by
  constructor
  · intro reach
    induction reach with
    | source named => exact .source named
    | step _ passing slot target ih =>
      rw [turned.slots] at slot
      rw [turned.fixed] at passing
      exact .step ih passing slot target
  · intro reach
    induction reach with
    | source named => exact .source named
    | step _ passing slot target ih =>
      rw [← turned.slots] at slot
      rw [← turned.fixed] at passing
      exact .step ih passing slot target

/-! ### What comes to be scanned -/

theorem Traced.scan_old (traced : Traced h k) (fresh : ∀ c ∈ h.members .fresh, c ∈ k.members .fresh)
    (on : i ∈ k.members .scan) : i ∈ h.members .scan ∨ i ∈ h.members .aged := by
  rcases traced.collectable i (Or.inr (Or.inr on)) with young | danger | scanned
  · exact absurd (traced.sound.threaded.apart on (fresh i young)) (by decide)
  · exact Or.inr danger
  · exact Or.inl scanned

end Heap

theorem Effect.unused (effect : Effect act h answer k) (makes : act.Makes answer i) : ¬h.InUse i := by
  obtain ⟨born, r, rfl, target⟩ := makes
  obtain ⟨⟨kind, a, b⟩, birth⟩ := Option.isSome_iff_exists.mp born
  obtain ⟨q, c, same, -, target', unused, -⟩ := effect.born kind a b birth
  obtain rfl : r = q := Option.some.inj same
  obtain rfl : i = c := Option.some.inj (target.symm.trans target')
  exact unused

/-- A candidate that an operation moves to the scan ring is named by an operand. -/
theorem Effect.scan_old (effect : Effect act h answer k) (on : i ∈ k.members .scan) :
    i ∈ h.members .scan ∨ i ∈ h.members .aged ∧ Named act.operands i := by
  have apart : ∀ {r}, i ∈ k.members r → r = .scan := fun other =>
    effect.sound.threaded.apart other on
  rcases (effect.collectable i).mp (Or.inr (Or.inr on)) with (young | danger | scanned) | born
  · exact absurd (apart ((effect.fresh i).mpr (Or.inl young))) (by decide)
  · exact Or.inr ⟨danger, effect.left i danger fun still => absurd (apart still) (by decide)⟩
  · exact Or.inl scanned
  · exact absurd (apart ((effect.fresh i).mpr (Or.inr born))) (by decide)

/-! ### Grounds -/

/-- `k` has come of `g` within a cycle. What was traced since, or is to be, was in reach of the sources;
a reference in a slot stood there before, or it names a source if it names a cell of `g` at all. -/
structure Heap.Grounded (g : Heap L) (source : Nat → Prop) (k : Heap L) : Prop where
  collectable : ∀ i, g.Collectable i → k.Collectable i
  aged : ∀ i ∈ k.members .aged, i ∈ g.members .aged
  fresh : ∀ i ∈ k.members .fresh, g.Collectable i → i ∈ g.members .fresh ∨ g.Reach source i
  scan : ∀ i ∈ k.members .scan, g.Collectable i ∧ g.Reach source i
  slots : ∀ i, g.Collectable i → ∀ v ∈ k.slots i,
    v ∈ g.slots i ∨ ∀ c, v.target? = some c → g.Collectable c → source c

namespace Heap.Grounded

theorem refl (start : ∀ i ∈ g.members .scan, source i) : Grounded g source g where
  collectable _ := id
  aged _ := id
  fresh _ on _ := Or.inl on
  scan i on := ⟨Or.inr (Or.inr on), .source (start i on)⟩
  slots _ _ _ := Or.inl

variable (grounded : Grounded g source h)
include grounded

theorem acted (effect : Effect act h answer k)
    (touched : ∀ c, Named act.operands c → g.Collectable c → source c) : Grounded g source k where
  collectable i old := (effect.collectable i).mpr (Or.inl (grounded.collectable i old))
  aged i on := grounded.aged i (effect.aged i on)
  fresh i on old := by
    rcases (effect.fresh i).mp on with on | ⟨-, makes⟩
    · exact grounded.fresh i on old
    · exact absurd (Or.inl (grounded.collectable i old)) (effect.unused makes)
  scan i on := by
    rcases effect.scan_old on with on | ⟨danger, named⟩
    · exact grounded.scan i on
    · have old : g.Collectable i := Or.inr (Or.inl (grounded.aged i danger))
      exact ⟨old, .source (touched i named old)⟩
  slots i old v slot := by
    rw [slots_eq, effect.contents i (Or.inl (grounded.collectable i old))] at slot
    rcases Act.mem_write slot with slot | operand
    · rw [← slots_eq] at slot
      exact grounded.slots i old v slot
    · exact Or.inr fun c target => touched c ⟨v, operand, target⟩

theorem traced (sound : h.Sound) (done : traceStep ⟨h, j⟩ = .ok true ⟨k, j⟩) :
    Grounded g source k := by
  obtain ⟨i, row, shape, fresh, scan⟩ := traceStep_scan (s := ⟨h, j⟩) sound done
  have on : i ∈ h.members .scan := by simp [show h.members .scan = i :: row from shape]
  have traced : Traced h k := traceStep_traced (s := ⟨h, j⟩) sound done
  have young : ∀ c ∈ h.members .fresh, c ∈ k.members .fresh := fun c on => by
    rw [fresh]
    exact List.mem_cons_of_mem i on
  obtain ⟨here, reach⟩ := grounded.scan i on
  refine ⟨fun c old => traced.all c (grounded.collectable c old),
    fun c on => grounded.aged c (traced.aged c on), ?_, ?_, ?_⟩
  · intro c member old
    rw [fresh] at member
    rcases List.mem_cons.mp member with rfl | member
    · exact Or.inr reach
    · exact grounded.fresh c member old
  · intro c member
    rcases traced.scan_old young member with old | danger
    · exact grounded.scan c old
    · have old : g.Collectable c := Or.inr (Or.inl (grounded.aged c danger))
      refine ⟨old, ?_⟩
      rcases scan c member with scanned | ⟨v, slot, target⟩
      · exact (grounded.scan c scanned).2
      -- a slot of the traced cell leads on from it, unless the user has filled it
      · rcases grounded.slots i here v slot with stood | stored
        · exact .step reach (not_fixed_of_collectable here) stood target
        · exact .source (stored c target old)
  · intro c old v slot
    rw [traced.slots] at slot
    exact grounded.slots c old v slot

end Heap.Grounded

/-- What an operation of a cycle does is grounded in what it works on. -/
theorem Op.grounded (op : Op L) (sound : s.state.Sound) (held : ∀ v ∈ op.operands, s.state.Holds v)
    (inCycle : op.InCycle) (grounded : Grounded g source s.state)
    (touched : ∀ c, Named (Deed.used ⟨op, outcomeOf (op.task s)⟩) c → g.Collectable c → source c) :
    Grounded g source (stateAfter (op.task s)).state := by
  cases op with
  | act a =>
    rcases a.outcome sound held with ⟨f, -, refused⟩ | ⟨-, answer, k, j, done, effect⟩
    · simp only [task, refused]
      exact grounded
    · simp only [task, done] at touched ⊢
      exact grounded.acted effect touched
  | traceStep =>
    by_cases empty : s.state.members .scan = []
    · simp only [task, Task.bind_apply, traceStep_none sound empty]
      exact grounded
    · obtain ⟨k, done, -⟩ := traceStep_some sound empty
      simp only [task, Task.bind_apply, done]
      exact grounded.traced sound done
  | age | beginCollect | sweep | fullCollect => cases inCycle

theorem Runs.grounded (run : Runs b deeds t) (sound : b.state.Sound)
    (inCycle : ∀ d ∈ deeds, d.op.InCycle) (start : ∀ i ∈ b.state.members .scan, source i)
    (touched : ∀ c, Named (deeds.flatMap Deed.used) c → b.state.Collectable c → source c) :
    Grounded b.state source t.state := by
  induction run with
  | nil => exact .refl start
  | snoc run op held ih =>
    refine op.grounded (run.sound sound) held (inCycle _ List.mem_concat_self) ?_ ?_
    · refine ih (fun d on => inCycle d (by simp [on])) fun c ⟨v, on, target⟩ => ?_
      exact touched c ⟨v, by simp [on], target⟩
    · intro c ⟨v, on, target⟩
      exact touched c ⟨v, by simp [on], target⟩

/-- The cells in reach, as the heap stands, of those in use that some references name. -/
def Heap.InReach (h : Heap L) (refs : List (Ref L)) (i : Nat) : Prop :=
  h.Reach (fun c => h.InUse c ∧ Named refs c) i

/-- With nothing left to scan, a cycle ends well. Of the cells that were fresh before it only those stay
in use that were in reach, as the heap stood then, of its roots or of what was used while it was under
way; the others are free. -/
theorem Runs.sweep_frees (sound : s.state.Sound) (held : ∀ v ∈ roots, s.state.Holds v)
    (begun : beginCollect roots s = .ok () b) (cycle : Runs b deeds t)
    (inCycle : ∀ d ∈ deeds, d.op.InCycle) (empty : t.state.members .scan = []) :
    ∃ u, sweep t = .ok () u ∧ ∀ i ∈ s.state.members .fresh,
      (u.state.InUse i → s.state.InReach (roots ++ deeds.flatMap Deed.used) i) ∧
      (¬s.state.InReach (roots ++ deeds.flatMap Deed.used) i → i ∈ u.state.members .free) := by
  have resting : s.state.collecting = false := by
    cases busy : s.state.collecting with
    | false => rfl
    | true => simp [beginCollect_busy busy] at begun
  obtain ⟨k, j, done, start, -⟩ := Searching.begun sound resting held
  obtain rfl : b = ⟨k, j⟩ := by simpa [done] using begun.symm
  have scanned : ∀ i ∈ k.members .scan,
      s.state.InUse i ∧ Named (roots ++ deeds.flatMap Deed.used) i := by
    intro i on
    obtain ⟨v, root, target⟩ := beginCollect_scan sound resting held done on
    exact ⟨held v root i target, v, by simp [root], target⟩
  have touched : ∀ c, Named (deeds.flatMap Deed.used) c → k.Collectable c →
      s.state.InUse c ∧ Named (roots ++ deeds.flatMap Deed.used) c := by
    rintro c ⟨v, on, target⟩ old
    exact ⟨Or.inl (start.collectable c old), v, by simp [on], target⟩
  have grounded := cycle.grounded start.sound inCycle scanned touched
  have sound' := cycle.sound start.sound
  obtain ⟨u, l, swept, ended⟩ := sweep_apply sound'
    ((cycle.sameCycle start.sound inCycle).collecting.trans start.collecting) empty
  have kept : ∀ i ∈ s.state.members .fresh, u.InUse i →
      s.state.InReach (roots ++ deeds.flatMap Deed.used) i := by
    intro i was use
    have old := start.all i (Or.inl was)
    have loose : ¬u.Fixed i := by
      rw [ended.fixed]
      exact not_fixed_of_collectable (grounded.collectable i old)
    have fresh : i ∈ t.state.members .fresh := by
      have on := use.resolve_right loose
      simpa [Collectable, ended.aged, ended.scan, ended.fresh] using on
    have reach := (grounded.fresh i fresh old).resolve_left (by simp [start.fresh])
    exact start.toTurned.reach.mp reach
  refine ⟨⟨u, l⟩, swept, fun i was => ⟨kept i was, fun unreached => ?_⟩⟩
  have use : t.state.InUse i := Or.inl (grounded.collectable i (start.all i (Or.inl was)))
  exact (ended.toTurned.inUse_or_free sound' use).resolve_left fun use => unreached (kept i was use)

/-- A cell that refers to a root is garbage all the same, whatever is done with the root. -/
theorem sweep_frees_referrer :
    ∃ (r : Ref .twoLow) (s b t u : Logged (Heap .twoLow)) (deeds : List (Deed .twoLow)),
      beginCollect [r] s = .ok () b ∧ Runs b deeds t ∧ deeds.length = 2 ∧ sweep t = .ok () u ∧
        6 ∈ s.state.members .fresh ∧ r ∈ s.state.slots 6 ∧ 6 ∈ u.state.members .free := by
  obtain ⟨q, r, x, y, s, b, c, t, isX, isY, isS, isB, isC, isT, six, seven, begun, made, young, root, first,
      rest, traced, empty⟩ :
      ∃ (q r : Ref .twoLow) (x y s b c t : Logged (Heap .twoLow)),
        x = stateAfter ((Op.act (.cons .nil .nil)).task ⟨Heap.empty false, ⟨none, #[]⟩⟩) ∧
        y = stateAfter ((Op.act (.cons .nil .nil)).task x) ∧
        s = stateAfter ((Op.act (.setFirst q r)).task y) ∧
        b = stateAfter (beginCollect [r] s) ∧ c = stateAfter (Op.traceStep.task b) ∧
        t = stateAfter ((Op.act (.first r)).task c) ∧ q.target? = some 6 ∧ r.target? = some 7 ∧
        outcomeOf (beginCollect [r] s) = .ok () ∧ y.state.members .fresh = [6, 7] ∧
        6 ∈ s.state.members .fresh ∧ 7 ∈ s.state.members .fresh ∧ s.state.slots 6 = [r, .nil] ∧
        s.state.slots 7 = [.nil, .nil] ∧ 7 ∈ c.state.members .fresh ∧ t.state.members .scan = [] :=
    ⟨⟨24, by decide⟩, ⟨28, by decide⟩, _, _, _, _, _, _, rfl, rfl, rfl, rfl, rfl, rfl, by decide +kernel⟩
  have holds : ∀ {h : Heap .twoLow} {v : Ref .twoLow} {i : Nat}, v.target? = some i →
      i ∈ h.members .fresh → h.Holds v := fun target on j same => by
    rw [target, Option.some.injEq] at same
    exact Or.inl (Or.inl (same ▸ on))
  have run := (((Runs.nil ⟨(Heap.empty false : Heap .twoLow), ⟨none, #[]⟩⟩).snoc
    (.act (.cons .nil .nil)) (by simp [Op.operands, Act.operands, Holds])).snoc
    (.act (.cons .nil .nil)) (by simp [Op.operands, Act.operands, Holds])).snoc
    (.act (.setFirst q r)) (by
      rw [← isX, ← isY]
      have one : y.state.Holds q := holds six (by simp [made])
      have two : y.state.Holds r := holds seven (by simp [made])
      simpa [Op.operands, Act.operands] using ⟨one, two⟩)
  rw [← isX, ← isY, ← isS] at run
  have begun' := eq_ok_of_outcome begun
  rw [← isB] at begun'
  have cycle := ((Runs.nil b).snoc .traceStep (by simp [Op.operands])).snoc (.act (.first r)) (by
    rw [← isC]
    have held : c.state.Holds r := holds seven traced
    simpa [Op.operands, Act.operands] using held)
  rw [← isC, ← isT] at cycle
  obtain ⟨u, swept, freed⟩ := Runs.sweep_frees run.sound_of_empty (by simpa using holds seven root) begun'
    cycle (by simp [Op.InCycle]) empty
  refine ⟨r, s, b, t, u, _, begun', cycle, rfl, swept, young, by simp [first], (freed 6 young).2 ?_⟩
  intro reach
  -- nothing is in reach of the root but the root itself
  suffices only : ∀ i, s.state.InReach _ i → i = 7 from absurd (only 6 reach) (by decide)
  intro i reach
  induction reach with
  | source named =>
    obtain ⟨-, v, on, target⟩ := named
    have isRoot : v = r := by
      rcases List.mem_append.mp on with on | on
      · simpa using on
      · obtain ⟨d, deed, used⟩ := List.mem_flatMap.mp on
        have operand := Deed.mem_used used
        rcases List.mem_append.mp deed with deed | deed
        · obtain rfl := List.mem_singleton.mp (by simpa using deed)
          cases operand
        · obtain rfl := List.mem_singleton.mp deed
          simpa [Op.operands, Act.operands] using operand
    exact Option.some.inj ((isRoot ▸ target).symm.trans seven)
  | step _ _ slot target ih =>
    rw [ih, rest] at slot
    obtain rfl : _ = Ref.nil := by simpa using slot
    simp at target

end Treadmill

import Mathlib
import Treadmill.Proofs.Heap.Act

/-!
Permanent cells as nodes. Reading one changes nothing, and writing one changes no cell that the
collector may reclaim (`Filed`). `Leads` follows rest slots from one reference to another.
-/

namespace Treadmill
variable {L : Layout}

/-- A pair that names the cell `i`. -/
def Ref.Points (r : Ref L) (i : Nat) : Prop := r.isPair = true ∧ r.target? = some i

theorem Ref.Points.isNil {r : Ref L} {i : Nat} (points : r.Points i) : r.isNil = false :=
  isNil_of_target? points.2

theorem Ref.Points.isCons {r : Ref L} {i : Nat} (points : r.Points i) : r.isCons = true :=
  isCons_of_isPair points.1 points.isNil

namespace Heap
variable {h k m : Heap L} {i j : Nat} {r q v a b : Ref L} {c d : Ref L × Ref L} {cells more : List Nat}
  {s : Logged (Heap L)}

/-- A reference that names no cell, or one that the collector may reclaim. -/
def Plain (h : Heap L) (v : Ref L) : Prop := ∀ i, v.target? = some i → h.Collectable i

theorem Plain.holds (plain : h.Plain v) : h.Holds v := fun i target => Or.inl (plain i target)

theorem plain_of_target? (none : v.target? = none) : h.Plain v := fun i target => by
  rw [none] at target
  cases target

theorem clear_of_target? (none : v.target? = none) : h.Clear v := fun i target => by
  rw [none] at target
  cases target

theorem holds_of_points (points : r.Points i) (fixed : h.Fixed i) : h.Holds r := fun j target => by
  rw [points.2, Option.some.injEq] at target
  exact target ▸ Or.inr fixed

theorem not_fixed_of_collectable (on : h.Collectable i) : ¬h.Fixed i := by
  rintro ⟨-, -, off⟩
  rcases on with on | on | on <;> exact off _ on

/-! ### Reading and writing -/

theorem Sound.keepTarget_fixed (sound : h.Sound) (target : r.target? = some i) (fixed : h.Fixed i) :
    h.keepTarget r = h := by
  rw [keepTarget_some target, keep, if_neg]
  exact sound.toTidy.fixed i fixed

theorem Sound.first_own (sound : s.state.Sound) (points : r.Points i) (fixed : s.state.Fixed i) :
    first r s = .ok (s.state.contents i).1 s := by
  rw [first_apply sound.toTidy points.1 points.2 (Or.inr fixed),
    sound.keepTarget_fixed points.2 fixed]
  rfl

theorem Sound.rest_own (sound : s.state.Sound) (points : r.Points i) (fixed : s.state.Fixed i) :
    rest r s = .ok (s.state.contents i).2 s := by
  rw [rest_apply sound.toTidy points.1 points.2 (Or.inr fixed),
    sound.keepTarget_fixed points.2 fixed]
  rfl

/-- `k` is `h` with the permanent cell `i` holding `c`, be it new or not. -/
structure Filed (h k : Heap L) (i : Nat) (c : Ref L × Ref L) : Prop extends SameCycle h k where
  sound : k.Sound
  collectable : ∀ j, k.Collectable j ↔ h.Collectable j
  fixed : ∀ j, k.Fixed j ↔ h.Fixed j ∨ j = i
  fresh : ∀ j, j ∈ k.members .fresh ↔ j ∈ h.members .fresh
  aged : ∀ j ∈ k.members .aged, j ∈ h.members .aged
  contents : ∀ j, h.InUse j → j ≠ i → k.contents j = h.contents j
  filled : k.contents i = c

namespace Filed

theorem plain (filed : Filed h k i c) (plain : h.Plain v) : k.Plain v :=
  fun j target => (filed.collectable j).mpr (plain j target)

theorem clear (filed : Filed h k i c) (clear : h.Clear v) : k.Clear v :=
  fun j target danger => clear j target (filed.aged j danger)

theorem holds (filed : Filed h k i c) (holds : h.Holds v) : k.Holds v :=
  fun j target => (holds j target).imp (filed.collectable j).mpr
    fun fixed => (filed.fixed j).mpr (Or.inl fixed)

theorem here (filed : Filed h k i c) : k.Fixed i := (filed.fixed i).mpr (Or.inr rfl)

theorem collectable_ne (filed : Filed h k i c) (on : h.Collectable j) : j ≠ i := by
  rintro rfl
  exact not_fixed_of_collectable ((filed.collectable j).mpr on) filed.here

theorem contents_collectable (filed : Filed h k i c) (on : h.Collectable j) :
    k.contents j = h.contents j :=
  filed.contents j (Or.inl on) (filed.collectable_ne on)

theorem again (first : Filed h m i c) (second : Filed m k i d) : Filed h k i d where
  toSameCycle := first.toSameCycle.trans second.toSameCycle
  sound := second.sound
  collectable j := (second.collectable j).trans (first.collectable j)
  fixed j := by rw [second.fixed, first.fixed, or_assoc, or_self]
  fresh j := (second.fresh j).trans (first.fresh j)
  aged j danger := first.aged j (second.aged j danger)
  contents j use other := by
    have use' : m.InUse j := use.imp (first.collectable j).mpr
      fun fixed => (first.fixed j).mpr (Or.inl fixed)
    rw [second.contents j use' other, first.contents j use other]
  filled := second.filled

end Filed

theorem Filed.of_write {act : Act L} {answer : Option (Ref L)} (e : Effect act h answer k)
    (fixed : h.Fixed i) (noBirth : act.birth = none)
    (write : ∀ j, act.write j (h.contents j) = if j = i then c else h.contents j) :
    Filed h k i c where
  toSameCycle := e.toSameCycle
  sound := e.sound
  collectable j := by simp [e.collectable, Act.Makes, noBirth]
  fresh j := by simp [e.fresh, Act.Makes, noBirth]
  fixed j := by
    rw [e.fixed]
    simp only [Act.Makes, noBirth, Option.isSome_none, Bool.false_eq_true, false_and, and_false,
      or_false]
    exact ⟨Or.inl, fun on => on.elim id fun same => same ▸ fixed⟩
  aged := e.aged
  contents j use other := by rw [e.contents j use, write, if_neg other]
  filled := by rw [e.contents i (Or.inr fixed), write, if_pos rfl]

theorem Sound.write_own (act : Act L) {t : HeapTask L Unit} (sound : s.state.Sound)
    (task : act.task = do t; return none) (accepted : act.refusal s.state = none)
    (held : ∀ w ∈ act.operands, s.state.Holds w) (fixed : s.state.Fixed i)
    (noBirth : act.birth = none) (write : ∀ j, act.write j (s.state.contents j) =
      if j = i then c else s.state.contents j) :
    ∃ k j, t s = .ok () ⟨k, j⟩ ∧ Filed s.state k i c ∧ ∀ w ∈ act.operands, k.Clear w := by
  rcases act.outcome sound held with ⟨f, refusal, -⟩ | ⟨-, answer, k, j, done, effect⟩
  · simp [accepted] at refusal
  · rw [task] at done
    obtain ⟨_, u, wrote, rest⟩ := Task.bind_eq_ok.mp done
    obtain ⟨-, rfl⟩ : none = answer ∧ u = ⟨k, j⟩ := by simpa using rest
    exact ⟨k, j, wrote, .of_write effect fixed noBirth write, effect.clear⟩

theorem Sound.setFirst_own (sound : s.state.Sound) (points : r.Points i) (fixed : s.state.Fixed i)
    (holds : s.state.Holds v) :
    ∃ k j, setFirst r v s = .ok () ⟨k, j⟩ ∧
      Filed s.state k i (v, (s.state.contents i).2) ∧ k.Clear v := by
  obtain ⟨k, j, done, filed, clear⟩ := sound.write_own (.setFirst r v)
    (c := (v, (s.state.contents i).2)) rfl (by simp [Act.refusal, points.isCons])
    (by simpa [Act.operands] using ⟨holds_of_points points fixed, holds⟩) fixed rfl fun j => by
      by_cases same : j = i
      · simp [Act.write, points.2, same]
      · simp [Act.write, points.2, same, Ne.symm same]
  exact ⟨k, j, done, filed, clear v (by simp [Act.operands])⟩

theorem Sound.setRest_own (sound : s.state.Sound) (points : r.Points i) (fixed : s.state.Fixed i)
    (holds : s.state.Holds v) :
    ∃ k j, setRest r v s = .ok () ⟨k, j⟩ ∧
      Filed s.state k i ((s.state.contents i).1, v) ∧ k.Clear v := by
  obtain ⟨k, j, done, filed, clear⟩ := sound.write_own (.setRest r v)
    (c := ((s.state.contents i).1, v)) rfl (by simp [Act.refusal, points.isCons])
    (by simpa [Act.operands] using ⟨holds_of_points points fixed, holds⟩) fixed rfl fun j => by
      by_cases same : j = i
      · simp [Act.write, points.2, same]
      · simp [Act.write, points.2, same, Ne.symm same]
  exact ⟨k, j, done, filed, clear v (by simp [Act.operands])⟩

theorem Filed.of_perm {answer : Option (Ref L)} (e : Effect (.perm a b) h answer k) :
    ∃ r i, answer = some r ∧ r.Points i ∧ ¬h.InUse i ∧ Filed h k i (a, b) := by
  obtain ⟨r, i, rfl, kind, target, unused, filled⟩ := e.born .pair a b rfl
  have makes : ∀ j, (Act.perm a b).Makes (some r) j ↔ j = i := fun j => by
    simp [Act.Makes, Act.birth, target, eq_comm]
  refine ⟨r, i, rfl, ⟨by simp [Ref.isPair, kind], target⟩, unused, ?_⟩
  exact
    { toSameCycle := e.toSameCycle
      sound := e.sound
      collectable := fun j => by simp [e.collectable, Act.lasting]
      fixed := fun j => by simp [e.fixed, Act.lasting, makes]
      fresh := fun j => by simp [e.fresh, Act.lasting]
      aged := e.aged
      contents := fun j use _ => e.contents j use
      filled := filled }

theorem Sound.perm_own (sound : s.state.Sound) (holdsFirst : s.state.Holds a)
    (holdsRest : s.state.Holds b) :
    perm a b s = .error .arenaExhausted s ∧ Ref.maxCell L < s.state.cells.size + blockCells ∨
      ∃ r i k j, perm a b s = .ok r ⟨k, j⟩ ∧ r.Points i ∧ ¬s.state.InUse i ∧
        Filed s.state k i (a, b) ∧ k.Clear a ∧ k.Clear b := by
  rcases (Act.perm a b).outcome sound (by simpa [Act.operands] using ⟨holdsFirst, holdsRest⟩) with
    ⟨f, refusal, refused⟩ | ⟨-, answer, k, j, done, effect⟩
  · left
    simp only [Act.refusal] at refusal
    split at refusal
    · rename_i short
      obtain rfl := Option.some.inj refusal
      refine ⟨?_, short.2⟩
      rcases Task.bind_eq_error.mp refused with failed | ⟨r, u, -, failed⟩
      · exact failed
      · cases failed
    · cases refusal
  · obtain ⟨r, i, rfl, points, unused, filed⟩ := Filed.of_perm effect
    obtain ⟨r', u, made, rest⟩ := Task.bind_eq_ok.mp done
    simp only [Task.pure_apply, EStateM.Result.ok.injEq, Option.some.injEq] at rest
    obtain ⟨rfl, rfl⟩ := rest
    exact Or.inr ⟨r', i, k, j, made, points, unused, filed,
      effect.clear a (by simp [Act.operands]), effect.clear b (by simp [Act.operands])⟩

/-! ### Chains -/

/-- Rest slots lead from `r` through the cells in turn to `q`. -/
def Leads (h : Heap L) : Ref L → List Nat → Ref L → Prop
  | r, [], q => r = q
  | r, i :: cells, q => r.Points i ∧ h.Leads (h.contents i).2 cells q

theorem Leads.congr (leads : h.Leads r cells q) (same : ∀ i ∈ cells, k.contents i = h.contents i) :
    k.Leads r cells q := by
  induction cells generalizing r with
  | nil => exact leads
  | cons i cells ih =>
    refine ⟨leads.1, ?_⟩
    rw [same i (by simp)]
    exact ih leads.2 fun j on => same j (by simp [on])

theorem leads_append : h.Leads r (cells ++ more) q ↔ ∃ m, h.Leads r cells m ∧ h.Leads m more q := by
  induction cells generalizing r with
  | nil => exact ⟨fun leads => ⟨r, rfl, leads⟩, fun ⟨m, same, leads⟩ => same ▸ leads⟩
  | cons i cells ih =>
    simp only [List.cons_append, Leads, ih, and_assoc, exists_and_left]

theorem leads_concat : h.Leads r (cells ++ [i]) q ↔
    ∃ m, h.Leads r cells m ∧ m.Points i ∧ (h.contents i).2 = q :=
  leads_append

theorem Leads.isNil (leads : h.Leads r cells .nil) : r.isNil = cells.isEmpty := by
  cases cells with
  | nil => rw [show r = .nil from leads]; exact Ref.isNil_nil
  | cons i cells => exact leads.1.isNil

theorem Leads.holds (leads : h.Leads r cells .nil) (fixed : ∀ i ∈ cells, h.Fixed i) : h.Holds r := by
  cases cells with
  | nil =>
    rw [show r = .nil from leads]
    exact (plain_of_target? Ref.target?_nil).holds
  | cons i cells => exact holds_of_points leads.1 (fixed i (by simp))

/-- A walk that meets no cell twice stays below its limit. -/
theorem walkLimit_apply (s : Logged (Heap L)) :
    ∃ limit, walkLimit s = .ok limit s ∧ s.state.cells.size < limit := by
  refine ⟨4 * (s.state.cells.size + blockCells) * (s.state.cells.size + blockCells), rfl, ?_⟩
  unfold blockCells
  nlinarith

end Heap

end Treadmill

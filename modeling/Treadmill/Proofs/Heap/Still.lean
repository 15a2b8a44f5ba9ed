import Mathlib
import Treadmill.Proofs.Heap.Floating

/-!
Work on permanent cells leaves all others where they are, as long as it meets no candidate (`Still`). So
a search for what is in reach of the roots goes on after it as if nothing had happened
(`Searching.still`).
-/

namespace Treadmill.Heap
variable {L : Layout} {h k m : Heap L} {i : Nat} {r v a b : Ref L} {s : Logged (Heap L)} {j : Journal}
  {act : Act L} {answer : Option (Ref L)}

/-- `k` differs from `h` in permanent cells and those that are not in use alone. -/
structure Still (h k : Heap L) : Prop extends SameCycle h k where
  fresh : ∀ i, i ∈ k.members .fresh ↔ i ∈ h.members .fresh
  aged : ∀ i, i ∈ k.members .aged ↔ i ∈ h.members .aged
  scan : ∀ i, i ∈ k.members .scan ↔ i ∈ h.members .scan
  fixed : ∀ i, h.Fixed i → k.Fixed i
  contents : ∀ i, h.Collectable i → k.contents i = h.contents i

namespace Still

theorem refl (h : Heap L) : Still h h :=
  ⟨.refl h, fun _ => .rfl, fun _ => .rfl, fun _ => .rfl, fun _ => id, fun _ _ => rfl⟩

theorem collectable (still : Still h k) : k.Collectable i ↔ h.Collectable i := by
  rw [Collectable, Collectable, still.fresh, still.aged, still.scan]

theorem clear (still : Still h k) : k.Clear v ↔ h.Clear v := by
  simp only [Clear, still.aged]

theorem trans (first : Still h m) (second : Still m k) : Still h k where
  toSameCycle := first.toSameCycle.trans second.toSameCycle
  fresh i := (second.fresh i).trans (first.fresh i)
  aged i := (second.aged i).trans (first.aged i)
  scan i := (second.scan i).trans (first.scan i)
  fixed i on := second.fixed i (first.fixed i on)
  contents i on := (second.contents i (first.collectable.mpr on)).trans (first.contents i on)

end Still

theorem clear_of_points (points : r.Points i) (fixed : h.Fixed i) : h.Clear r := fun j target danger => by
  rw [points.2, Option.some.injEq] at target
  exact not_fixed_of_collectable (Or.inr (Or.inl danger)) (target ▸ fixed)

theorem Leads.clear {cells : List Nat} (leads : h.Leads r cells .nil) (fixed : ∀ i ∈ cells, h.Fixed i) :
    h.Clear r := by
  cases cells with
  | nil =>
    rw [show r = .nil from leads]
    exact clear_of_target? Ref.target?_nil
  | cons i cells => exact clear_of_points leads.1 (fixed i (by simp))

/-- An operation on what is no candidate that makes and writes no cell that may be reclaimed. -/
theorem Sound.still_of_effect (sound : h.Sound) (effect : Effect act h answer k)
    (clear : ∀ v ∈ act.operands, h.Clear v) (lasts : act.birth = none ∨ act.lasting = true)
    (spares : ∀ i, h.Collectable i → act.write i (h.contents i) = h.contents i) : Still h k := by
  have unborn : ∀ i, ¬(act.lasting = false ∧ act.Makes answer i) := by
    rintro i ⟨passing, born, -⟩
    rcases lasts with none | lasting
    · simp [none] at born
    · simp [lasting] at passing
  have aged : ∀ i, i ∈ k.members .aged ↔ i ∈ h.members .aged := fun i => by
    refine ⟨effect.aged i, fun was => ?_⟩
    by_contra left
    obtain ⟨v, on, target⟩ := effect.left i was left
    exact clear v on i target was
  have fresh : ∀ i, i ∈ k.members .fresh ↔ i ∈ h.members .fresh := fun i =>
    (effect.fresh i).trans (or_iff_left (unborn i))
  refine ⟨effect.toSameCycle, fresh, aged, fun i => ?_, fun i on => (effect.fixed i).mpr (Or.inl on),
    fun i on => ?_⟩
  · -- the scan ring is what is left of the cells that may be reclaimed
    have same : k.Collectable i ↔ h.Collectable i :=
      (effect.collectable i).trans (or_iff_left (unborn i))
    have only : ∀ {g : Heap L}, g.Sound → (i ∈ g.members .scan ↔
        g.Collectable i ∧ i ∉ g.members .fresh ∧ i ∉ g.members .aged) := by
      intro g sound
      refine ⟨fun on => ⟨Or.inr (Or.inr on), fun other => ?_, fun other => ?_⟩, ?_⟩
      · exact absurd (sound.threaded.apart on other) (by decide)
      · exact absurd (sound.threaded.apart on other) (by decide)
      · rintro ⟨on | on | on, notFresh, notAged⟩
        · exact absurd on notFresh
        · exact absurd on notAged
        · exact on
    rw [only effect.sound, only sound, same, fresh, aged]
  · rw [effect.contents i (Or.inl on), spares i on]

theorem Sound.still (act : Act L) (sound : s.state.Sound) (held : ∀ v ∈ act.operands, s.state.Holds v)
    (clear : ∀ v ∈ act.operands, s.state.Clear v) (lasts : act.birth = none ∨ act.lasting = true)
    (spares : ∀ i, s.state.Collectable i → act.write i (s.state.contents i) = s.state.contents i) :
    Still s.state (stateAfter (act.task s)).state := by
  rcases act.outcome sound held with ⟨f, -, refused⟩ | ⟨-, answer, k, j, done, effect⟩
  · rw [refused]
    exact .refl _
  · rw [done]
    exact sound.still_of_effect effect clear lasts spares

/-- A store into a permanent cell. -/
theorem Sound.write_still (act : Act L) {t : HeapTask L Unit} (sound : s.state.Sound)
    (task : act.task = do t; return none) (operands : act.operands = [r, v]) (writes : act.birth = none)
    (other : ∀ j held, r.target? ≠ some j → act.write j held = held) (points : r.Points i)
    (fixed : s.state.Fixed i) (holds : s.state.Holds v) (clear : s.state.Clear v)
    (done : t s = .ok () ⟨k, j⟩) : Still s.state k := by
  have still := sound.still act
    (by simpa [operands] using ⟨holds_of_points points fixed, holds⟩)
    (by simpa [operands] using ⟨clear_of_points points fixed, clear⟩) (Or.inl writes) fun c on =>
      other c _ fun named => not_fixed_of_collectable on (Option.some.inj (points.2.symm.trans named) ▸ fixed)
  rw [task, Task.bind_apply, done] at still
  exact still

theorem Sound.setFirst_still (sound : s.state.Sound) (points : r.Points i) (fixed : s.state.Fixed i)
    (holds : s.state.Holds v) (clear : s.state.Clear v) (done : setFirst r v s = .ok () ⟨k, j⟩) :
    Still s.state k :=
  sound.write_still (.setFirst r v) rfl rfl rfl (fun _ _ other => if_neg other) points fixed holds clear done

theorem Sound.setRest_still (sound : s.state.Sound) (points : r.Points i) (fixed : s.state.Fixed i)
    (holds : s.state.Holds v) (clear : s.state.Clear v) (done : setRest r v s = .ok () ⟨k, j⟩) :
    Still s.state k :=
  sound.write_still (.setRest r v) rfl rfl rfl (fun _ _ other => if_neg other) points fixed holds clear done

/-- A permanent cell is filled anew. -/
theorem Sound.refill_still (sound : s.state.Sound) (points : r.Points i) (fixed : s.state.Fixed i)
    (holdsFirst : s.state.Holds a) (holdsRest : s.state.Holds b) (clearFirst : s.state.Clear a)
    (clearRest : s.state.Clear b) :
    ∃ m k j l, setFirst r a s = .ok () ⟨m, j⟩ ∧ setRest r b ⟨m, j⟩ = .ok () ⟨k, l⟩ ∧
      Still s.state k := by
  obtain ⟨m, j, wrote, one, -⟩ := sound.setFirst_own points fixed holdsFirst
  have still := sound.setFirst_still points fixed holdsFirst clearFirst wrote
  have holds := one.holds holdsRest
  obtain ⟨k, l, wrote', -, -⟩ := one.sound.setRest_own (s := ⟨m, j⟩) points one.here holds
  have still' := one.sound.setRest_still (s := ⟨m, j⟩) points one.here holds
    (still.clear.mpr clearRest) wrote'
  exact ⟨m, k, j, l, wrote, wrote', still.trans still'⟩

theorem Sound.perm_still (sound : s.state.Sound) (holdsFirst : s.state.Holds a)
    (holdsRest : s.state.Holds b) (clearFirst : s.state.Clear a) (clearRest : s.state.Clear b) :
    Still s.state (stateAfter (perm a b s)).state := by
  have still := sound.still (.perm a b) (by simpa [Act.operands] using ⟨holdsFirst, holdsRest⟩)
    (by simpa [Act.operands] using ⟨clearFirst, clearRest⟩) (Or.inr rfl) fun _ _ => rfl
  rw [Act.task, Task.bind_apply] at still
  cases ran : perm a b s <;> rwa [ran] at still

theorem Sound.behavior_still (sound : s.state.Sound) (holds : s.state.Holds a) (clear : s.state.Clear a) :
    Still s.state (stateAfter (behavior a s)).state := by
  have still := sound.still (.behavior a) (by simpa [Act.operands] using holds)
    (by simpa [Act.operands] using clear) (Or.inl rfl) fun _ _ => rfl
  rw [Act.task, Task.bind_apply] at still
  cases ran : behavior a s <;> rwa [ran] at still

/-! ### What a search leaves unnoticed -/

namespace Searching
variable {refs : List (Ref L)} {new : Nat → Prop} (searching : Searching h refs new k)
include searching

theorem still (still : Still k m) (sound : m.Sound) : Searching h refs new m where
  sound := sound
  collectable i := still.collectable.trans (searching.collectable i)
  fixed i on := still.fixed i (searching.fixed i on)
  slots i on := by
    rw [slots_eq, still.contents i ((searching.collectable i).mpr (Or.inl on)), ← slots_eq,
      searching.slots i on]
  clear v on := still.clear.mpr (searching.clear v on)
  young i isNew := ⟨(searching.young i isNew).1, (still.fresh i).mpr (searching.young i isNew).2⟩
  fresh i on := searching.fresh i ((still.fresh i).mp on)
  scan i on := searching.scan i ((still.scan i).mp on)

/-- A cell that is made in the meantime is new. -/
theorem acted (effect : Effect act k answer m) (clear : ∀ v ∈ act.operands, k.Clear v)
    (spares : ∀ i, k.Collectable i → act.write i (k.contents i) = k.contents i) :
    Searching h refs (fun i => new i ∨ act.lasting = false ∧ act.Makes answer i) m where
  sound := effect.sound
  collectable i := by rw [effect.collectable, searching.collectable, or_assoc]
  fixed i on := (effect.fixed i).mpr (Or.inl (searching.fixed i on))
  slots i on := by
    have old := (searching.collectable i).mpr (Or.inl on)
    rw [slots_eq, effect.contents i (Or.inl old), spares i old, ← slots_eq, searching.slots i on]
  clear v on i target danger := searching.clear v on i target (effect.aged i danger)
  young i := by
    rintro (isNew | ⟨passing, makes⟩)
    · exact (searching.young i isNew).imp id fun fresh => (effect.fresh i).mpr (Or.inl fresh)
    · refine ⟨fun use => effect.unused makes (use.imp ?_ (searching.fixed i)), ?_⟩
      · exact fun on => (searching.collectable i).mpr (Or.inl on)
      · exact (effect.fresh i).mpr (Or.inr ⟨passing, makes⟩)
  fresh i on := by
    rcases (effect.fresh i).mp on with old | born
    · exact (searching.fresh i old).imp Or.inl id
    · exact Or.inl (Or.inr born)
  scan i on := by
    rcases effect.scan_old on with old | ⟨danger, v, operand, target⟩
    · exact searching.scan i old
    · exact absurd danger (clear v operand i target)

end Searching

end Treadmill.Heap

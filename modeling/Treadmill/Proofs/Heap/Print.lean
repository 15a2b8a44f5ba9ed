import Mathlib
import Treadmill.Data.Show
import Treadmill.Proofs.Heap.Chain

/-!
Printing. What refers to ordinary cells alone, as they do to one another, is written out in full.
-/

namespace Treadmill.Data
open Heap
variable {L : Layout} {h : Heap L} {r : Ref L} {names : Symbols} {item : Ref L → Writing} {n : Nat}
  {P : Ref L → Prop}

section
variable (opens : ∀ r : Ref L, r.isCons = true → P r → ∃ c, peek h r = .ok c ∧ P c.1 ∧ P c.2)
include opens

theorem showItems_whole (each : ∀ v, P v → (item v).fault? = none) (isCons : r.isCons = true) (within : P r) :
    (showItems h item n r).fault? = none := by
  have tail : ∀ {d : Ref L} {more : Writing}, P d → (d.isCons = true → more.fault? = none) →
      (if d.isNil then Writing.whole "" else if !d.isPair then .whole " . " >> item d
        else more).fault? = none := by
    intro d more within here
    split
    · rfl
    · rename_i notNil
      split
      · exact (Writing.fault?_then_eq_none_iff _ _).mpr ⟨rfl, each d within⟩
      · rename_i isPair
        exact here (Ref.isCons_of_isPair (by simpa using isPair) (by simpa using notNil))
  induction n generalizing r with
  | zero =>
    obtain ⟨c, peeked, within⟩ := opens r isCons within
    rw [showItems, peeked]
    exact (Writing.fault?_then_eq_none_iff _ _).mpr ⟨each _ within.1, tail within.2 fun _ => rfl⟩
  | succ n ih =>
    obtain ⟨c, peeked, within⟩ := opens r isCons within
    rw [showItems, peeked]
    refine (Writing.fault?_then_eq_none_iff _ _).mpr ⟨each _ within.1, tail within.2 fun isCons => ?_⟩
    exact (Writing.fault?_then_eq_none_iff _ _).mpr ⟨rfl, ih isCons within.2⟩

/-- Where every pair can be looked into, and what is found there too, everything is written out. -/
theorem showFrom_whole_of (within : P r) : (showFrom h names n r).fault? = none := by
  induction n generalizing r with
  | zero => rfl
  | succ n ih =>
    rw [showFrom]
    split
    · rename_i isCons
      have items := showItems_whole (n := showLimit - 1) opens (fun v => ih (r := v)) isCons within
      simp [Writing.fault?_then_eq_none_iff, items, Writing.whole]
    · rfl

end

theorem peek_of_inside (target : r.target? = some r.field.toNat) (inside : r.field.toNat < h.cells.size) :
    peek h r = .ok (h.contents r.field.toNat) := by
  simp [peek, Ref.cell_of_target? target, contents, cellAt, Array.getD, inside, bind, Except.bind, pure,
    Except.pure]

theorem showFrom_whole (sound : h.Sound)
    (closed : ∀ i, h.Collectable i → ∀ v ∈ h.slots i, h.Plain v) (plain : h.Plain r) :
    (showFrom h names n r).fault? = none := by
  refine showFrom_whole_of (P := h.Plain) (fun r isCons plain => ?_) plain
  have target := Ref.target?_of_isCons isCons
  have collectable := plain _ target
  exact ⟨_, peek_of_inside target (sound.threaded.inside_of_inUse (Or.inl collectable)).2,
    closed _ collectable _ (by simp [slots_eq]), closed _ collectable _ (by simp [slots_eq])⟩

end Treadmill.Data

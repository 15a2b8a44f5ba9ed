import Mathlib
import Treadmill.Ref

/-!
The cells that references name. Only pairs other than the empty list and actors name one.
-/

namespace Treadmill.Ref
variable {L : Layout} {r : Ref L} {i : Nat}

def target? (r : Ref L) : Option Nat :=
  if r.isCons || r.isActor then some r.field.toNat else none

theorem target?_eq_some_iff :
    r.target? = some i ↔ (r.isCons = true ∨ r.isActor = true) ∧ r.field.toNat = i := by
  unfold target?
  split <;> simp_all

theorem cell_of_target? (target : r.target? = some i) : r.cell = .ok i := by
  obtain ⟨isCons | isActor, rfl⟩ := target?_eq_some_iff.mp target
  · have : r.kind = .pair := by simp_all [Ref.isCons, isPair]
    simp [cell, this]
  · have : r.kind = .actor := by simpa [Ref.isActor] using isActor
    simp [cell, this]

theorem target?_of_isCons (isCons : r.isCons = true) : r.target? = some r.field.toNat := by
  simp [target?, isCons]

theorem target?_of_isActor (isActor : r.isActor = true) : r.target? = some r.field.toNat := by
  simp [target?, isActor]

theorem target?_of_isFunc (isFunc : r.isFunc = true) : r.target? = none := by
  have : r.kind = .func := by simpa [Ref.isFunc] using isFunc
  simp [target?, Ref.isCons, isPair, Ref.isActor, this]

@[simp] theorem isNil_nil : (nil : Ref L).isNil = true := isNil_iff.mpr rfl

@[simp] theorem kind_nil : (nil : Ref L).kind = .pair := kind_make ..

@[simp] theorem isCons_nil : (nil : Ref L).isCons = false := by simp [isCons]

@[simp] theorem target?_nil : (nil : Ref L).target? = none := by
  simp [target?, isCons, isActor]

theorem isNil_of_target? (target : r.target? = some i) : r.isNil = false := by
  refine Bool.eq_false_iff.mpr fun isNil => ?_
  rw [isNil_iff.mp isNil, target?_nil] at target
  cases target

theorem isCons_of_isPair (isPair : r.isPair = true) (isNil : r.isNil = false) :
    r.isCons = true := by
  simp [isCons, isPair, isNil]

theorem isNil_of_isPair_eq_false (isPair : r.isPair = false) : r.isNil = false := by
  refine Bool.eq_false_iff.mpr fun isNil => ?_
  rw [isNil_iff.mp isNil] at isPair
  simp [Ref.isPair] at isPair

theorem eq_nil_of_isPair (isPair : r.isPair = true) (none : r.target? = none) : r = nil := by
  refine isNil_iff.mp ?_
  cases isNil : r.isNil with
  | true => rfl
  | false => simp [target?_of_isCons (isCons_of_isPair isPair isNil)] at none

theorem fits_of_le_maxCell (room : i ≤ maxCell L) : i < 2 ^ L.fieldBits .pair := by
  have := Nat.two_pow_pos (L.fieldBits .pair)
  unfold maxCell at room
  omega

theorem pair_ok (room : i ≤ maxCell L) : ∃ r : Ref L, pair i = .ok r :=
  ⟨_, dif_pos (fits_of_le_maxCell room)⟩

theorem actor_ok (room : i ≤ maxCell L) : ∃ r : Ref L, actor i = .ok r := by
  have same : L.fieldBits .actor = L.fieldBits .pair := by cases L <;> rfl
  exact ⟨_, dif_pos (by rw [same]; exact fits_of_le_maxCell room)⟩

theorem toNat_ofNat_of_fits {n : Nat} {k : Kind} (fits : n < 2 ^ L.fieldBits k) :
    (UInt64.ofNat n).toNat = n := by
  have narrow : n < 2 ^ 64 := Nat.lt_of_lt_of_le fits (by cases L <;> cases k <;> decide)
  rw [UInt64.toNat_ofNat', Nat.mod_eq_of_lt narrow]

/-- A pair names the cell it was made for, unless it is the empty list. -/
theorem of_pair (named : pair i = .ok r) :
    r.kind = .pair ∧ r.cell = .ok i ∧ (0 < i → r.target? = some i) := by
  unfold pair at named
  split at named
  · rename_i fits
    have field := toNat_ofNat_of_fits fits
    simp only [Except.ok.injEq] at named
    subst named
    have kind : Ref.kind (make .pair (UInt64.ofNat i) (ofNat_field_lt fits) (by simp) (by simp) :
        Ref L) = .pair := kind_make ..
    refine ⟨kind, by simp only [cell, kind_make, field_make, field], fun positive => ?_⟩
    have notNil : isNil (make .pair (UInt64.ofNat i) (ofNat_field_lt fits) (by simp) (by simp) :
        Ref L) = false := by
      refine Bool.eq_false_iff.mpr fun isNil => ?_
      have same := congrArg Ref.field (isNil_iff.mp isNil)
      rw [field_make, nil, field_make] at same
      have := congrArg UInt64.toNat same
      rw [field] at this
      simp at this
      omega
    rw [target?_of_isCons (isCons_of_isPair (by simp [isPair, kind]) notNil), field_make, field]
  · cases named

theorem of_actor (named : actor i = .ok r) : r.kind = .actor ∧ r.target? = some i := by
  unfold actor at named
  split at named
  · rename_i fits
    simp only [Except.ok.injEq] at named
    subst named
    have kind : Ref.kind (make .actor (UInt64.ofNat i) (ofNat_field_lt fits) (by simp) (by simp) :
        Ref L) = .actor := kind_make ..
    refine ⟨kind, ?_⟩
    rw [target?_of_isActor (by simp [isActor, kind]), field_make, toNat_ofNat_of_fits fits]
  · cases named

theorem maxCell_lt (L : Layout) : maxCell L < 2 ^ 62 := by
  cases L <;> decide

end Treadmill.Ref

import Mathlib
import Treadmill.Proofs.World.Delay

/-!
# Moments as microseconds

Moments in normal form are ordered like their totals in microseconds, so what is done to moments can be
followed in whole numbers. `Moment.arithmetic` puts this together.
-/

namespace Treadmill

namespace Moment
variable {a b t u v w : Moment} {s us d e : Int}

/-! ### Normal forms -/

theorem floor_seconds (us : Int) : ⌊(us : ℚ) / 1000000⌋ = us / secondUs := by
  have whole := Rat.floor_intCast_div_natCast us 1000000
  rwa [Nat.cast_ofNat] at whole

theorem normal_of_signed (fits : IsSigned (s + us / secondUs)) :
    normal s us = .ok ⟨s + us / secondUs, us % secondUs⟩ := by
  have carried : addSigned s (us / secondUs) = .ok (s + us / secondUs) := if_pos fits
  rw [normal, carried]
  rfl

theorem normal_of_not_signed (beyond : ¬IsSigned (s + us / secondUs)) :
    normal s us = .error .addOverflow := by
  have refused : addSigned s (us / secondUs) = .error .addOverflow := if_neg beyond
  rw [normal, refused]
  rfl

/-- The carry moves whole seconds, so the total stays. -/
theorem of_normal (done : normal s us = .ok t) :
    t.IsNormal ∧ t.total = s * secondUs + us ∧ IsSigned t.s := by
  by_cases fits : IsSigned (s + us / secondUs)
  · rw [normal_of_signed fits, Except.ok.injEq] at done
    subst done
    refine ⟨⟨Int.emod_nonneg _ (by decide), Int.emod_lt_of_pos _ (by decide)⟩, ?_, fits⟩
    calc (s + us / secondUs) * secondUs + us % secondUs
      _ = s * secondUs + (secondUs * (us / secondUs) + us % secondUs) := by ring
      _ = s * secondUs + us := by rw [Int.mul_ediv_add_emod]
  · rw [normal_of_not_signed fits] at done
    cases done

/-! ### Order -/

theorem eq_iff_total_eq (first : a.IsNormal) (second : b.IsNormal) : a = b ↔ a.total = b.total := by
  rw [eq_iff]
  unfold IsNormal secondUs at first second
  unfold total secondUs
  omega

theorem swap_cmp (a b : Moment) : (a.cmp b).swap = b.cmp a := by
  rw [cmp, cmp, Ordering.swap_then, Int.compare_swap, Int.compare_swap]

theorem cmp_eq_compare_total (first : a.IsNormal) (second : b.IsNormal) :
    a.cmp b = compare a.total b.total := by
  rcases lt_trichotomy a.total b.total with less | same | more
  · rw [Int.compare_eq_lt.mpr less]
    exact (lt_iff_total_lt first second).mpr less
  · obtain rfl := (eq_iff_total_eq first second).mpr same
    simp [cmp]
  · have less : b.cmp a = .lt := (lt_iff_total_lt second first).mpr more
    rw [← swap_cmp, less, Int.compare_eq_gt.mpr more]
    rfl

/-! ### Shifts -/

theorem lt_iff_of_shift (first : t.shift d = .ok v) (second : u.shift e = .ok w) :
    v < w ↔ t.total + d < u.total + e := by
  obtain ⟨normal, total⟩ := of_shift first
  obtain ⟨normal', total'⟩ := of_shift second
  rw [lt_iff_total_lt normal normal', total, total']

theorem shift_shift (first : t.shift d = .ok u) (second : u.shift e = .ok v)
    (once : t.shift (d + e) = .ok w) : v = w := by
  obtain ⟨-, total⟩ := of_shift first
  obtain ⟨normal, total'⟩ := of_shift second
  obtain ⟨normal', total''⟩ := of_shift once
  rw [eq_iff_total_eq normal normal', total', total, total'', Int.add_assoc]

/-- What moments and whole microseconds have to do with each other. Seconds and microseconds may be any
numbers; what is carried is rounded down. -/
structure Arithmetic : Prop where
  fits : ∀ s us : Int, IsSigned (s + ⌊(us : ℚ) / 1000000⌋) → ∃ t, normal s us = .ok t
  overflows : ∀ s us : Int, ¬IsSigned (s + ⌊(us : ℚ) / 1000000⌋) → normal s us = .error .addOverflow
  carried : ∀ {s us : Int} {t : Moment}, normal s us = .ok t →
    0 ≤ t.us ∧ t.us < 1000000 ∧ t.s * 1000000 + t.us = s * 1000000 + us ∧ IsSigned t.s
  compares : ∀ {a b : Moment}, a.IsNormal → b.IsNormal → a.cmp b = compare a.total b.total
  same : ∀ {a b : Moment}, a.IsNormal → b.IsNormal → (a = b ↔ a.total = b.total)
  shifted : ∀ {t u : Moment} {d : Int}, t.shift d = .ok u → u.IsNormal ∧ u.total = t.total + d
  composes : ∀ {t u v w : Moment} {d e : Int}, t.shift d = .ok u → u.shift e = .ok v →
    t.shift (d + e) = .ok w → v = w
  /-- The moment that is shifted need not be in normal form, nor the distance be positive. -/
  farther : ∀ {t u v : Moment} {d e : Int}, t.shift d = .ok u → t.shift e = .ok v → (u < v ↔ d < e)
  later : ∀ {t u v w : Moment} {d : Int}, t.IsNormal → u.IsNormal → t.shift d = .ok v →
    u.shift d = .ok w → (v < w ↔ t < u)

theorem arithmetic : Arithmetic where
  fits s us fits := by
    rw [floor_seconds] at fits
    exact ⟨_, normal_of_signed fits⟩
  overflows s us beyond := by
    rw [floor_seconds] at beyond
    exact normal_of_not_signed beyond
  carried done := by
    obtain ⟨⟨low, high⟩, total, fits⟩ := of_normal done
    exact ⟨low, high, total, fits⟩
  compares := cmp_eq_compare_total
  same := eq_iff_total_eq
  shifted := of_shift
  composes := shift_shift
  farther first second := by
    rw [lt_iff_of_shift first second]
    omega
  later regular regular' first second := by
    rw [lt_iff_of_shift first second, lt_iff_total_lt regular regular']
    omega

end Moment

end Treadmill

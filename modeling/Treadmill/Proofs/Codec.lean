import Mathlib
import Treadmill.Proofs.Target

/-!
# Words and values

A value that a layout has room for is written as one word and read back from it, and the words of
different values differ. `Ref.codec` puts this together for every layout.
-/

namespace Treadmill

namespace Layout
variable {L : Layout} {k : Kind} {w m c : UInt64}

/-! ### Digits -/

theorem stack_div_mod (m w : UInt64) : stack m (w / m) (w % m) = w := by
  have low := Nat.div_add_mod w.toNat m.toNat
  have bound := w.toNat_lt
  have whole : m.toNat * (w / m).toNat + (w % m).toNat = w.toNat := by
    rw [UInt64.toNat_div, UInt64.toNat_mod, low]
  apply UInt64.toNat_inj.mp
  rw [toNat_stack (by omega), whole]

theorem stack_of_mod (low : w % m = c) : stack m (w / m) c = w := by
  rw [← low]
  exact stack_div_mod m w

theorem stack_of_div (high : w / m = c) : stack m c (w % m) = w := by
  rw [← high]
  exact stack_div_mod m w

theorem quarter_cases (w : UInt64) : w % 4 = 0 ∨ w % 4 = 1 ∨ w % 4 = 3 ∨ w % 4 = 2 := by
  simp only [← UInt64.toNat_inj, UInt64.toNat_mod, UInt64.reduceToNat]
  omega

theorem half_cases (w : UInt64) : w % 2 = 0 ∨ w % 2 = 1 := by
  simp only [← UInt64.toNat_inj, UInt64.toNat_mod, UInt64.reduceToNat]
  omega

theorem high_cases (w : UInt64) :
    w / lowSpan = 0 ∨ w / lowSpan = 1 ∨ w / lowSpan = 2 ∨ w / lowSpan = 3 := by
  have bound := w.toNat_lt
  simp only [← UInt64.toNat_inj, UInt64.toNat_div, show lowSpan.toNat = 2 ^ 62 from rfl,
    UInt64.reduceToNat]
  omega

/-! ### Words -/

/-- The digits that tell a kind leave just the room that its field has. -/
theorem field_lt (told : L.kind? w = some k) : (L.field w).toNat < 2 ^ L.fieldBits k := by
  have bound := w.toNat_lt
  cases L
  case twoLow =>
    simp only [field]
    by_cases rare : w % 4 = 2
    · have narrow : (w / 4 / 4).toNat < 2 ^ 60 := by
        rw [UInt64.toNat_div, UInt64.toNat_div, show (4 : UInt64).toNat = 4 from rfl]
        omega
      rw [if_pos rare]
      exact Nat.lt_of_lt_of_le narrow (by cases k <;> decide)
    · have wide : (w / 4).toNat < 2 ^ 62 := by
        rw [UInt64.toNat_div, show (4 : UInt64).toNat = 4 from rfl]
        omega
      have common : k = .pair ∨ k = .actor ∨ k = .number := by
        obtain low | low | low | low := quarter_cases w <;> simp_all [kind?]
      rw [if_neg rare]
      obtain rfl | rfl | rfl := common <;> exact wide
  case threeLow =>
    simp only [field, fieldBits]
    rw [UInt64.toNat_div, show (8 : UInt64).toNat = 8 from rfl]
    omega
  case oneLowTwoHigh =>
    simp only [field, fieldBits]
    rw [UInt64.toNat_div, UInt64.toNat_mod, show lowSpan.toNat = 2 ^ 62 from rfl,
      show (2 : UInt64).toNat = 2 from rfl]
    omega

/-- A word is made up of its kind and its field. -/
theorem join_field (told : L.kind? w = some k) : L.join k (L.field w) = w := by
  unfold kind? at told
  cases L
  case twoLow =>
    dsimp only at told
    obtain low | low | low | low := quarter_cases w
    -- only the last digit leaves the kind to the next one
    case inr.inr.inr =>
      have outer := stack_of_mod low
      obtain next | next | next | next := quarter_cases (w / 4)
      all_goals
        simp [low, next] at told
        subst told
        simp [field, low, join, stack_of_mod next, outer]
    all_goals
      simp [low] at told
      subst told
      simp [field, low, join, stack_of_mod low]
  case threeLow =>
    dsimp only at told
    repeat' split at told
    all_goals cases told
    all_goals exact stack_of_mod ‹_›
  case oneLowTwoHigh =>
    dsimp only at told
    obtain low | low := half_cases (w % lowSpan)
    all_goals
      have inner := stack_of_mod low
      obtain high | high | high | high := high_cases w
      all_goals simp [low, high] at told
      all_goals
        subst told
        simp [field, join, inner, stack_of_div high]

end Layout

namespace Value

/-- Whether a layout has room for a value. -/
def Fits (L : Layout) : Value → Prop
  | pair i | actor i => i ≤ Ref.maxCell L
  | func i => i ≤ Ref.maxPayload L
  | object p => p.toNat ≤ Ref.maxPayload L
  | number n => Ref.minNumber L ≤ n ∧ n ≤ Ref.maxNumber L
  | atom _ | bool _ => True

/-! What the access to a payload comes to, by the value alone. -/

def cell : Value → Except Fault Nat
  | pair i | actor i => .ok i
  | v => .error (.notCell v)

def asNumber : Value → Except Fault Int
  | number n => .ok n
  | v => .error (.wrongKind v .number)

def asAtom : Value → Except Fault UInt32
  | atom id => .ok id
  | v => .error (.wrongKind v .atom)

def asFunc : Value → Except Fault Nat
  | func i => .ok i
  | v => .error (.wrongKind v .func)

def asBool : Value → Except Fault Bool
  | bool b => .ok b
  | v => .error (.wrongKind v .bool)

def asObject : Value → Except Fault UInt64
  | object p => .ok p
  | v => .error (.wrongKind v .object)

end Value

namespace Ref
variable {L : Layout} {r s : Ref L} {v u : Value}

/-! ### Reading -/

theorem kind?_word (r : Ref L) : L.kind? r.word = some r.kind := (Option.some_get _).symm

theorem kind_value (r : Ref L) : r.value.kind = r.kind := by
  unfold value
  cases r.kind <;> rfl

theorem cell_eq (r : Ref L) : r.cell = r.value.cell := by
  unfold cell value
  cases r.kind <;> rfl

theorem asNumber_eq (r : Ref L) : r.asNumber = r.value.asNumber := by
  unfold asNumber expect value
  cases r.kind <;> rfl

theorem asAtom_eq (r : Ref L) : r.asAtom = r.value.asAtom := by
  unfold asAtom expect value
  cases r.kind <;> rfl

theorem asFunc_eq (r : Ref L) : r.asFunc = r.value.asFunc := by
  unfold asFunc expect value
  cases r.kind <;> rfl

theorem asBool_eq (r : Ref L) : r.asBool = r.value.asBool := by
  unfold asBool expect value
  cases r.kind <;> rfl

theorem asObject_eq (r : Ref L) : r.asObject = r.value.asObject := by
  unfold asObject expect value
  cases r.kind <;> rfl

/-! ### Writing -/

theorem field_lt (r : Ref L) : r.field.toNat < 2 ^ L.fieldBits r.kind :=
  Layout.field_lt r.kind?_word

theorem make_eq {k : Kind} {f : UInt64} (fits : f.toNat < 2 ^ L.fieldBits k)
    (atomFits : k = .atom → f < 0x100000000) (boolFits : k = .bool → f < 2)
    (sameKind : r.kind = k) (sameField : r.field = f) : make k f fits atomFits boolFits = r := by
  subst sameKind sameField
  exact ext (Layout.join_field r.kind?_word)

theorem atom_field_small (isAtom : r.kind = .atom) : r.field.toNat < 2 ^ 32 := by
  have valid := r.valid
  simp only [Layout.isWord, kind?_word, isAtom, decide_eq_true_eq] at valid
  simpa [UInt64.lt_iff_toNat_lt, field] using valid

theorem bool_field_small (isBool : r.kind = .bool) : r.field = 0 ∨ r.field = 1 := by
  have valid := r.valid
  simp only [Layout.isWord, kind?_word, isBool, decide_eq_true_eq] at valid
  have small : r.field.toNat < 2 := by
    simpa [UInt64.lt_iff_toNat_lt, field] using valid
  simp only [← UInt64.toNat_inj, UInt64.reduceToNat]
  omega

theorem number_bounds (L : Layout) (f : UInt64) (fits : f.toNat < 2 ^ L.fieldBits .number) :
    minNumber L ≤ numberOfField L f ∧ numberOfField L f ≤ maxNumber L ∧
      (numberOfField L f % 2 ^ L.fieldBits .number).toNat = f.toNat := by
  cases L <;> simp only [minNumber, maxNumber, numberOfField, Layout.fieldBits, Int.bmod] at fits ⊢ <;>
    omega

/-- Every reference is the one that is written for its value. -/
theorem ofValue_value (r : Ref L) : ofValue r.value = .ok r := by
  have fits := r.field_lt
  unfold value
  cases told : r.kind with
  | pair | func | actor =>
    rw [told] at fits
    simp only [ofValue, pair, func, actor, dif_pos fits, Except.ok.injEq]
    exact make_eq _ _ _ told (by simp)
  | atom =>
    have small := atom_field_small told
    simp only [ofValue, atom, Except.ok.injEq]
    refine make_eq _ _ _ told (UInt64.toNat_inj.mp ?_)
    simp
    omega
  | number =>
    rw [told] at fits
    obtain ⟨least, most, back⟩ := number_bounds L r.field fits
    simp only [ofValue, number, number?, least, most, and_self, if_true, Except.ok.injEq]
    exact make_eq _ _ _ told (by simp [back])
  | bool =>
    simp only [ofValue, bool, Except.ok.injEq]
    refine make_eq _ _ _ told ?_
    obtain zero | one := bool_field_small told
    · simp [zero]
    · simp [one]
  | object =>
    rw [told] at fits
    simp only [ofValue, object, dif_pos fits, Except.ok.injEq]
    exact make_eq _ _ _ told rfl

theorem value_inj : r.value = s.value ↔ r = s := by
  constructor
  · intro same
    have written := r.ofValue_value
    rw [same, ofValue_value] at written
    exact (Except.ok.inj written).symm
  · intro same
    rw [same]

theorem number_back {n : Int} (least : minNumber L ≤ n) (most : n ≤ maxNumber L) :
    numberOfField L (UInt64.ofNat (n % 2 ^ L.fieldBits .number).toNat) = n := by
  rw [numberOfField, toNat_ofNat_of_fits (number_field_lt L n)]
  cases L <;> simp only [minNumber, maxNumber, Layout.fieldBits, Int.bmod] at least most ⊢ <;> omega

theorem number?_eq_none_iff {n : Int} :
    (number? n : Option (Ref L)) = none ↔ n < minNumber L ∨ maxNumber L < n := by
  unfold number?
  split <;> simp <;> omega

theorem lt_iff_le_pred (n b : Nat) : n < 2 ^ b ↔ n ≤ 2 ^ b - 1 := by
  have := Nat.two_pow_pos b
  omega

/-- A reference is written for a value exactly when the layout has room for it. -/
theorem exists_ofValue_iff : (∃ r : Ref L, ofValue v = .ok r) ↔ v.Fits L := by
  have actors : L.fieldBits .actor = L.fieldBits .pair := by cases L <;> rfl
  have funcs : L.fieldBits .func = L.fieldBits .object := by cases L <;> rfl
  cases v with
  | pair i | func i | actor i | object i =>
    simp only [ofValue, pair, func, actor, object, Value.Fits, maxCell, maxPayload, ← lt_iff_le_pred,
      actors, funcs]
    split <;> simp [*]
  | number n =>
    simp only [ofValue, number, number?, Value.Fits]
    split <;> simp_all
  | atom id => exact iff_of_true ⟨_, rfl⟩ trivial
  | bool b => exact iff_of_true ⟨_, rfl⟩ trivial

/-- What is read from a reference is what it was written for. -/
theorem value_of_ofValue (written : ofValue v = .ok r) : r.value = v := by
  cases v with
  | pair i | func i | actor i =>
    simp only [ofValue, pair, func, actor] at written
    split at written
    · rename_i fits
      cases written
      simp [value, kind_make, field_make, toNat_ofNat_of_fits fits]
    · cases written
  | object p =>
    simp only [ofValue, object] at written
    split at written
    · cases written
      simp [value, kind_make, field_make]
    · cases written
  | number n =>
    simp only [ofValue, number, number?] at written
    by_cases fits : minNumber L ≤ n ∧ n ≤ maxNumber L
    · simp only [if_pos fits] at written
      cases written
      simp [value, kind_make, field_make, number_back fits.1 fits.2]
    · simp only [if_neg fits] at written
      cases written
  | atom id =>
    cases written
    simp [atom, value, kind_make, field_make]
  | bool b =>
    cases written
    cases b <;> simp [bool, value, kind_make, field_make]

theorem pair_zero : pair 0 = .ok (nil : Ref L) :=
  dif_pos (Nat.two_pow_pos _)

theorem nil_value : (nil : Ref L).value = .nil :=
  value_of_ofValue (v := .nil) pair_zero

/-! ### The codec -/

/-- What a layout grants for the values that it has room for. -/
structure Codec (L : Layout) : Prop where
  room : ∀ v : Value, (∃ r : Ref L, ofValue v = .ok r) ↔ v.Fits L
  told : ∀ {v : Value} {r : Ref L}, ofValue v = .ok r → L.kind? r.word = some v.kind ∧ r.kind = v.kind
  decoded : ∀ {v : Value} {r : Ref L}, ofValue v = .ok r → r.value = v
  /-- Each access answers with the payload or, for other kinds, with the fault. -/
  payload : ∀ {v : Value} {r : Ref L}, ofValue v = .ok r →
    r.cell = v.cell ∧ r.asNumber = v.asNumber ∧ r.asAtom = v.asAtom ∧ r.asFunc = v.asFunc ∧
      r.asBool = v.asBool ∧ r.asObject = v.asObject
  numbers : ∀ n : Int, (number? n : Option (Ref L)) = none ↔ n < minNumber L ∨ maxNumber L < n
  apart : ∀ {v u : Value} {r s : Ref L}, ofValue v = .ok r → ofValue u = .ok s →
    (r.word = s.word ↔ v = u)
  rebuilt : ∀ {v : Value} {r : Ref L}, ofValue v = .ok r → ofValue r.value = .ok r
  nil_word : (nil : Ref L).word = 0
  only_nil : ∀ {v : Value} {r : Ref L}, ofValue v = .ok r → (r.word = 0 ↔ v = .pair 0)

theorem codec (L : Layout) : Codec L where
  room _ := exists_ofValue_iff
  told {v r} written := by
    have decoded := value_of_ofValue written
    rw [kind?_word, ← kind_value, decoded]
    exact ⟨rfl, rfl⟩
  decoded := value_of_ofValue
  payload {v r} written := by
    have decoded := value_of_ofValue written
    rw [cell_eq, asNumber_eq, asAtom_eq, asFunc_eq, asBool_eq, asObject_eq, decoded]
    exact ⟨rfl, rfl, rfl, rfl, rfl, rfl⟩
  numbers _ := number?_eq_none_iff
  apart {v u r s} written wrote := by
    rw [← value_of_ofValue written, ← value_of_ofValue wrote, value_inj]
    exact ⟨ext, congrArg word⟩
  rebuilt {v r} _ := r.ofValue_value
  nil_word := nil_word
  only_nil {v r} written := by
    rw [← nil_word (L := L), ← value_of_ofValue written, show Value.pair 0 = .nil from rfl,
      ← nil_value (L := L), value_inj]
    exact ⟨ext, congrArg word⟩

example : maxCell .twoLow = 2 ^ 62 - 1 ∧ maxPayload .twoLow = 2 ^ 60 - 1 ∧
    minNumber .twoLow = -2 ^ 61 ∧ maxNumber .twoLow = 2 ^ 61 - 1 := by
  decide

end Ref

end Treadmill

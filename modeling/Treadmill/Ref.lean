import Treadmill.Fault

/-!
# References

A reference is a word that stands for a value in a given layout. Two references are equal exactly
when they are the same word.
-/

namespace Treadmill

/-- A word that stands for a value in the layout `L`. -/
structure Ref (L : Layout) where
  word : UInt64
  valid : L.isWord word = true

namespace Ref
variable {L : Layout}

theorem ext {a b : Ref L} (h : a.word = b.word) : a = b := by
  cases a; cases b; subst h; rfl

instance : DecidableEq (Ref L) := fun a b =>
  if h : a.word = b.word then .isTrue (ext h) else .isFalse fun e => h (e ▸ rfl)

/-! ### Reading -/

def kind (r : Ref L) : Kind :=
  (L.kind? r.word).get (Layout.isSome_of_isWord r.valid)

def field (r : Ref L) : UInt64 :=
  L.field r.word

/-- The number that a field holds in two's complement. -/
def numberOfField (L : Layout) (f : UInt64) : Int :=
  Int.bmod f.toNat (2 ^ L.fieldBits .number)

def value (r : Ref L) : Value :=
  match r.kind with
  | .pair => .pair r.field.toNat
  | .atom => .atom r.field.toUInt32
  | .func => .func r.field.toNat
  | .actor => .actor r.field.toNat
  | .number => .number (numberOfField L r.field)
  | .bool => .bool (r.field ≠ 0)
  | .object => .object r.field

/-- The reference as messages write it. -/
def text (r : Ref L) : String :=
  r.value.text

/-! ### Writing -/

/-- The reference of a kind whose field fits: `2 ^ 32` atoms, two truth values, and otherwise
whatever the layout has bits for. -/
def make (k : Kind) (f : UInt64) (fits : f.toNat < 2 ^ L.fieldBits k)
    (atomFits : k = .atom → f < 0x100000000) (boolFits : k = .bool → f < 2) : Ref L where
  word := L.join k f
  valid := by
    cases k <;>
      simp_all [Layout.isWord, Layout.kind?_join fits, Layout.field_join fits]

theorem kind_make {k : Kind} {f : UInt64} (fits : f.toNat < 2 ^ L.fieldBits k)
    (atomFits : k = .atom → f < 0x100000000) (boolFits : k = .bool → f < 2) :
    (make k f fits atomFits boolFits : Ref L).kind = k := by
  simp [kind, make, Layout.kind?_join fits]

theorem field_make {k : Kind} {f : UInt64} (fits : f.toNat < 2 ^ L.fieldBits k)
    (atomFits : k = .atom → f < 0x100000000) (boolFits : k = .bool → f < 2) :
    (make k f fits atomFits boolFits : Ref L).field = f :=
  Layout.field_join fits

/-- The empty list. -/
def nil : Ref L :=
  make .pair 0 (Nat.two_pow_pos _) (by decide) (by decide)

instance : Inhabited (Ref L) := ⟨nil⟩

theorem nil_word : (nil : Ref L).word = 0 := by
  cases L <;> rfl

theorem bool_field_lt (L : Layout) (b : Bool) :
    (cond b (1 : UInt64) 0).toNat < 2 ^ L.fieldBits .bool := by
  cases L <;> cases b <;> decide

def bool (b : Bool) : Ref L :=
  make .bool (cond b 1 0) (bool_field_lt L b) (by simp) (by cases b <;> decide)

theorem atom_field_lt (L : Layout) (id : UInt32) :
    id.toUInt64.toNat < 2 ^ L.fieldBits .atom := by
  have := id.toNat_lt
  cases L <;> simp [Layout.fieldBits] <;> omega

def atom (id : UInt32) : Ref L :=
  make .atom id.toUInt64 (atom_field_lt L id)
    (fun _ => by have := id.toNat_lt; simpa [UInt64.lt_iff_toNat_lt] using this) (by simp)

/-- The greatest cell index that a pair or an actor carries. -/
def maxCell (L : Layout) : Nat := 2 ^ L.fieldBits .pair - 1

/-- The greatest payload of an atom, a function or an object. -/
def maxPayload (L : Layout) : Nat := 2 ^ L.fieldBits .object - 1

def minNumber (L : Layout) : Int := -2 ^ (L.fieldBits .number - 1)

def maxNumber (L : Layout) : Int := 2 ^ (L.fieldBits .number - 1) - 1

theorem ofNat_field_lt {L : Layout} {k : Kind} {n : Nat} (h : n < 2 ^ L.fieldBits k) :
    (UInt64.ofNat n).toNat < 2 ^ L.fieldBits k := by
  have := Nat.mod_le n (2 ^ 64)
  rw [UInt64.toNat_ofNat']
  omega

def pair (i : Nat) : Except Fault (Ref L) :=
  if h : i < 2 ^ L.fieldBits .pair then
    .ok (make .pair (UInt64.ofNat i) (ofNat_field_lt h) (by simp) (by simp))
  else .error (.cellRange i)

def actor (i : Nat) : Except Fault (Ref L) :=
  if h : i < 2 ^ L.fieldBits .actor then
    .ok (make .actor (UInt64.ofNat i) (ofNat_field_lt h) (by simp) (by simp))
  else .error (.cellRange i)

def func (i : Nat) : Except Fault (Ref L) :=
  if h : i < 2 ^ L.fieldBits .func then
    .ok (make .func (UInt64.ofNat i) (ofNat_field_lt h) (by simp) (by simp))
  else .error (.funcRange i)

def object (p : UInt64) : Except Fault (Ref L) :=
  if h : p.toNat < 2 ^ L.fieldBits .object then
    .ok (make .object p h (by simp) (by simp))
  else .error (.objectRange p)

theorem number_field_lt (L : Layout) (n : Int) :
    (n % 2 ^ L.fieldBits .number).toNat < 2 ^ L.fieldBits .number := by
  cases L <;> simp only [Layout.fieldBits] <;> omega

/-- The reference of a number, if the layout has room for it. -/
def number? (n : Int) : Option (Ref L) :=
  if minNumber L ≤ n ∧ n ≤ maxNumber L then
    some (make .number (UInt64.ofNat (n % 2 ^ L.fieldBits .number).toNat)
      (ofNat_field_lt (number_field_lt L n)) (by simp) (by simp))
  else none

def number (n : Int) : Except Fault (Ref L) :=
  match number? n with
  | some r => .ok r
  | none => .error (.numberRange n L)

/-- The reference of a value, if the layout has room for it. -/
def ofValue : Value → Except Fault (Ref L)
  | .pair i => pair i
  | .atom id => .ok (atom id)
  | .func i => func i
  | .actor i => actor i
  | .number n => number n
  | .bool b => .ok (bool b)
  | .object p => object p

/-! ### Kinds -/

def isNil (r : Ref L) : Bool := r.word = 0

theorem isNil_iff {r : Ref L} : r.isNil = true ↔ r = nil := by
  simp only [isNil, decide_eq_true_eq]
  exact ⟨fun h => ext (h.trans nil_word.symm), fun h => h ▸ nil_word⟩

def isPair (r : Ref L) : Bool := r.kind = .pair

def isActor (r : Ref L) : Bool := r.kind = .actor

def isAtom (r : Ref L) : Bool := r.kind = .atom

def isFunc (r : Ref L) : Bool := r.kind = .func

def isNumber (r : Ref L) : Bool := r.kind = .number

/-- A pair other than the empty list. -/
def isCons (r : Ref L) : Bool := r.isPair && !r.isNil

/-! ### Payloads

Each of these answers only for references of its own kind. -/

def expect (r : Ref L) (k : Kind) : Except Fault Unit :=
  if r.kind = k then .ok () else .error (.wrongKind r.value k)

def asNumber (r : Ref L) : Except Fault Int := do
  r.expect .number
  return numberOfField L r.field

def asAtom (r : Ref L) : Except Fault UInt32 := do
  r.expect .atom
  return r.field.toUInt32

def asFunc (r : Ref L) : Except Fault Nat := do
  r.expect .func
  return r.field.toNat

def asBool (r : Ref L) : Except Fault Bool := do
  r.expect .bool
  return r.field ≠ 0

def asObject (r : Ref L) : Except Fault UInt64 := do
  r.expect .object
  return r.field

/-- The cell that a pair or an actor names. -/
def cell (r : Ref L) : Except Fault Nat :=
  match r.kind with
  | .pair | .actor => .ok r.field.toNat
  | _ => .error (.notCell r.value)

end Ref

end Treadmill

import Treadmill.Power

/-!
# Tagged words

A value fits in one 64-bit word: a few bits tell its kind and the others hold a payload field.
A `Layout` fixes where those bits are. `kind?_join` and `field_join` say that what `join` puts
into a word is read back by `kind?` and `field`.
-/

namespace Treadmill

/-- The kinds of value that a word may hold. -/
inductive Kind
  | pair
  | atom
  | func
  | actor
  | number
  | bool
  | object
deriving DecidableEq

namespace Kind

def name : Kind → String
  | pair => "Pair"
  | atom => "Atom"
  | func => "Func"
  | actor => "Actor"
  | number => "Number"
  | bool => "Bool"
  | object => "Object"

end Kind

/-- Where a word keeps its kind: in the two low bits, extended to four for the rarer kinds; in the
three low bits; or in the lowest bit and the two highest. -/
inductive Layout
  | twoLow
  | threeLow
  | oneLowTwoHigh
deriving DecidableEq

namespace Layout

def name : Layout → String
  | twoLow => "2lsb"
  | threeLow => "3lsb"
  | oneLowTwoHigh => "1lsb-2msb"

/-- How many bits the payload field of a kind has. -/
def fieldBits : Layout → Kind → Nat
  | twoLow, .pair | twoLow, .actor | twoLow, .number => 62
  | twoLow, _ => 60
  | threeLow, _ | oneLowTwoHigh, _ => 61

/-- The digit `c` of base `m` with `f` above it. -/
def stack (m f c : UInt64) : UInt64 := m * f + c

theorem toNat_stack {m f c : UInt64} (h : m.toNat * f.toNat + c.toNat < 2 ^ 64) :
    (stack m f c).toNat = m.toNat * f.toNat + c.toNat := by
  rw [stack, UInt64.toNat_add, UInt64.toNat_mul]
  rw [Nat.mod_eq_of_lt (a := m.toNat * f.toNat) (by omega), Nat.mod_eq_of_lt h]

theorem stack_mod {m f c : UInt64} (h : m.toNat * f.toNat + c.toNat < 2 ^ 64)
    (small : c.toNat < m.toNat) : stack m f c % m = c := by
  rw [← UInt64.toNat_inj, UInt64.toNat_mod, toNat_stack h, Nat.mul_add_mod,
    Nat.mod_eq_of_lt small]

theorem stack_div {m f c : UInt64} (h : m.toNat * f.toNat + c.toNat < 2 ^ 64)
    (small : c.toNat < m.toNat) : stack m f c / m = f := by
  rw [← UInt64.toNat_inj, UInt64.toNat_div, toNat_stack h, Nat.mul_add_div (by omega),
    Nat.div_eq_of_lt small, Nat.add_zero]

/-- The values of the part of a word below its two highest bits. -/
abbrev lowSpan : UInt64 := 0x4000000000000000

/-- The word of a kind and a payload field that fits `fieldBits`. -/
def join : Layout → Kind → UInt64 → UInt64
  | twoLow, .pair, f => stack 4 f 0
  | twoLow, .actor, f => stack 4 f 1
  | twoLow, .number, f => stack 4 f 3
  | twoLow, .atom, f => stack 4 (stack 4 f 0) 2
  | twoLow, .func, f => stack 4 (stack 4 f 1) 2
  | twoLow, .object, f => stack 4 (stack 4 f 2) 2
  | twoLow, .bool, f => stack 4 (stack 4 f 3) 2
  | threeLow, .pair, f => stack 8 f 0
  | threeLow, .number, f => stack 8 f 1
  | threeLow, .atom, f => stack 8 f 2
  | threeLow, .func, f => stack 8 f 3
  | threeLow, .actor, f => stack 8 f 4
  | threeLow, .object, f => stack 8 f 5
  | threeLow, .bool, f => stack 8 f 6
  | oneLowTwoHigh, .pair, f => stack lowSpan 0 (stack 2 f 0)
  | oneLowTwoHigh, .atom, f => stack lowSpan 1 (stack 2 f 0)
  | oneLowTwoHigh, .object, f => stack lowSpan 2 (stack 2 f 0)
  | oneLowTwoHigh, .actor, f => stack lowSpan 3 (stack 2 f 0)
  | oneLowTwoHigh, .number, f => stack lowSpan 0 (stack 2 f 1)
  | oneLowTwoHigh, .func, f => stack lowSpan 1 (stack 2 f 1)
  | oneLowTwoHigh, .bool, f => stack lowSpan 2 (stack 2 f 1)

/-- The kind that a word tells, unless its bits are no kind's. -/
def kind? (L : Layout) (w : UInt64) : Option Kind :=
  match L with
  | twoLow =>
    if w % 4 = 0 then some .pair
    else if w % 4 = 1 then some .actor
    else if w % 4 = 3 then some .number
    else if w / 4 % 4 = 0 then some .atom
    else if w / 4 % 4 = 1 then some .func
    else if w / 4 % 4 = 2 then some .object
    else some .bool
  | threeLow =>
    if w % 8 = 0 then some .pair
    else if w % 8 = 1 then some .number
    else if w % 8 = 2 then some .atom
    else if w % 8 = 3 then some .func
    else if w % 8 = 4 then some .actor
    else if w % 8 = 5 then some .object
    else if w % 8 = 6 then some .bool
    else none
  | oneLowTwoHigh =>
    if w % lowSpan % 2 = 0 then
      if w / lowSpan = 0 then some .pair
      else if w / lowSpan = 1 then some .atom
      else if w / lowSpan = 2 then some .object
      else some .actor
    else
      if w / lowSpan = 0 then some .number
      else if w / lowSpan = 1 then some .func
      else if w / lowSpan = 2 then some .bool
      else none

/-- The payload field of a word. -/
def field (L : Layout) (w : UInt64) : UInt64 :=
  match L with
  | twoLow => if w % 4 = 2 then w / 4 / 4 else w / 4
  | threeLow => w / 8
  | oneLowTwoHigh => w % lowSpan / 2

section
variable {f c d : UInt64}

theorem quarter_mod (h : f.toNat < 2 ^ 62) (hc : c.toNat < 4) : stack 4 f c % 4 = c :=
  stack_mod (by rw [show (4 : UInt64).toNat = 4 from rfl]; omega) hc

theorem quarter_div (h : f.toNat < 2 ^ 62) (hc : c.toNat < 4) : stack 4 f c / 4 = f :=
  stack_div (by rw [show (4 : UInt64).toNat = 4 from rfl]; omega) hc

theorem quarter_lt (h : f.toNat < 2 ^ 60) (hc : c.toNat < 4) : (stack 4 f c).toNat < 2 ^ 62 := by
  rw [toNat_stack] <;> rw [show (4 : UInt64).toNat = 4 from rfl] <;> omega

theorem eighth_mod (h : f.toNat < 2 ^ 61) (hc : c.toNat < 8) : stack 8 f c % 8 = c :=
  stack_mod (by rw [show (8 : UInt64).toNat = 8 from rfl]; omega) hc

theorem eighth_div (h : f.toNat < 2 ^ 61) (hc : c.toNat < 8) : stack 8 f c / 8 = f :=
  stack_div (by rw [show (8 : UInt64).toNat = 8 from rfl]; omega) hc

theorem half_toNat (h : f.toNat < 2 ^ 61) (hc : c.toNat < 2) :
    (stack 2 f c).toNat = 2 * f.toNat + c.toNat :=
  toNat_stack (by rw [show (2 : UInt64).toNat = 2 from rfl]; omega)

theorem half_mod (h : f.toNat < 2 ^ 61) (hc : c.toNat < 2) : stack 2 f c % 2 = c :=
  stack_mod (by rw [show (2 : UInt64).toNat = 2 from rfl]; omega) hc

theorem half_div (h : f.toNat < 2 ^ 61) (hc : c.toNat < 2) : stack 2 f c / 2 = f :=
  stack_div (by rw [show (2 : UInt64).toNat = 2 from rfl]; omega) hc

theorem high_mod (h : f.toNat < 2 ^ 61) (hc : c.toNat < 2) (hd : d.toNat < 4) :
    stack lowSpan d (stack 2 f c) % lowSpan = stack 2 f c := by
  have := half_toNat h hc
  refine stack_mod ?_ ?_ <;> rw [show lowSpan.toNat = 2 ^ 62 from rfl] <;> omega

theorem high_div (h : f.toNat < 2 ^ 61) (hc : c.toNat < 2) (hd : d.toNat < 4) :
    stack lowSpan d (stack 2 f c) / lowSpan = d := by
  have := half_toNat h hc
  refine stack_div ?_ ?_ <;> rw [show lowSpan.toNat = 2 ^ 62 from rfl] <;> omega

end

theorem kind?_join {L : Layout} {k : Kind} {f : UInt64} (h : f.toNat < 2 ^ L.fieldBits k) :
    L.kind? (L.join k f) = some k := by
  cases L
  case twoLow =>
    have wide : f.toNat < 2 ^ 62 := Nat.lt_of_lt_of_le h (by cases k <;> decide)
    cases k
    case pair | actor | number => simp [kind?, join, quarter_mod wide]
    all_goals simp [kind?, join, quarter_mod wide, quarter_mod (quarter_lt h _),
      quarter_div (quarter_lt h _)]
  case threeLow => cases k <;> simp [kind?, join, eighth_mod h]
  case oneLowTwoHigh =>
    cases k <;> simp [kind?, join, half_mod h, high_mod h, high_div h]

theorem field_join {L : Layout} {k : Kind} {f : UInt64} (h : f.toNat < 2 ^ L.fieldBits k) :
    L.field (L.join k f) = f := by
  cases L
  case twoLow =>
    have wide : f.toNat < 2 ^ 62 := Nat.lt_of_lt_of_le h (by cases k <;> decide)
    cases k
    case pair | actor | number => simp [field, join, quarter_mod wide, quarter_div wide]
    all_goals simp [field, join, quarter_div wide, quarter_mod (quarter_lt h _),
      quarter_div (quarter_lt h _)]
  case threeLow => cases k <;> simp [field, join, eighth_div h]
  case oneLowTwoHigh => cases k <;> simp [field, join, half_div h, high_mod h]

/-- The words that stand for a value: the bits are some kind's, atoms are numbered in 32 bits, and
the two truth values are 0 and 1. -/
def isWord (L : Layout) (w : UInt64) : Bool :=
  match L.kind? w with
  | none => false
  | some .atom => L.field w < 0x100000000
  | some .bool => L.field w < 2
  | some _ => true

theorem isSome_of_isWord {L : Layout} {w : UInt64} (h : L.isWord w) : (L.kind? w).isSome := by
  unfold isWord at h
  split at h <;> simp_all

end Layout

end Treadmill

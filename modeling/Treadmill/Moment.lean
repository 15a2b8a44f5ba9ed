import Treadmill.Fault

/-!
# Moments

World time, in seconds and microseconds since a world began. Both fields are kept in 64-bit signed
registers, so a sum that leaves that range is a fault.
-/

namespace Treadmill

/-- A point in world time. A moment is in normal form when `us` lies between 0 and 999999. -/
structure Moment where
  s : Int
  us : Int
deriving DecidableEq

/-- Microseconds in a second. -/
def secondUs : Int := 1000000

/-- The sum of two numbers, which must lie in the range of a 64-bit signed register. -/
def addSigned (a b : Int) : Except Fault Int :=
  if -2 ^ 63 ≤ a + b ∧ a + b < 2 ^ 63 then .ok (a + b) else .error .addOverflow

namespace Moment

def zero : Moment := ⟨0, 0⟩

/-- The moment in normal form: whole seconds are carried out of `us`. -/
def normal (s us : Int) : Except Fault Moment := do
  return ⟨← addSigned s (us / secondUs), us % secondUs⟩

/-- The moment so many microseconds later, or earlier when `delta` is negative. -/
def shift (t : Moment) (delta : Int) : Except Fault Moment := do
  normal t.s (← addSigned t.us delta)

/-- The moment at which a clock that counts nanoseconds from the beginning shows `ns`. -/
def ofNanos (ns : Nat) : Moment :=
  ⟨ns / 1000000000, ns % 1000000000 / 1000⟩

/-- Moments are ordered by their seconds, then by their microseconds. -/
def cmp (a b : Moment) : Ordering :=
  (compare a.s b.s).then (compare a.us b.us)

instance : LT Moment := ⟨fun a b => a.cmp b = .lt⟩

instance (a b : Moment) : Decidable (a < b) :=
  inferInstanceAs (Decidable (a.cmp b = .lt))

/-- A number in at least `width` columns, filled with zeros after the sign. -/
def padded (width : Nat) (n : Int) : String :=
  let sign := if n < 0 then "-" else ""
  let digits := toString n.natAbs
  sign ++ "".pushn '0' (width - sign.length - digits.length) ++ digits

def text (t : Moment) : String :=
  toString t.s ++ "." ++ padded 6 t.us

end Moment

end Treadmill

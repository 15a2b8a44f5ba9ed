/-!
# Marks

Every cell of a heap carries a mark, in two bits.
-/

namespace Treadmill

/-- What the collector has written on a cell: `z` on cell 0, the ring heads and cells never used,
`x` on permanent cells, and one of two alternating phases on all others. -/
inductive Mark
  | z
  | x
  | p0
  | p1
deriving DecidableEq

namespace Mark

/-- The two bits that stand for a mark. -/
def bits : Mark → UInt64
  | z => 0
  | x => 1
  | p0 => 2
  | p1 => 3

def ofBits (b : UInt64) : Mark :=
  if b = 0 then z else if b = 1 then x else if b = 2 then p0 else p1

theorem ofBits_bits (m : Mark) : ofBits m.bits = m := by
  cases m <;> rfl

/-- The other phase; every mark that is not `p0` gives way to `p0`. -/
def flip : Mark → Mark
  | p0 => p1
  | _ => p0

def name : Mark → String
  | z => "Z"
  | x => "X"
  | p0 => "P0"
  | p1 => "P1"

end Mark

end Treadmill

import Treadmill.Data.List

/-!
# Structural equality

Pairs are equal when their slots are; everything else only when it is the same word. So two actors
are never equal, however alike.
-/

namespace Treadmill

namespace Data
open Heap
variable {L : Layout}

def equalFrom : Nat → Ref L → Ref L → HeapTask L Bool
  | 0, _, _ => throw .endless
  | n + 1, x, y =>
    if x = y then return true
    else if !(x.isCons && y.isCons) then return false
    else do
      let a ← first x
      let b ← first y
      if ← equalFrom n a b then
        let c ← rest x
        let d ← rest y
        equalFrom n c d
      else return false

def equal (x y : Ref L) : HeapTask L Bool := do
  equalFrom (← walkLimit) x y

end Data

end Treadmill

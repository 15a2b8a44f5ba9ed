import Treadmill.Heap.Access

/-!
# Lists of cells

A proper list is a chain of rest slots that ends in the empty list; its items stand in the first
slots.
-/

namespace Treadmill

namespace Data
open Heap
variable {L : Layout}

/-- The items from `p` on, in front of those in `seen`, which stand in reverse. -/
def itemsFrom : Nat → Ref L → List (Ref L) → HeapTask L (List (Ref L))
  | 0, _, _ => throw .endless
  | n + 1, p, seen =>
    if p.isNil then return seen.reverse
    else do
      let a ← first p
      itemsFrom n (← rest p) (a :: seen)

/-- The items of a proper list. -/
def items (list : Ref L) : HeapTask L (List (Ref L)) := do
  itemsFrom (← walkLimit) list []

/-- A copy of the list `x` in front of `y`. -/
def append (x y : Ref L) : HeapTask L (Ref L) := do
  Task.require x.isPair (.misuse .append x.value)
  consAll (← items x) y

/-- Moves the items from `p` on to the front of `made`, one after the other. -/
def reverseFrom : Nat → Ref L → Ref L → HeapTask L (Ref L)
  | 0, _, _ => throw .endless
  | n + 1, p, made =>
    if p.isNil then return made
    else do
      let made ← cons (← first p) made
      reverseFrom n (← rest p) made

/-- A new list of the same items in reverse. -/
def reverse (list : Ref L) : HeapTask L (Ref L) := do
  reverseFrom (← walkLimit) list .nil

def lengthFrom : Nat → Ref L → Nat → HeapTask L Nat
  | 0, _, _ => throw .endless
  | n + 1, p, count =>
    if p.isNil then return count
    else do lengthFrom n (← rest p) (count + 1)

def length (list : Ref L) : HeapTask L Nat := do
  lengthFrom (← walkLimit) list 0

end Data

end Treadmill

import Treadmill.Data.Map

/-!
# Substitution

`replace` rebuilds a structure with every part that a map binds replaced by its value. Values are
not searched again.
-/

namespace Treadmill

namespace Data
open Heap
variable {L : Layout}

/-- Rebuilds from `p` on; `made` holds the rebuilt items in front of `p`, the latest first. -/
def replaceFrom (map : Ref L) : Nat → Ref L → List (Ref L) → HeapTask L (Ref L)
  | 0, _, _ => throw .endless
  | n + 1, p, made =>
    if p.isNil then close .nil made
    else do
      let binding ← mapFind map p
      if !binding.isNil then close (← rest binding) made
      else if !p.isPair then close p made
      else
        let a ← replaceFrom map n (← first p) []
        replaceFrom map n (← rest p) (a :: made)
where
  close (tail : Ref L) (made : List (Ref L)) : HeapTask L (Ref L) :=
    made.foldlM (fun d a => cons a d) tail

/-- A copy of `form` in which each part that is a key of `map` is replaced by its value. -/
def replace (form map : Ref L) : HeapTask L (Ref L) := do
  replaceFrom map (← walkLimit) form []

end Data

end Treadmill

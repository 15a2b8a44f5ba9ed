import Treadmill.World.Basic

/-!
# The pool

Queues are made of permanent cells. One that is not needed any more is chained into the pool and
taken from there again, so messaging makes no garbage.
-/

namespace Treadmill

namespace World
variable {L : Layout} {α γ : Type}

/-- The world with one more queue cell in use. -/
def countTaken (w : World L α γ) : World L α γ :=
  let used := w.poolUsed + 1
  { w with poolUsed := used, poolMax := max w.poolMax used }

/-- Takes the first cell of the pool, `p`. -/
def reuse (p first rest : Ref L) : WorldTask L α γ (Ref L) := do
  let next ← Heap.rest p
  Task.alter fun w => { w with pool := next }
  Heap.setFirst p first
  Heap.setRest p rest
  return p

/-- A cell from the pool, or a new one when there is none. -/
def spareCell (first rest : Ref L) : WorldTask L α γ (Ref L) := do
  let p ← Task.view (·.pool)
  if p.isNil then Heap.perm first rest else reuse p first rest

/-- Takes a queue cell. -/
def take (first rest : Ref L) : WorldTask L α γ (Ref L) := do
  let p ← spareCell first rest
  Task.alter countTaken
  return p

/-- Gives a queue cell back. -/
def recycle (p : Ref L) : WorldTask L α γ Unit := do
  Heap.setFirst p .nil
  Heap.setRest p (← Task.view (·.pool))
  Task.alter fun w => { w with pool := p }
  Task.require (0 < (← Task.view (·.poolUsed))) .subtractOverflow
  Task.alter fun w => { w with poolUsed := w.poolUsed - 1 }

end World

end Treadmill

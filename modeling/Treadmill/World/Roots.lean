import Treadmill.World.Mailbox

/-!
# Roots

What a collection must keep: the registered roots and everything the queues hold.
-/

namespace Treadmill

namespace World
variable {L : Layout} {α γ : Type}

/-- Keeps a value alive across every collection. -/
def addRoot (r : Ref L) : WorldTask L α γ Unit := do
  let p ← Heap.perm r (← Task.view (·.roots))
  Task.alter fun w => { w with roots := p }

/-- The nodes of a queue from `node` on, in front of those in `seen`, which stand in reverse; each
is read by `item`. -/
def queueFrom {β : Type} (item : Ref L → WorldTask L α γ β) :
    Nat → Ref L → List β → WorldTask L α γ (List β)
  | 0, _, _ => throw .endless
  | n + 1, node, seen =>
    if node.isNil then return seen.reverse
    else do
      let x ← item node
      queueFrom item n (← Heap.rest node) (x :: seen)

def queue {β : Type} (item : Ref L → WorldTask L α γ β) (node : Ref L) :
    WorldTask L α γ (List β) := do
  let limit ← onHeap Heap.walkLimit
  queueFrom item limit node []

/-- The target and the message of an entry. -/
def entryRefs (entry : Ref L) : WorldTask L α γ (List (Ref L)) := do
  let target ← Heap.first entry
  let message ← Heap.rest entry
  return [target, message]

/-- The target and the message of the entry under delivery, if there is one. -/
def deliveringRefs : WorldTask L α γ (List (Ref L)) := do
  let entry ← Task.view (·.inDelivery)
  if entry.isNil then return [] else entryRefs entry

/-- The registered roots, the latest first, then target and message of each entry in the mailbox,
among the timers and under delivery. -/
def gatherRoots : WorldTask L α γ (List (Ref L)) := do
  let registered ← queue (fun node => Heap.first node) (← Task.view (·.roots))
  let mail ← queue (fun node => do entryRefs (← Heap.first node)) (← Task.view (·.mailFirst))
  let pending ← Task.view (·.pending)
  Task.require (mail.length = pending) (.tally .mailbox mail.length pending)
  let timed ← queue (fun node => do entryRefs (← Heap.rest (← Heap.first node)))
    (← Task.view (·.timers))
  let delayed ← Task.view (·.delayed)
  Task.require (timed.length = delayed) (.tally .timers timed.length delayed)
  let delivering ← deliveringRefs
  return registered ++ mail.flatten ++ timed.flatten ++ delivering

/-- Collects at once. -/
def forceCollect : WorldTask L α γ Unit := do
  let roots ← gatherRoots
  Heap.fullCollect roots

variable [DecidableEq α]

/-- Begins a cycle that an actor carries on, one cell for each message it gets. Does nothing and
answers `false` if a cycle is under way. -/
def startCollectFrom (roots : List (Ref L)) : WorldTask L α γ Bool := do
  if ← Task.view (·.heap.collecting) then
    Task.note .cycleRefused
    return false
  Heap.beginCollect roots
  let tracer ← createActor .trace .nil
  send tracer .nil
  return true

/-- Begins a cycle from the roots of the world. -/
def startCollect : WorldTask L α γ Bool := do
  startCollectFrom (← gatherRoots)

end World

end Treadmill

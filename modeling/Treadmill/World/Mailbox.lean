import Treadmill.World.Pool

/-!
# Mailbox and timers

Messages wait in the mailbox in the order in which they were sent, and delayed ones among the
timers in the order in which they are due.
-/

namespace Treadmill

namespace World
variable {L : Layout} {α γ : Type}

/-! ### Mailbox -/

/-- Makes `node` the first node of an empty mailbox, or links it behind the last one. -/
def linkMail (node : Ref L) : WorldTask L α γ Unit := do
  if (← Task.view (·.mailFirst)).isNil then
    Task.alter fun w => { w with mailFirst := node }
  else
    Heap.setRest (← Task.view (·.mailLast)) node

/-- Puts an entry at the end of the mailbox. -/
def enqueue (entry : Ref L) : WorldTask L α γ Unit := do
  let node ← take entry .nil
  linkMail node
  Task.alter fun w => { w with mailLast := node, pending := w.pending + 1 }

/-- Sends a message to an actor. -/
def send (target message : Ref L) : WorldTask L α γ Unit := do
  Task.require target.isActor (.misuse .send target.value)
  enqueue (← take target message)

/-- Takes the first entry out of the mailbox, which must not be empty. -/
def dequeue : WorldTask L α γ (Ref L) := do
  let node ← Task.view (·.mailFirst)
  let entry ← Heap.first node
  let next ← Heap.rest node
  Task.alter fun w =>
    { w with mailFirst := next, mailLast := if next.isNil then .nil else w.mailLast }
  recycle node
  Task.require (0 < (← Task.view (·.pending))) .subtractOverflow
  Task.alter fun w => { w with pending := w.pending - 1 }
  return entry

/-! ### Timers -/

/-- When the timer `node` is due. -/
def dueTime (node : Ref L) : WorldTask L α γ Moment := do
  let time ← Heap.first (← Heap.first node)
  let s ← Heap.first time
  let us ← Heap.rest time
  return ⟨← Task.ofExcept s.asNumber, ← Task.ofExcept us.asNumber⟩

/-- Where a timer due at `due` belongs among the timers from `node` on: behind the first answer
and in front of the second. Of two timers due at the same time the earlier one stays in front. -/
def timerPlaceFrom (due : Moment) : Nat → Ref L → Ref L → WorldTask L α γ (Ref L × Ref L)
  | 0, _, _ => throw .endless
  | n + 1, before, node =>
    if node.isNil then return (before, node)
    else do
      if due < (← dueTime node) then return (before, node)
      timerPlaceFrom due n node (← Heap.rest node)

/-- Makes `node` the first timer, or links it behind the timer `before` if there is one. -/
def linkTimer (before node : Ref L) : WorldTask L α γ Unit := do
  if before.isNil then
    Task.alter fun w => { w with timers := node }
  else
    Heap.setRest before node

/-- Sends a message to an actor once so many microseconds of world time have passed. -/
def sendAfter (delay : Int) (target message : Ref L) : WorldTask L α γ Unit := do
  Task.require target.isActor (.misuse .send target.value)
  let due ← Task.ofExcept ((← Task.view (·.now)).shift delay)
  let entry ← take target message
  let s ← Task.ofExcept (Ref.number due.s)
  let us ← Task.ofExcept (Ref.number due.us)
  let timer ← take (← take s us) entry
  let limit ← onHeap Heap.walkLimit
  let (before, after) ← timerPlaceFrom due limit .nil (← Task.view (·.timers))
  let node ← take timer after
  linkTimer before node
  Task.alter fun w => { w with delayed := w.delayed + 1 }

/-- Moves the first timer, `node`, to the end of the mailbox. -/
def fire (node : Ref L) : WorldTask L α γ Unit := do
  let timer ← Heap.first node
  let time ← Heap.first timer
  let entry ← Heap.rest timer
  let next ← Heap.rest node
  Task.alter fun w => { w with timers := next }
  Task.require (0 < (← Task.view (·.delayed))) .subtractOverflow
  Task.alter fun w => { w with delayed := w.delayed - 1 }
  enqueue entry
  recycle time
  recycle timer
  recycle node

/-- Moves timers to the mailbox, as long as the first one is due, at most `n` of them. -/
def fireDue : Nat → WorldTask L α γ Unit
  | 0 => return
  | n + 1 => do
    let node ← Task.view (·.timers)
    if node.isNil then return
    if (← Task.view (·.now)) < (← dueTime node) then return
    fire node
    fireDue n

/-- Sets the clock to a reading and moves every timer that is due to the mailbox. There are no more
of them than are on record: one more, and `fire` gives up. -/
def tick (reading : Moment) : WorldTask L α γ Unit := do
  Task.alter fun w => { w with now := reading }
  fireDue ((← Task.view (·.delayed)) + 1)

end World

end Treadmill

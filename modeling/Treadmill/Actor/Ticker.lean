import Treadmill.Actor.Basic

/-!
# Countdown and ticker

The countdown sends itself messages until its number is zero. The ticker wakes up three times a
second and tells a counter whenever the second has changed; the counter prints the seconds and
stops the ticker when its number is zero.
-/

namespace Treadmill

namespace Actor
variable {L : Layout} {α γ : Type} [DecidableEq α]

/-- Microseconds between two wakings of the ticker. -/
def tickPeriod : Int := secondUs / 3

/-- Sends itself one less than its state until that is zero, then retires. -/
def countdown (d : Delivery L) : WorldTask L α γ Unit := do
  let n ← Task.ofExcept (← Heap.state d.this).asNumber
  if 0 < n then
    let less ← Task.ofExcept (Ref.number (n - 1))
    World.send d.this less
    World.becomeActor d.this .countdown less
  else
    Task.note .countdownDone
    retire d

/-- Prints the `time` in the message and counts its own `count` down. Once that is zero it tells
the sender, named under `from`, to stop, and retires. -/
def eachSecond (d : Delivery L) : WorldTask L α γ Unit := do
  let mine ← Heap.state d.this
  let count ← lookup mine "count"
  let time ← lookup d.what "time"
  let ticker ← lookup d.what "from"
  let line ← World.createActor .printLine .nil
  World.send line (← bind .nil "text" time)
  if !count.isNumber then return
  let n ← Task.ofExcept count.asNumber
  if n ≤ 0 then
    Task.when ticker.isActor do
      let stop ← World.atom "stop"
      World.send ticker (← bind .nil "op" stop)
    retire d
  else
    let less ← Task.ofExcept (Ref.number (n - 1))
    let state ← bind .nil "count" less
    World.becomeActor d.this (← World.behaviorOf d.this) state

/-- Tells the counter `sec`, if it is an actor, of the second `time` and remembers both. -/
def noticeSecond (d : Delivery L) (sec time : Ref L) : WorldTask L α γ Unit := do
  Task.when sec.isActor do
    let message ← bind .nil "from" d.this
    World.send sec (← bind message "time" time)
  let state ← bind .nil "sec" sec
  let state ← bind state "time" time
  World.becomeActor d.this (← World.behaviorOf d.this) state

/-- Writes the present second into the message and sends it again after `tickPeriod`. -/
def rewind (d : Delivery L) : WorldTask L α γ Unit := do
  let binding ← Heap.first d.what
  let now ← Task.ofExcept (Ref.number (← Task.view (·.now)).s)
  Heap.setRest binding now
  World.sendAfter tickPeriod d.this d.what

/-- Obeys an order: retires at `stop`. -/
def obey (d : Delivery L) (op : Ref L) : WorldTask L α γ Unit := do
  if (← Task.view (·.atomName? op)) = some "stop" then
    Task.note .tickerStopped
    retire d
  else
    Task.noteFrom .warn do return .tickerPuzzled (← World.shown op)

/-- Tells the actor named under `sec` whenever the second in the message is another than the one in
its state, then sends the message to itself again after `tickPeriod`. Retires when the `op` of the
message is `stop`. -/
def ticker (d : Delivery L) : WorldTask L α γ Unit := do
  let mine ← Heap.state d.this
  let old ← lookup mine "time"
  let sec ← lookup mine "sec"
  let time ← lookup d.what "time"
  let op ← lookup d.what "op"
  if op.isAtom then obey d op
  else
    Task.when (old ≠ time) (noticeSecond d sec time)
    rewind d

/-- Starts a ticker that runs for `count` seconds. -/
def startTicker (count : Int) : WorldTask L α γ (Ref L) := do
  let countKey ← World.atom "count"
  let secKey ← World.atom "sec"
  let timeKey ← World.atom "time"
  let number ← Task.ofExcept (Ref.number count)
  let counter ← World.createActor .eachSecond
    (← Data.mapPut .nil countKey number)
  let ticker ← World.createActor .ticker
    (← Data.mapPut .nil secKey counter)
  let now ← Task.ofExcept (Ref.number (← Task.view (·.now)).s)
  World.send ticker (← Data.mapPut .nil timeKey now)
  return ticker

end Actor

end Treadmill

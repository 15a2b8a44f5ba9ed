import Treadmill.Actor.Greeter
import Treadmill.Actor.Ticker

/-!
# Running a world

One message is delivered at a time. A run delivers messages until its budget is spent, the mailbox
is empty or it holds more than its capacity.
-/

namespace Treadmill

/-- What the behaviors of a host do with a message. -/
abbrev Host (L : Layout) (α γ : Type) := α → Delivery L → WorldTask L α γ Unit

namespace World
variable {L : Layout} {α γ : Type} [DecidableEq α]

/-- Lets a behavior act on a message. -/
def act (host : Host L α γ) : Behavior α → Delivery L → WorldTask L α γ Unit
  | .sink, _ => return
  | .reportError, d => Actor.reportError d
  | .check, d => Actor.check d
  | .trace, d => Actor.trace d
  | .printText, d => Actor.printText d
  | .printLine, d => Actor.printLine d
  | .hello, d => Actor.hello d
  | .countdown, d => Actor.countdown d
  | .eachSecond, d => Actor.eachSecond d
  | .ticker, d => Actor.ticker d
  | .host name, d => host name d

omit [DecidableEq α] in
/-- Prints a delivery, and gives up after as much of the line as could be written if the message
cannot be written out. -/
def announce (d : Delivery L) : WorldTask L α γ Unit := do
  let target ← Task.view (·.showRef d.this)
  let message ← Task.view (·.showRef d.what)
  Task.note (.delivery target message)
  let _ ← Task.ofExcept (target >> message).toExcept

/-- Lets the target of an entry act on its message. The entry counts as under delivery for the
time. -/
def deliver (host : Host L α γ) (entry : Ref L) : WorldTask L α γ Unit := do
  let target ← Heap.first entry
  let message ← Heap.rest entry
  let b ← behaviorOf target
  Task.when (← Task.view (·.traced)) (announce ⟨target, message⟩)
  let outer ← Task.view (·.inDelivery)
  Task.alter fun w => { w with inDelivery := entry }
  act host b ⟨target, message⟩
  Task.alter fun w => { w with inDelivery := outer }

/-- Delivers one message; `false` if there is none. -/
def dispatch (host : Host L α γ) : WorldTask L α γ Bool := do
  if (← Task.view (·.mailFirst)).isNil then return false
  let entry ← dequeue
  deliver host entry
  recycle entry
  Task.alter fun w => { w with delivered := w.delivered + 1 }
  return true

/-- How many deliveries are attempted between two readings of the clock. -/
def clockStep : Nat := 256

/-- Whether more messages are pending than the capacity allows. -/
def isOver (w : World L α γ) : Bool := w.capacity < w.pending

/-- Reads the clock if the number of attempts so far is a multiple of `clockStep`. -/
def refresh (clock : Nat → γ → Moment) (attempts : Nat) : WorldTask L α γ Unit := do
  if attempts % clockStep = 0 then
    tick (clock (attempts / clockStep) (← Task.view (·.guest)))

/-- Delivers up to `budget` messages after `attempts` attempts have been made. The clock is read
before every attempt whose number is a multiple of `clockStep`, counted from 0; `clock k g` is the
`k`-th reading, taken when the data of the host is `g`. -/
def runFrom (host : Host L α γ) (clock : Nat → γ → Moment) :
    (attempts budget : Nat) → WorldTask L α γ (Option Nat)
  | _, 0 => return some 0
  | attempts, left + 1 => do
    refresh clock attempts
    if !(← dispatch host) then return some (left + 1)
    if ← Task.view isOver then
      Task.note (.overCapacity (← Task.view (·.pending)) (← Task.view (·.capacity)))
      return none
    runFrom host clock (attempts + 1) left

/-- Delivers up to `budget` messages and answers with the budget that is left once the mailbox is
empty, or with `none` when the mailbox holds more than its capacity, be it from the start. A
negative budget counts as zero. -/
def run (host : Host L α γ) (clock : Nat → γ → Moment) (budget : Int) :
    WorldTask L α γ (Option Nat) := do
  if ← Task.view isOver then return none
  runFrom host clock 0 budget.toNat

end World

end Treadmill

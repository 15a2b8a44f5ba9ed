import Treadmill.Command.Options
import Treadmill.World.Run

/-!
# The command's loop

The command makes a world, lets it run, and lets it run again after a rest while timers are
waiting.
-/

namespace Treadmill

namespace Command
variable {L : Layout} {α γ : Type}

/-- The command's name and version, as it answers to `-V`. -/
def versionText : String := "treadle 0.2.0-dev\n"

def usageText : String :=
  "usage: treadle [-s] [-n SECONDS] [-q CAPACITY] [-b BUDGET] [-g] [-v] [-V]\n"

/-- An exit code with what the command leaves on standard output and standard error. -/
structure Answer where
  code : UInt32
  out : String
  err : String

/-- The options to run with, or the answer to a request that runs nothing. -/
def optionsOf : Request → Except Answer Options
  | .run o => .ok o
  | .version => .error ⟨0, versionText, ""⟩
  | .unknown => .error ⟨2, "", usageText⟩
  | .noNumber option => .error ⟨2, "", option ++ " needs a number\n" ++ usageText⟩

/-- The exit code after a fault. -/
def faultCode : UInt32 := 101

/-- What standard error shows after a fault. -/
def faultText (f : Fault) : String := "panic: " ++ f.message ++ "\n"

/-- An event as a line of standard output, or as text for it. -/
def eventText (e : Event) : String :=
  match e.level? with
  | some l => l.name ++ " " ++ e.text ++ "\n"
  | none => e.text

def threshold (o : Options) : Option Level :=
  some (if o.verbose then .debug else .info)

/-- How long the command rests when nothing is pending, in microseconds. -/
def restUs : Nat := 100000

/-- What follows a run: another one at once, another one after a rest, or the end. -/
inductive Next
  | again
  | rest
  | finish
deriving DecidableEq

variable [DecidableEq α]

/-- Greets, counts down and ticks for so many seconds. -/
def startSample (seconds : Int) : WorldTask L α γ Unit := do
  let _ ← Actor.sayHello
  let n ← Task.ofExcept (Ref.number seconds)
  let countdown ← World.createActor .countdown n
  World.send countdown .nil
  let _ ← Actor.startTicker seconds

/-- What the command does before its loop. -/
def start (o : Options) : WorldTask L α γ Unit := do
  if o.sample then startSample o.seconds

/-- What the command does after a run that came to `left`. -/
def settle (o : Options) (left : Option Nat) : WorldTask L α γ Next := do
  let pending ← Task.view (·.pending)
  if left.isNone then
    Task.note (.backpressure pending (← Task.view (·.capacity)))
    return .finish
  if 0 < pending then
    Task.note (.stillPending pending)
    return .again
  if (← Task.view (·.delayed)) = 0 then return .finish
  Task.when (o.collect && !(← Task.view (·.heap.collecting))) (discard World.startCollect)
  return .rest

/-- One turn of the loop. -/
def turn (o : Options) (host : Host L α γ) (clock : Nat → γ → Moment) : WorldTask L α γ Next := do
  settle o (← World.run host clock o.budget)

end Command

end Treadmill

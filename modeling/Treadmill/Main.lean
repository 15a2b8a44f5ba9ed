import Treadmill.Command.Turn

/-!
# The command

Runs the sample actors in a new world against the clock of the machine.
-/

namespace Treadmill

namespace Command

/-- The command brings no behaviors and no data of its own. -/
abbrev CommandWorld := Logged (World .twoLow Empty Unit)

def noHost : Host .twoLow Empty Unit := fun name _ => nomatch name

/-- Prints the events of a journal and empties it. -/
def printEvents (s : CommandWorld) : IO CommandWorld := do
  let out ← IO.getStdout
  for e in s.journal.events do
    out.putStr (eventText e)
  out.flush
  return { s with journal := { s.journal with events := #[] } }

/-- Does one task and prints what it makes known; a fault ends the command. -/
def perform {β : Type} (t : WorldTask .twoLow Empty Unit β) (s : CommandWorld) :
    IO (Except UInt32 (β × CommandWorld)) := do
  match t s with
  | .ok b s => return .ok (b, ← printEvents s)
  | .error f s =>
    let _ ← printEvents s
    (← IO.getStderr).putStr (faultText f)
    return .error faultCode

/-- World time since the command began. -/
def readClock (epoch : Nat) : IO Moment := do
  return .ofNanos ((← IO.monoNanosNow) - epoch)

/-- Spends a budget in portions, each after one reading of the clock. -/
partial def runLive (epoch : Nat) (budget : Nat) (s : CommandWorld) :
    IO (Except UInt32 (Option Nat × CommandWorld)) := do
  let portion := min budget World.clockStep
  let reading ← readClock epoch
  match ← perform (World.run noHost (fun _ _ => reading) portion) s with
  | .error code => return .error code
  | .ok (some 0, s) =>
    if budget = portion then return .ok (some 0, s) else runLive epoch (budget - portion) s
  | .ok (some left, s) => return .ok (some (budget - portion + left), s)
  | .ok (none, s) => return .ok (none, s)

partial def loop (o : Options) (epoch : Nat) (s : CommandWorld) : IO (Except UInt32 CommandWorld) := do
  match ← runLive epoch o.budget.toNat s with
  | .error code => return .error code
  | .ok (left, s) =>
    match ← perform (settle o left) s with
    | .error code => return .error code
    | .ok (.finish, s) => return .ok s
    | .ok (.again, s) => loop o epoch s
    | .ok (.rest, s) =>
      IO.sleep (UInt32.ofNat (restUs / 1000))
      loop o epoch s

/-- Runs the command with these options and answers with its exit code. -/
def runOptions (o : Options) : IO UInt32 := do
  let epoch ← IO.monoNanosNow
  let s ← printEvents (World.create o.capacity false (← readClock epoch) () (threshold o))
  match ← perform (start o) s with
  | .error code => return code
  | .ok (_, s) =>
    match ← loop o epoch s with
    | .error code => return code
    | .ok s =>
      match ← perform World.report s with
      | .error code => return code
      | .ok _ => return 0

end Command

end Treadmill

def main (args : List String) : IO UInt32 := do
  match Treadmill.Command.optionsOf (Treadmill.Options.read {} args) with
  | .ok options => Treadmill.Command.runOptions options
  | .error answer =>
    (← IO.getStdout).putStr answer.out
    (← IO.getStderr).putStr answer.err
    return answer.code

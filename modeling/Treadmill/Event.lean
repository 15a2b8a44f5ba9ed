import Treadmill.Heap.Basic
import Treadmill.Writing

/-!
# Events

What an operation makes known while it runs: log lines of some level, and text for standard
output. `Event.text` holds the wording.
-/

namespace Treadmill

/-- How urgent a log line is, from most to least. -/
inductive Level
  | error
  | warn
  | info
  | debug
deriving DecidableEq

namespace Level

def name : Level → String
  | error => "ERROR"
  | warn => "WARN"
  | info => "INFO"
  | debug => "DEBUG"

def rank : Level → Nat
  | error => 0
  | warn => 1
  | info => 2
  | debug => 3

end Level

/-- The counters of a world at one moment. -/
structure Stats where
  delivered : Nat
  pending : Nat
  capacity : Nat
  delayed : Nat
  poolUsed : Nat
  poolMax : Nat
  behaviors : Nat
deriving DecidableEq

namespace Stats

def text (s : Stats) : String :=
  s!"messages delivered {s.delivered}; pending {s.pending}/{s.capacity}; delayed {s.delayed}; " ++
    s!"queue cells {s.poolUsed} (max {s.poolMax}); behaviors {s.behaviors}"

end Stats

inductive Event
  /- Of the heap. -/
  | blockAdded (ring : Ring) (arena : Nat)
  | cycleBegun (cycle candidates : Nat) (phase : Mark)
  | cycleEnded (cycle freed : Nat)
  | nothingToSweep
  | linkBroken (ring : Ring) (source target : Nat) (usage : Usage)
  | sizeMismatch (ring : Ring) (found recorded : Nat) (usage : Usage)
  | usageReport (usage : Usage) (cycles : Nat) (phase : Mark)
  | cellBorn (cell : Nat) (phase : Mark)
  | cellFixed (cell : Nat)
  | cellDied (cell : Nat)
  /- Of the world. -/
  | worldMade (capacity : Nat)
  | overCapacity (pending capacity : Nat)
  | cycleRefused
  | statsReport (stats : Stats)
  | delivery (target message : Writing)
  /- Of behaviors. -/
  | errorReported (message : String)
  | checkFailed (expected actual : String)
  | countdownDone
  | tickerStopped
  | tickerPuzzled (op : String)
  | printed (text : String)
  | printedLine (text : String)
  /- Of the command. -/
  | backpressure (pending capacity : Nat)
  | stillPending (pending : Nat)

namespace Event

/-- The level of a log line; `none` for what goes to standard output. -/
def level? : Event → Option Level
  | linkBroken .. | sizeMismatch .. | errorReported .. | checkFailed .. => some .error
  | cycleRefused | tickerPuzzled .. | backpressure .. => some .warn
  | usageReport .. | statsReport .. | stillPending .. => some .info
  | blockAdded .. | cycleBegun .. | cycleEnded .. | nothingToSweep | worldMade .. | overCapacity ..
  | countdownDone | tickerStopped => some .debug
  | cellBorn .. | cellFixed .. | cellDied .. | delivery .. | printed .. | printedLine .. => none

/-- The wording of a log line without its level, or the text for standard output. -/
def text : Event → String
  | blockAdded ring arena => s!"allocated {blockCells} cells onto {ring.name} (arena {arena})"
  | cycleBegun cycle candidates phase =>
    s!"gc cycle {cycle} aged {candidates} cells, phase {phase.name}"
  | cycleEnded cycle freed => s!"gc cycle {cycle} swept {freed} cells"
  | nothingToSweep => "sweep with no collection in progress"
  | linkBroken ring source target usage =>
    s!"{ring.name} link {source} -> {target} is broken ({usage.text})"
  | sizeMismatch ring found recorded usage =>
    s!"{ring.name} holds {found} cells but records {recorded} ({usage.text})"
  | usageReport usage cycles phase =>
    s!"cells: {usage.text}; {cycles} cycles, phase {phase.name}"
  | cellBorn cell phase => s!"C {cell} BIRTH (m {phase.name})\n"
  | cellFixed cell => s!"C {cell} PERM\n"
  | cellDied cell => s!"C {cell} DEATH\n"
  | worldMade capacity => s!"new configuration (capacity {capacity})"
  | overCapacity pending capacity => s!"mailbox over capacity ({pending}/{capacity})"
  | cycleRefused => "collection already in progress"
  | statsReport stats => stats.text
  | delivery target message =>
    (.whole "D " >> target >> .whole " <- " >> message >> .whole "\n" : Writing).text
  | errorReported message => s!"=ERROR= {message}"
  | checkFailed expected actual => s!"expect={expected} actual={actual}"
  | countdownDone => "countdown done"
  | tickerStopped => "ticker stopped"
  | tickerPuzzled op => s!"ticker got unknown op {op}"
  | printed text => text
  | printedLine text => text ++ "\n"
  | backpressure pending capacity =>
    s!"backpressure: {pending} messages pending (capacity {capacity})"
  | stillPending pending => s!"{pending} messages still pending"

end Event

end Treadmill

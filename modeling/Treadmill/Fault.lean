import Treadmill.Heap.Mark
import Treadmill.Heap.Ring
import Treadmill.Value

/-!
# Faults

Every way in which an operation may give up, by cause. `Fault.message` holds the wording.
-/

namespace Treadmill

/-- The accesses that need a reference of a certain kind. -/
inductive Access
  | first
  | rest
  | setFirst
  | setRest
  | behavior
  | state
  | become
  | send
  | append
  | mapPut
deriving DecidableEq

/-- The counts that a check compares with what it finds. -/
inductive Tally
  | untraced
  | mailbox
  | timers
deriving DecidableEq

inductive Fault
  /-- No word of the layout holds this cell index. -/
  | cellRange (index : Nat)
  | funcRange (index : Nat)
  | objectRange (payload : UInt64)
  | numberRange (n : Int) (layout : Layout)
  /-- A reference of another kind than the one asked for. -/
  | wrongKind (found : Value) (wanted : Kind)
  /-- Neither a pair nor an actor. -/
  | notCell (found : Value)
  | misuse (access : Access) (found : Value)
  /-- An actor was to be given a behavior that is no function. -/
  | notFunction (found : Value)
  | outOfBounds (length index : Nat)
  /-- A cell marked as a candidate while no candidates are on record. -/
  | noCandidates (cell : Nat) (mark : Mark)
  | cycleUnderWay
  | tally (what : Tally) (found recorded : Nat)
  | corruptRing (ring : Ring) (cell : Nat)
  | ringSize (ring : Ring)
  | arenaExhausted
  | nothingFree
  | nothingReserved
  | symbolsExhausted
  /-- A checking actor got another message than the one it waited for. -/
  | checkFailed (label : String)
  | addOverflow
  | subtractOverflow
  /-- A walk over cells that would never come to an end. -/
  | endless
deriving DecidableEq

namespace Access

/-- How a misused reference is reported: these words, then the reference. -/
def complaint : Access → String
  | first => "first of non-pair "
  | rest => "rest of non-pair "
  | setFirst => "set_first on "
  | setRest => "set_rest on "
  | behavior => "behavior of non-actor "
  | state => "state of non-actor "
  | become => "become on non-actor "
  | send => "send to non-actor "
  | append => "append onto non-list "
  | mapPut => "map_put on non-map "

end Access

namespace Tally

def complaint : Tally → String
  | untraced => "sweep with cells left to trace"
  | mailbox => "mailbox count out of step"
  | timers => "timer count out of step"

end Tally

/-- A number in base 16, with lower-case digits and the mark `0x`. -/
def hexText (n : Nat) : String :=
  "0x" ++ String.ofList (Nat.toDigits 16 n)

namespace Fault

def message : Fault → String
  | cellRange index => "cell index " ++ toString index ++ " out of range"
  | funcRange index => "function index " ++ toString index ++ " out of range"
  | objectRange payload => "object payload " ++ hexText payload.toNat ++ " out of range"
  | numberRange n layout =>
    "number " ++ toString n ++ " does not fit the " ++ layout.name ++ " layout"
  | wrongKind found wanted =>
    found.text ++ " is a " ++ found.kind.name ++ ", not a " ++ wanted.name
  | notCell found => found.text ++ " is a " ++ found.kind.name ++ ", not a cell"
  | misuse access found => access.complaint ++ found.text
  | notFunction found => "actor behavior " ++ found.text ++ " is not a function"
  | outOfBounds length index =>
    "index out of bounds: the len is " ++ toString length ++ " but the index is " ++ toString index
  | noCandidates cell mark =>
    "cell " ++ toString cell ++ " marked " ++ mark.name ++ " but the aged list is empty"
  | cycleUnderWay => "collection already in progress"
  | tally what found recorded =>
    "assertion `left == right` failed: " ++ what.complaint ++ "\n  left: " ++ toString found ++
      "\n right: " ++ toString recorded
  | corruptRing ring cell => "corrupt " ++ ring.name ++ " list at cell " ++ toString cell
  | ringSize ring => ring.name ++ " size mismatch"
  | arenaExhausted => "cell arena exhausted"
  | nothingFree => "free list empty after refill"
  | nothingReserved => "perm reserve empty after refill"
  | symbolsExhausted => "atom table full"
  | checkFailed label => "assert_beh: FAILED! " ++ label
  | addOverflow => "attempt to add with overflow"
  | subtractOverflow => "attempt to subtract with overflow"
  | endless => "endless structure"

end Fault

end Treadmill

import Treadmill.Data.Equal
import Treadmill.Data.Map
import Treadmill.World.Roots

/-!
# Basic actors

Actors that report errors, that check one message, and that carry on a collection. Actors keep
their data in maps whose keys are atoms.
-/

namespace Treadmill

namespace Actor
open World (onHeap)
variable {L : Layout} {α γ : Type}

/-- The value of a named key, or the empty list. -/
def lookup (map : Ref L) (key : String) : WorldTask L α γ (Ref L) := do
  let k ← World.atom key
  Data.mapGetD map k .nil

/-- A map in which a named key is bound to the value. -/
def bind (map : Ref L) (key : String) (val : Ref L) : WorldTask L α γ (Ref L) := do
  let k ← World.atom key
  Data.mapPut map k val

/-- Reports the message as an error. -/
def reportError (d : Delivery L) : WorldTask L α γ Unit :=
  Task.noteFrom .error do return .errorReported (← World.shown d.what)

variable [DecidableEq α]

/-- Turns the actor into one that ignores every message. -/
def retire (d : Delivery L) : WorldTask L α γ Unit :=
  World.becomeActor d.this .sink .nil

/-- Compares the message with what the state binds to `expect`, and gives up if they differ. The
state may bind `message` to an atom that names the check. -/
def check (d : Delivery L) : WorldTask L α γ Unit := do
  let mine ← Heap.state d.this
  let expectKey ← World.atom "expect"
  let messageKey ← World.atom "message"
  let expected ← Data.mapGetD mine expectKey .nil
  let label ← Data.mapGetD mine messageKey .nil
  if ← Data.equal expected d.what then retire d
  else
    let name := ((← Task.view (·.atomName? label))).getD ""
    Task.noteFrom .error do
      return .checkFailed (← World.shown expected) (← World.shown d.what)
    throw (.checkFailed name)

/-- Traces one cell and sends itself another message; once there is nothing to trace, ends the
cycle and retires. -/
def trace (d : Delivery L) : WorldTask L α γ Unit := do
  if ← onHeap Heap.traceStep then World.send d.this .nil
  else
    onHeap Heap.sweep
    retire d

end Actor

end Treadmill

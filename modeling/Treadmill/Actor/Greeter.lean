import Treadmill.Actor.Basic

/-!
# Printers and the greeter

Printers write the `text` of each message. The greeter makes printers of its own and has them
greet the `name` in each message.
-/

namespace Treadmill

namespace Actor
variable {L : Layout} {α γ : Type}

/-- The text of a message, in which an atom stands for its name. -/
def textOf (d : Delivery L) : WorldTask L α γ String := do
  let text ← lookup d.what "text"
  match ← Task.view (·.atomName? text) with
  | some name => return name
  | none => World.shown text

def printText (d : Delivery L) : WorldTask L α γ Unit := do
  Task.note (.printed (← textOf d))

def printLine (d : Delivery L) : WorldTask L α γ Unit := do
  Task.note (.printedLine (← textOf d))

variable [DecidableEq α]

/-- Greets the `name` in the message and signs with its own state. -/
def hello (d : Delivery L) : WorldTask L α γ Unit := do
  let name ← lookup d.what "name"
  let printer ← World.createActor .printText .nil
  let greeting ← World.atom "Hello, "
  World.send printer (← bind .nil "text" greeting)
  World.send printer (← Heap.state d.this)
  let link ← World.atom " from "
  World.send printer (← bind .nil "text" link)
  let line ← World.createActor .printLine .nil
  World.send line (← bind .nil "text" name)

/-- Sends two greetings to a new greeter. -/
def sayHello : WorldTask L α γ (Ref L) := do
  let textKey ← World.atom "text"
  let nameKey ← World.atom "name"
  let addrKey ← World.atom "addr"
  let signature ← World.atom "Actor"
  let greeter ← World.createActor .hello
    (← Data.mapPut .nil textKey signature)
  let world ← World.atom "World!"
  World.send greeter (← Data.mapPut .nil nameKey world)
  let answer ← Task.ofExcept (Ref.number 42)
  let message ← Data.mapPut .nil nameKey answer
  World.send greeter (← Data.mapPut message addrKey greeter)
  return greeter

end Actor

end Treadmill

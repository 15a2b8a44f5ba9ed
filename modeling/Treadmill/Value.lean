import Treadmill.Layout

/-!
# Values

What a tagged word says once it is read, whatever the layout it was written in.
-/

namespace Treadmill

/-- A decoded reference. Pairs and actors name a cell of the heap; atoms, functions and objects
carry a number of their own. -/
inductive Value
  | pair (cell : Nat)
  | atom (id : UInt32)
  | func (index : Nat)
  | actor (cell : Nat)
  | number (n : Int)
  | bool (b : Bool)
  | object (payload : UInt64)
deriving DecidableEq

namespace Value

/-- The empty list, which is the pair that names cell 0. -/
def nil : Value := .pair 0

def kind : Value → Kind
  | pair _ => .pair
  | atom _ => .atom
  | func _ => .func
  | actor _ => .actor
  | number _ => .number
  | bool _ => .bool
  | object _ => .object

/-- The payload as text. -/
def payloadText : Value → String
  | pair i | func i | actor i => toString i
  | atom id => toString id.toNat
  | number n => toString n
  | bool b => toString b
  | object p => toString p.toNat

/-- A value in full: its kind, and its payload in brackets. -/
def fullText (v : Value) : String :=
  v.kind.name ++ "(" ++ v.payloadText ++ ")"

/-- A value as messages write it: in full, but the empty list by its name. -/
def text (v : Value) : String :=
  if v = nil then "NIL" else v.fullText

end Value

end Treadmill

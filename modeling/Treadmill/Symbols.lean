import Std.Data.HashMap
import Treadmill.Fault

/-!
# Symbols

A table of atom names. Each name that is new gets the next number, starting from 0.
-/

namespace Treadmill

/-- Atom names in the order of their numbers, with an index from names back to numbers. -/
structure Symbols where
  names : Array String
  ids : Std.HashMap String UInt32

namespace Symbols

def empty : Symbols := ⟨#[], {}⟩

def size (t : Symbols) : Nat := t.names.size

def isEmpty (t : Symbols) : Bool := t.size = 0

/-- The number that a name already has. -/
def find? (t : Symbols) (name : String) : Option UInt32 := t.ids[name]?

/-- The name that has a number. -/
def name? (t : Symbols) (id : UInt32) : Option String := t.names[id.toNat]?

/-- The number of a name, which is entered if it is new, and the table after that. -/
def intern (t : Symbols) (name : String) : Except Fault (UInt32 × Symbols) :=
  match t.find? name with
  | some id => .ok (id, t)
  | none =>
    if t.size < 2 ^ 32 then
      let id := UInt32.ofNat t.size
      .ok (id, ⟨t.names.push name, t.ids.insert name id⟩)
    else .error .symbolsExhausted

end Symbols

end Treadmill

import Treadmill.Heap.Access
import Treadmill.Symbols
import Treadmill.Writing

/-!
# Text of values

Values are written as bracketed lists with blanks between the items and a dot before a tail that
is no list. Reading cells for this promotes none of them. Lists are cut after 64 items and nesting
after 64 levels, so the text of a structure that contains itself is finite too. A value is written
from left to right, and a pair that has no cell cuts the writing short.
-/

namespace Treadmill

namespace Data
open Heap
variable {L : Layout}

/-- The most items of a list, and the deepest nesting, that are written out. -/
def showLimit : Nat := 64

/-- The slots of the cell that a reference names, read without promoting it. -/
def peek (h : Heap L) (r : Ref L) : Except Fault (Ref L × Ref L) := do
  let i ← r.cell
  match h.cells[i]? with
  | some c => return (c.first, c.rest)
  | none => throw (.outOfBounds h.cells.size i)

/-- A value that is no pair. -/
def leafText (names : Symbols) : Value → String
  | .pair _ => "()"
  | .atom id => (names.name? id).getD ("#atom:" ++ toString id.toNat)
  | .func i => "#fn:" ++ toString i
  | .actor i => "#actor@" ++ toString i
  | .number n => toString n
  | .bool b => if b then "#t" else "#f"
  | .object p => "#obj:" ++ toString p.toNat

/-- The items from the pair `p` on, at most `n + 1` of them. -/
def showItems (h : Heap L) (item : Ref L → Writing) : Nat → Ref L → Writing
  | n, p => .after (peek h p) fun (a, d) =>
    item a >>
      if d.isNil then .whole ""
      else if !d.isPair then .whole " . " >> item d
      else match n with
        | 0 => .whole " ..."
        | n + 1 => .whole " " >> showItems h item n d

/-- A value written with at most `n` levels. -/
def showFrom (h : Heap L) (names : Symbols) : Nat → Ref L → Writing
  | 0, _ => .whole "..."
  | n + 1, r =>
    if r.isCons then
      .whole "(" >> showItems h (showFrom h names n) (showLimit - 1) r >> .whole ")"
    else .whole (leafText names r.value)

/-- A value as text. -/
def showRef (h : Heap L) (names : Symbols) (r : Ref L) : Writing :=
  showFrom h names (showLimit + 1) r

end Data

end Treadmill

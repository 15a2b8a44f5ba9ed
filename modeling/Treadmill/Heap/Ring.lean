/-!
# Rings

Every cell of a heap stands on one of five circular lists, its rings, unless it is a permanent cell
in use. A ring has a head, a cell that holds nothing.
-/

namespace Treadmill

/-- The five circular lists of a heap: cells to hand out, cells in use that are no candidates,
candidates of the cycle under way, candidates found alive but not yet traced, and permanent cells
to hand out. -/
inductive Ring
  | free
  | fresh
  | aged
  | scan
  | perm
deriving DecidableEq

namespace Ring

def all : List Ring := [free, fresh, aged, scan, perm]

/-- The cell that heads a ring. -/
def head : Ring → Nat
  | free => 1
  | fresh => 2
  | aged => 3
  | scan => 4
  | perm => 5

def name : Ring → String
  | free => "Free"
  | fresh => "Fresh"
  | aged => "Aged"
  | scan => "Scan"
  | perm => "Perm"

end Ring

end Treadmill

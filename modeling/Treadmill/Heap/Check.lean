import Treadmill.Heap.Access

/-!
# Checks and reports

A ring is sound when its links are mutual inverses all the way round and its recorded length is
its length.
-/

namespace Treadmill

namespace Heap
variable {L : Layout}

/-- Two cells of which the first links to the second, but not the second back. -/
structure BrokenLink where
  source : Nat
  target : Nat

/-- Follows links from `p` round to `stop`, at most `n` cells further, and counts the cells met on
top of `seen`. -/
def countFrom (h : Heap L) (stop : Nat) : (n seen p : Nat) → Except BrokenLink Nat
  | 0, seen, p =>
    let q := h.next p
    if h.cells.size ≤ q ∨ h.prev q ≠ p ∨ q ≠ stop then .error ⟨p, q⟩ else .ok seen
  | n + 1, seen, p =>
    let q := h.next p
    if h.cells.size ≤ q ∨ h.prev q ≠ p then .error ⟨p, q⟩
    else if q = stop then .ok seen
    else countFrom h stop n (seen + 1) q

/-- The number of cells on a ring, or the first link that is broken. -/
def countChecked (h : Heap L) (r : Ring) : Except BrokenLink Nat :=
  h.countFrom r.head (h.cells.size + 1) 0 r.head

/-- The lengths on record. There must be no more cells on record than in the arena. -/
def usage : HeapTask L Usage := do
  let s ← Task.view (·.sizes)
  let total := (← Task.view (·.cells.size)) - firstCell
  Task.require (s.total ≤ total) .subtractOverflow
  return ⟨s.free, s.fresh, s.aged, s.scan, s.perm, total - s.total, total⟩

/-- Gives up unless the ring is sound. -/
def checkRing (r : Ring) : HeapTask L Unit := do
  match ← Task.view (·.countChecked r) with
  | .error link =>
    Task.noteFrom .error do return .linkBroken r link.source link.target (← usage)
    throw (.corruptRing r link.source)
  | .ok found =>
    let recorded ← Task.view (·.size r)
    if found ≠ recorded then
      Task.noteFrom .error do return .sizeMismatch r found recorded (← usage)
      throw (.ringSize r)

def checkAllRings : HeapTask L Unit :=
  Ring.all.forM checkRing

/-- Checks every ring, reports the lengths and answers with them. -/
def reportUsage : HeapTask L Usage := do
  checkAllRings
  let u ← usage
  Task.note (.usageReport u (← Task.view (·.cycles)) (← Task.view (·.phase)))
  return u

end Heap

end Treadmill

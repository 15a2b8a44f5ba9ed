import Treadmill.Heap.Check

/-!
# Collection

A cycle begins by making every fresh cell a candidate. Candidates that are found alive move to the
scan ring, are traced one at a time and become fresh again; the ones left at the end are free.
-/

namespace Treadmill

namespace Heap
variable {L : Layout}

/-- The heap once every fresh cell is a candidate and the phase has turned. -/
def aged (h : Heap L) : Heap L :=
  let h := h.splice .aged .fresh
  { h with lastPhase := h.phase, phase := h.phase.flip, collecting := true }

/-- Makes every fresh cell a candidate. -/
def age : HeapTask L Unit := do
  Task.require (!(← Task.view (·.collecting))) .cycleUnderWay
  Task.alter aged
  Task.note (.cycleBegun ((← Task.view (·.cycles)) + 1) (← Task.view (·.size .aged))
    (← Task.view (·.phase)))

/-- Begins a cycle that keeps what the roots name. -/
def beginCollect (roots : List (Ref L)) : HeapTask L Unit := do
  age
  roots.forM scanValue

/-- Traces one cell; `false` when there is none to trace. -/
def traceStep : HeapTask L Bool := do
  match ← Task.change (·.popFront .scan) with
  | none => return false
  | some i =>
    let c ← fetch i
    scanValue c.first
    scanValue c.rest
    Task.alter (·.pushFront .fresh i)
    return true

/-- The heap once the candidates are free and the cycle is over. -/
def swept (h : Heap L) : Heap L :=
  let h := h.splice .free .aged
  { h with collecting := false, cycles := h.cycles + 1 }

/-- Notes the death of every candidate that was not found alive, if the heap is traced. -/
def noteDeaths : HeapTask L Unit := do
  Task.when (← Task.view (·.traced)) do
    let dead ← Task.view (·.members .aged)
    dead.forM fun i => Task.note (.cellDied i)

/-- Ends the cycle under way: frees every candidate that was not found alive, then checks all
rings. -/
def endCycle : HeapTask L Unit := do
  let untraced ← Task.view (·.size .scan)
  Task.require (untraced = 0) (.tally .untraced untraced 0)
  let dead ← Task.view (·.size .aged)
  noteDeaths
  Task.alter swept
  Task.note (.cycleEnded (← Task.view (·.cycles)) dead)
  checkAllRings

/-- Ends the cycle under way, if there is one. -/
def sweep : HeapTask L Unit := do
  if ← Task.view (·.collecting) then endCycle else Task.note .nothingToSweep

/-- Traces until there is nothing to trace, at most `n` cells, and counts on from `done`. -/
def traceFrom : (n done : Nat) → HeapTask L Nat
  | 0, _ => throw .endless
  | n + 1, done => do
    if ← traceStep then traceFrom n (done + 1) else return done

/-- Traces until there is nothing to trace and answers with the number of cells traced. Only
candidates move to the scan ring, and never back, so there are at most as many as cells. -/
def traceAll : HeapTask L Nat := do
  traceFrom ((← Task.view (·.cells.size)) + 1) 0

/-- Traces to the end and frees the rest. -/
def finishCollect : HeapTask L Unit := do
  let _ ← traceAll
  sweep

/-- Runs a whole cycle; one that is already under way comes to its end first. -/
def fullCollect (roots : List (Ref L)) : HeapTask L Unit := do
  Task.when (← Task.view (·.collecting)) finishCollect
  beginCollect roots
  finishCollect

end Heap

end Treadmill

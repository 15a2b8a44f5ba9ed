import Mathlib
import Treadmill.Proofs.World.Gather

/-!
What stands in the queues of a world, read off its cells from the heads of its chains on. With the
books in order that is what they say.
-/

namespace Treadmill
variable {L : Layout} {α γ : Type}

namespace Heap
variable {h : Heap L} {r : Ref L} {cells : List Nat} {i n : Nat}

/-- The cells met along rest slots from `r` on, at most `n` of them. -/
def chainFrom (h : Heap L) : Nat → Ref L → List Nat
  | 0, _ => []
  | n + 1, r =>
    match r.target? with
    | none => []
    | some i => i :: h.chainFrom n (h.contents i).2

def chain (h : Heap L) (r : Ref L) : List Nat := h.chainFrom h.cells.size r

/-- The contents of the cell that a reference names. -/
def named (h : Heap L) (r : Ref L) : Ref L × Ref L :=
  match r.target? with
  | none => (.nil, .nil)
  | some i => h.contents i

theorem named_of_points (points : r.Points i) : h.named r = h.contents i := by
  simp [named, points.2]

theorem Leads.chainFrom (leads : h.Leads r cells .nil) (short : cells.length ≤ n) :
    h.chainFrom n r = cells := by
  induction cells generalizing n r with
  | nil =>
    obtain rfl : r = .nil := leads
    cases n <;> simp [Heap.chainFrom]
  | cons i cells ih =>
    cases n with
    | zero => simp at short
    | succ n =>
      rw [Heap.chainFrom, leads.1.2]
      exact congrArg (List.cons i) (ih leads.2 (by simpa using short))

/-- The moment that a cell holds, if it holds two numbers. -/
def momentAt (h : Heap L) (r : Ref L) : Moment :=
  let number (v : Ref L) : Int := v.asNumber.toOption.getD 0
  ⟨number (h.named r).1, number (h.named r).2⟩

end Heap

namespace World
variable {w : World L α γ} {b : Books L} {care : Care L}

def mailNodes (w : World L α γ) : List Nat := w.heap.chain w.mailFirst

def timerNodes (w : World L α γ) : List Nat := w.heap.chain w.timers

/-- The mailbox: target and message of each entry. -/
def mailbox (w : World L α γ) : List (Ref L × Ref L) :=
  w.mailNodes.map fun node => w.heap.named (w.heap.contents node).1

/-- The timers: when each is due, its target and its message. -/
def timerList (w : World L α γ) : List (Moment × Ref L × Ref L) :=
  w.timerNodes.map fun node =>
    let timer := w.heap.named (w.heap.contents node).1
    (w.heap.momentAt timer.1, w.heap.named timer.2)

/-- The cells of the mailbox: its nodes and their entries. -/
def mailCells (w : World L α γ) : List Nat :=
  w.mailNodes ++ w.mailNodes.filterMap fun node => (w.heap.contents node).1.target?

/-- The cells of the timers: the nodes, the pairs of time and entry, the times and the entries. -/
def timerCells (w : World L α γ) : List Nat :=
  let timers := w.timerNodes.filterMap fun node => (w.heap.contents node).1.target?
  w.timerNodes ++ timers ++ (timers.filterMap fun timer => (w.heap.contents timer).1.target?) ++
    timers.filterMap fun timer => (w.heap.contents timer).2.target?

def poolCells (w : World L α γ) : List Nat := w.heap.chain w.pool

def rootCells (w : World L α γ) : List Nat := w.heap.chain w.roots

/-! ### Read with the books in order -/

theorem Kept.chain (kept : Kept care b w) {r : Ref L} {cells : List Nat}
    (leads : w.heap.Leads r cells .nil) (nodup : cells.Nodup) (on : ∀ i ∈ cells, i ∈ b.cells) :
    w.heap.chain r = cells :=
  leads.chainFrom (kept.stock.length_le nodup on)

theorem Kept.mailNodes (kept : Kept care b w) : w.mailNodes = b.mail.map Letter.node :=
  kept.chain kept.mail.chain (Books.queues_nodup kept.stock.distinct).2.1 fun i on => by
    obtain ⟨l, member, rfl⟩ := List.mem_map.mp on
    exact Books.filed_cells (Books.node_filed (Books.letter_node member))

theorem Kept.timerNodes (kept : Kept care b w) : w.timerNodes = b.timers.map Alarm.node :=
  kept.chain kept.timers.chain (Books.queues_nodup kept.stock.distinct).2.2 fun i on => by
    obtain ⟨a, member, rfl⟩ := List.mem_map.mp on
    exact Books.filed_cells (Books.alarm_filed member)

theorem Kept.rootCells (kept : Kept care b w) : w.rootCells = b.roots.map Root.cell :=
  kept.chain kept.roots (Books.queues_nodup kept.stock.distinct).1 fun i on => by
    obtain ⟨x, member, rfl⟩ := List.mem_map.mp on
    exact Books.filed_cells (Books.root_filed member)

theorem Kept.poolCells (kept : Kept care b w) : w.poolCells = b.pool := by
  have once := List.nodup_iff_count_le_one.mp kept.stock.distinct
  simp only [Books.cells, Books.own, Books.filed, Books.nodes, List.count_append] at once
  refine kept.chain kept.pool (List.nodup_iff_count_le_one.mpr fun i => ?_) fun i on =>
    Books.filed_cells (Books.node_filed (Books.pool_node on))
  have := once i
  omega

theorem Kept.mailbox (kept : Kept care b w) :
    w.mailbox = b.mail.map fun l => (l.entry.note.target, l.entry.note.message) := by
  rw [World.mailbox, kept.mailNodes, List.map_map]
  refine List.map_congr_left fun l on => ?_
  rw [Function.comp_apply, Heap.named_of_points (kept.mail.letters l on),
    kept.entries l.entry (Books.letter_entry on)]

theorem Kept.timerList (kept : Kept care b w) :
    w.timerList = b.timers.map fun a => (a.due, a.entry.note.target, a.entry.note.message) := by
  rw [World.timerList, kept.timerNodes, List.map_map]
  refine List.map_congr_left fun a on => ?_
  have wired := kept.timers.alarms a on
  have time := Heap.named_of_points (h := w.heap) wired.time
  simp only [Function.comp_apply, Heap.named_of_points wired.timer, Heap.named_of_points wired.entry,
    kept.entries a.entry (Books.alarm_entry on), Heap.momentAt, time, wired.seconds, wired.micros,
    Except.toOption, Option.getD_some]

theorem Kept.mailCells (kept : Kept care b w) :
    w.mailCells = b.mail.map Letter.node ++ b.mail.map fun l => l.entry.cell := by
  rw [World.mailCells, kept.mailNodes, List.filterMap_map]
  refine congrArg _ ?_
  rw [← List.filterMap_eq_map]
  refine List.filterMap_congr fun l on => ?_
  exact (kept.mail.letters l on).2

theorem Kept.timerCells (kept : Kept care b w) :
    w.timerCells = b.timers.map Alarm.node ++ b.timers.map Alarm.timer ++ b.timers.map Alarm.time ++
      b.timers.map fun a => a.entry.cell := by
  have wired := kept.timers.alarms
  have timers : (b.timers.map Alarm.node).filterMap (fun node => (w.heap.contents node).1.target?) =
      b.timers.map Alarm.timer := by
    rw [List.filterMap_map, ← List.filterMap_eq_map]
    exact List.filterMap_congr fun a on => (wired a on).timer.2
  rw [World.timerCells, kept.timerNodes, timers, List.filterMap_map, List.filterMap_map]
  refine congrArg₂ _ (congrArg _ ?_) ?_
  · rw [← List.filterMap_eq_map]
    exact List.filterMap_congr fun a on => (wired a on).time.2
  · rw [← List.filterMap_eq_map]
    exact List.filterMap_congr fun a on => (wired a on).entry.2

/-- The tail of the mailbox refers to its last node, if there is one. -/
theorem Kept.mailLast (kept : Kept care b w) :
    w.mailLast.target? = w.mailNodes.getLast? ∧ (w.mailLast = .nil ↔ w.mailNodes = []) := by
  rw [kept.mailNodes]
  rcases kept.mail.last with ⟨empty, isNil⟩ | ⟨rest, l, shape, points⟩
  · simp [empty, isNil]
  · refine ⟨by simp [shape, points.2], ?_⟩
    constructor
    · intro isNil
      have named := points.2
      rw [isNil, Ref.target?_nil] at named
      cases named
    · simp [shape]

end World

end Treadmill

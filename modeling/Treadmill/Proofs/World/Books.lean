import Treadmill.Proofs.Ends
import Treadmill.Proofs.World.Agenda
import Treadmill.Proofs.Heap.Chain
import Treadmill.World.Pool

/-!
The books of a world: which of its permanent cells stands where (`Books`), and what holds of a world
whose books are in order (`Kept`). What is asked of the references in its queues is left open
(`Care`).
-/

namespace Treadmill

/-- An entry: a cell with the target and the message of a note. -/
structure Entry (L : Layout) where
  cell : Nat
  note : Note L

def Entry.refs {L : Layout} (e : Entry L) : List (Ref L) := [e.note.target, e.note.message]

/-- An entry in the mailbox and the node that holds it. -/
structure Letter (L : Layout) where
  node : Nat
  entry : Entry L

/-- An entry among the timers with its node, the pair of time and entry, and the time. -/
structure Alarm (L : Layout) where
  node : Nat
  timer : Nat
  time : Nat
  due : Moment
  entry : Entry L

def Alarm.toTimer {L : Layout} (a : Alarm L) : Timer L := ⟨a.due, a.entry.note⟩

/-- A registered root and its node. -/
structure Root (L : Layout) where
  cell : Nat
  value : Ref L

/-- Where each permanent cell stands. Entries that are under delivery or being put together are
`held`, other cells that are being worked on are in `hand`. A task that gives up may leave the cell
of an entry behind, which is `lost`. Cells that the user has asked for are `granted`. -/
structure Books (L : Layout) where
  mail : List (Letter L)
  timers : List (Alarm L)
  pool : List Nat
  roots : List (Root L)
  held : List (Entry L)
  hand : List Nat
  lost : List Nat
  granted : List Nat
  current : Ref L
  now : Moment

variable {L : Layout} {α γ : Type}

namespace Books

/-- The cells that hold the queues together. -/
def nodes (b : Books L) : List Nat :=
  b.mail.map Letter.node ++ b.timers.map Alarm.node ++ b.timers.map Alarm.timer ++
    b.timers.map Alarm.time ++ b.pool

def entries (b : Books L) : List (Entry L) :=
  b.mail.map Letter.entry ++ b.timers.map Alarm.entry ++ b.held

/-- The cells whose slots matter. -/
def filed (b : Books L) : List Nat :=
  b.nodes ++ b.roots.map Root.cell ++ b.entries.map Entry.cell

/-- The cells of the world itself. -/
def own (b : Books L) : List Nat := b.filed ++ b.hand ++ b.lost

def cells (b : Books L) : List Nat := b.own ++ b.granted

/-- The roots, and target and message of each entry. -/
def refs (b : Books L) : List (Ref L) := b.roots.map Root.value ++ b.entries.flatMap Entry.refs

/-- How many cells have been taken from the pool and not been given back. -/
def taken (b : Books L) : Nat :=
  2 * b.mail.length + 4 * b.timers.length + b.held.length + b.hand.length + b.lost.length

/-- The cell `i`, the first one of the pool if there is one there, is taken. -/
def draw (b : Books L) (i : Nat) : Books L :=
  { b with pool := b.pool.tail, hand := i :: b.hand }

/-- The entry `e`, which was held, is put in the mailbox with the node `n`. -/
def post (b : Books L) (n : Nat) (e : Entry L) (held : List (Entry L)) : Books L :=
  { b with mail := b.mail ++ [⟨n, e⟩], held }

/-- The books once the first alarm has moved to the mailbox. -/
def fire (b : Books L) (a : Alarm L) (timers : List (Alarm L)) (n : Nat) : Books L :=
  { b with
    mail := b.mail ++ [⟨n, a.entry⟩]
    timers := timers
    pool := a.node :: a.timer :: a.time :: b.pool.tail }

variable {b : Books L} {i j : Nat}

theorem node_filed (on : i ∈ b.nodes) : i ∈ b.filed := by
  simp [filed, on]

theorem root_filed {x : Root L} (on : x ∈ b.roots) : x.cell ∈ b.filed := by
  simp [filed, List.mem_map_of_mem on]

theorem entry_filed {e : Entry L} (on : e ∈ b.entries) : e.cell ∈ b.filed := by
  simp [filed, List.mem_map_of_mem on]

theorem filed_own (on : i ∈ b.filed) : i ∈ b.own := by
  simp [own, on]

theorem own_cells (on : i ∈ b.own) : i ∈ b.cells := by
  simp [cells, on]

theorem filed_cells (on : i ∈ b.filed) : i ∈ b.cells := own_cells (filed_own on)

theorem letter_node {l : Letter L} (on : l ∈ b.mail) : l.node ∈ b.nodes := by
  simp [nodes, List.mem_map_of_mem on]

theorem alarm_node {a : Alarm L} (on : a ∈ b.timers) : a.node ∈ b.nodes ∧ a.timer ∈ b.nodes := by
  simp [nodes, List.mem_map_of_mem on]

theorem alarm_filed {a : Alarm L} (on : a ∈ b.timers) : a.node ∈ b.filed :=
  node_filed (alarm_node on).1

theorem alarm_time {a : Alarm L} (on : a ∈ b.timers) : a.time ∈ b.nodes := by
  simp [nodes, List.mem_map_of_mem on]

theorem pool_node (on : i ∈ b.pool) : i ∈ b.nodes := by
  simp [nodes, on]

theorem letter_entry {l : Letter L} (on : l ∈ b.mail) : l.entry ∈ b.entries := by
  simp [entries, List.mem_map_of_mem on]

theorem alarm_entry {a : Alarm L} (on : a ∈ b.timers) : a.entry ∈ b.entries := by
  simp [entries, List.mem_map_of_mem on]

theorem held_entry {e : Entry L} (on : e ∈ b.held) : e ∈ b.entries := by
  simp [entries, on]

theorem head_cells {e : Entry L} {held : List (Entry L)} (shape : b.held = e :: held) :
    e.cell ∈ b.cells :=
  filed_cells (entry_filed (held_entry (by simp [shape])))

theorem filed_draw (on : i ∈ (b.draw j).filed) : i ∈ b.filed := by
  have pooled := List.mem_of_mem_tail (l := b.pool) (a := i)
  simp only [filed, nodes, entries, draw, List.mem_append] at on ⊢
  tauto

theorem hand_cells (on : i ∈ b.hand) : i ∈ b.cells := by
  simp [cells, own, on]

theorem not_granted_of_own (distinct : b.cells.Nodup) (on : i ∈ b.own) : i ∉ b.granted :=
  fun other => (List.nodup_append.mp distinct).2.2 i on i other rfl

theorem not_filed_of_hand (distinct : b.cells.Nodup) (on : i ∈ b.hand) : i ∉ b.filed := by
  rw [cells, List.nodup_append, own, List.nodup_append, List.nodup_append] at distinct
  exact fun other => distinct.1.1.2.2 i other i on rfl

theorem not_filed_of_head {hand : List Nat} (distinct : b.cells.Nodup) (shape : b.hand = i :: hand) :
    i ∉ b.filed :=
  not_filed_of_hand distinct (by simp [shape])

theorem hand_apart {hand : List Nat} (distinct : b.cells.Nodup) (shape : b.hand = i :: j :: hand) :
    j ≠ i := by
  rw [cells, List.nodup_append, own, List.nodup_append, List.nodup_append, shape] at distinct
  rintro rfl
  exact (List.nodup_cons.mp distinct.1.1.2.1).1 (by simp)

theorem hand_apart_third {hand : List Nat} {n : Nat} (distinct : b.cells.Nodup)
    (shape : b.hand = i :: n :: j :: hand) : j ≠ i := by
  rw [cells, List.nodup_append, own, List.nodup_append, List.nodup_append, shape] at distinct
  rintro rfl
  exact (List.nodup_cons.mp distinct.1.1.2.1).1 (by simp)

theorem not_kept_of_node (distinct : b.cells.Nodup) (on : i ∈ b.nodes) :
    i ∉ b.roots.map Root.cell ∧ i ∉ b.entries.map Entry.cell := by
  rw [cells, List.nodup_append, own, List.nodup_append, List.nodup_append, filed, List.append_assoc,
    List.nodup_append] at distinct
  refine ⟨fun other => ?_, fun other => ?_⟩
  · exact distinct.1.1.1.2.2 i on i (List.mem_append_left _ other) rfl
  · exact distinct.1.1.1.2.2 i on i (List.mem_append_right _ other) rfl

/-- The cells of the mailbox stand nowhere else. -/
theorem mail_apart (distinct : b.cells.Nodup) (on : i ∈ b.mail.map Letter.node) :
    i ∉ b.timers.map Alarm.node ∧ i ∉ b.timers.map Alarm.timer ∧ i ∉ b.timers.map Alarm.time ∧
      i ∉ b.pool := by
  have once := List.nodup_iff_count_le_one.mp distinct i
  have here := List.count_pos_iff.mpr on
  simp only [cells, own, filed, nodes, List.count_append] at once
  refine ⟨?_, ?_, ?_, ?_⟩ <;> refine List.count_eq_zero.mp ?_ <;> omega

theorem last_apart {rest : List (Letter L)} {l x : Letter L} (distinct : b.cells.Nodup)
    (shape : b.mail = rest ++ [l]) (on : x ∈ rest) : x.node ≠ l.node := by
  have once := List.nodup_iff_count_le_one.mp distinct l.node
  intro same
  have twice := List.count_pos_iff.mpr (same ▸ List.mem_map_of_mem (f := Letter.node) on)
  simp only [cells, own, filed, nodes, shape, List.map_append, List.count_append,
    List.map_cons, List.map_nil, List.count_cons_self] at once
  omega

/-- The nodes of the timers stand nowhere else. -/
theorem alarm_apart (distinct : b.cells.Nodup) (on : i ∈ b.timers.map Alarm.node) :
    i ∉ b.mail.map Letter.node ∧ i ∉ b.timers.map Alarm.timer ∧ i ∉ b.timers.map Alarm.time ∧
      i ∉ b.pool := by
  have once := List.nodup_iff_count_le_one.mp distinct i
  have here := List.count_pos_iff.mpr on
  simp only [cells, own, filed, nodes, List.count_append] at once
  refine ⟨?_, ?_, ?_, ?_⟩ <;> refine List.count_eq_zero.mp ?_ <;> omega

theorem node_apart {rest more : List (Alarm L)} {x z : Alarm L} (distinct : b.cells.Nodup)
    (shape : b.timers = rest ++ ([z] ++ more)) (on : x ∈ rest ++ more) : x.node ≠ z.node := by
  have once := List.nodup_iff_count_le_one.mp distinct z.node
  intro same
  have twice := List.count_pos_iff.mpr (same ▸ List.mem_map_of_mem (f := Alarm.node) on)
  simp only [cells, own, filed, nodes, shape, List.map_append, List.count_append,
    List.map_cons, List.map_nil, List.count_cons_self] at once twice
  omega

theorem queues_nodup (distinct : b.cells.Nodup) :
    (b.roots.map Root.cell).Nodup ∧ (b.mail.map Letter.node).Nodup ∧ (b.timers.map Alarm.node).Nodup := by
  have once := List.nodup_iff_count_le_one.mp distinct
  simp only [cells, own, filed, nodes, List.count_append] at once
  refine ⟨?_, ?_, ?_⟩ <;> refine List.nodup_iff_count_le_one.mpr fun i => ?_ <;> have := once i <;> omega

theorem mem_refs {v : Ref L} : v ∈ b.refs ↔
    (∃ x ∈ b.roots, x.value = v) ∨ ∃ e ∈ b.entries, v ∈ e.refs := by
  simp [refs, List.mem_flatMap]

theorem refs_mono {c : Books L} (roots : ∀ x ∈ c.roots, x ∈ b.roots)
    (entries : ∀ e ∈ c.entries, e ∈ b.entries) {v : Ref L} (on : v ∈ c.refs) : v ∈ b.refs := by
  rw [mem_refs] at on ⊢
  exact on.imp (fun ⟨x, root, same⟩ => ⟨x, roots x root, same⟩)
    fun ⟨e, entry, slot⟩ => ⟨e, entries e entry, slot⟩

end Books

namespace World
open Heap

/-- What a world asks of the references that it is given (`Admits`), what it promises of those in
its queues (`Guards`), and what else is to hold of the heap (`Stands`). -/
structure Care (L : Layout) where
  Admits : Heap L → Ref L → Prop
  Guards : Heap L → Ref L → Prop
  Stands : Heap L → Prop
  holds {h : Heap L} {v : Ref L} (admits : Admits h v) : h.Holds v
  blank {h : Heap L} {v : Ref L} (none : v.target? = none) : Admits h v
  guards_of_clear {h : Heap L} {v : Ref L} (admits : Admits h v) (clear : h.Clear v) : Guards h v
  admits_filed {h k : Heap L} {i : Nat} {c : Ref L × Ref L} {v : Ref L} (filed : Filed h k i c)
    (admits : Admits h v) : Admits k v
  guards_filed {h k : Heap L} {i : Nat} {c : Ref L × Ref L} {v : Ref L} (filed : Filed h k i c)
    (guards : Guards h v) : Guards k v
  stands_filed {h k : Heap L} {i : Nat} {c : Ref L × Ref L} (filed : Filed h k i c)
    (stands : Stands h) : Stands k
  guards_read {h k : Heap L} {r v : Ref L} {answer : Option (Ref L)}
    (effect : Effect (.behavior r) h answer k) (guards : Guards h v) : Guards k v
  stands_read {h k : Heap L} {r : Ref L} {answer : Option (Ref L)}
    (effect : Effect (.behavior r) h answer k) (admits : Admits h r) (stands : Stands h) : Stands k

variable {care care' : Care L} {h k m : Heap L} {i : Nat} {v first last : Ref L} {c : Ref L × Ref L}
  {cells cells' : List Nat} {refs refs' : List (Ref L)}

/-- The part of the books that the heap alone has to bear out: which cells are permanent, and what
must not be lost. -/
structure Stock (care : Care L) (cells : List Nat) (refs : List (Ref L)) (h : Heap L) : Prop where
  sound : h.Sound
  distinct : cells.Nodup
  own : ∀ i, h.Fixed i ↔ i ∈ cells
  kept : ∀ v ∈ refs, care.Guards h v
  stands : care.Stands h

namespace Stock

theorem filed_cells (stock : Stock care cells refs h) (filed : Filed h k i c)
    (distinct : cells'.Nodup) (own : ∀ j, j ∈ cells' ↔ j ∈ cells ∨ j = i) :
    Stock care cells' refs k where
  sound := filed.sound
  distinct := distinct
  own j := by rw [filed.fixed, own, stock.own]
  kept v on := care.guards_filed filed (stock.kept v on)
  stands := care.stands_filed filed stock.stands

/-- Another permanent cell. -/
theorem born (stock : Stock care cells refs h) (filed : Filed h k i c) (new : ¬h.InUse i) :
    Stock care (i :: cells) refs k :=
  stock.filed_cells filed
    (List.nodup_cons.mpr ⟨fun on => new (Or.inr ((stock.own i).mpr on)), stock.distinct⟩)
    fun j => by rw [List.mem_cons, or_comm]

/-- A permanent cell that holds something else. -/
theorem wrote (stock : Stock care cells refs h) (filed : Filed h k i c) (on : i ∈ cells) :
    Stock care cells refs k :=
  stock.filed_cells filed stock.distinct fun _ =>
    ⟨Or.inl, fun either => either.elim id fun same => same ▸ on⟩

theorem sorted (stock : Stock care cells refs h) (perm : cells'.Perm cells)
    (kept : ∀ v ∈ refs', care.Guards h v) : Stock care cells' refs' h where
  sound := stock.sound
  distinct := perm.nodup_iff.mpr stock.distinct
  own j := by rw [stock.own, perm.mem_iff]
  kept := kept
  stands := stock.stands

/-- Cells change their place in the books, and no new reference has to be kept. -/
theorem moved {b b' : Books L} (stock : Stock care b.cells b.refs h)
    (perm : b'.cells.Perm b.cells) (roots : ∀ x ∈ b'.roots, x ∈ b.roots)
    (entries : ∀ e ∈ b'.entries, e ∈ b.entries) : Stock care b'.cells b'.refs h :=
  stock.sorted perm fun v on => stock.kept v (Books.refs_mono roots entries on)

theorem fixed (stock : Stock care cells refs h) (on : i ∈ cells) : h.Fixed i :=
  (stock.own i).mpr on

theorem inUse (stock : Stock care cells refs h) (on : i ∈ cells) : h.InUse i :=
  Or.inr (stock.fixed on)

/-- Distinct permanent cells are no more than there are cells. -/
theorem length_le (stock : Stock care cells refs h) (nodup : cells'.Nodup)
    (on : ∀ i ∈ cells', i ∈ cells) : cells'.length ≤ h.cells.size := by
  have bounded : cells'.Subperm (List.range h.cells.size) := nodup.subperm fun i member =>
    List.mem_range.mpr (stock.fixed (on i member)).2.1
  simpa using bounded.length_le

end Stock

/-- The mailbox holds these letters. -/
structure Mailed (h : Heap L) (first last : Ref L) (mail : List (Letter L)) : Prop where
  chain : h.Leads first (mail.map Letter.node) .nil
  letters : ∀ l ∈ mail, (h.contents l.node).1.Points l.entry.cell
  last : mail = [] ∧ last = .nil ∨ ∃ rest l, mail = rest ++ [l] ∧ last.Points l.node

theorem Mailed.congr {mail : List (Letter L)} (mailed : Mailed h first last mail)
    (same : ∀ l ∈ mail, k.contents l.node = h.contents l.node) : Mailed k first last mail where
  chain := mailed.chain.congr fun i on => by
    obtain ⟨l, member, rfl⟩ := List.mem_map.mp on
    exact same l member
  letters l on := by
    rw [same l on]
    exact mailed.letters l on
  last := mailed.last

/-- The cells of an alarm refer to one another, and one holds the time. -/
structure Wired (h : Heap L) (a : Alarm L) : Prop where
  timer : (h.contents a.node).1.Points a.timer
  time : (h.contents a.timer).1.Points a.time
  entry : (h.contents a.timer).2.Points a.entry.cell
  seconds : (h.contents a.time).1.asNumber = .ok a.due.s
  micros : (h.contents a.time).2.asNumber = .ok a.due.us

/-- These alarms stand among the timers. -/
structure Timed (h : Heap L) (first : Ref L) (timers : List (Alarm L)) : Prop where
  chain : h.Leads first (timers.map Alarm.node) .nil
  alarms : ∀ a ∈ timers, Wired h a

theorem Wired.congr {a : Alarm L} (wired : Wired h a)
    (node : (k.contents a.node).1 = (h.contents a.node).1)
    (timer : k.contents a.timer = h.contents a.timer) (time : k.contents a.time = h.contents a.time) :
    Wired k a where
  timer := node ▸ wired.timer
  time := timer ▸ wired.time
  entry := timer ▸ wired.entry
  seconds := time ▸ wired.seconds
  micros := time ▸ wired.micros

theorem Timed.congr {timers : List (Alarm L)} (timed : Timed h first timers)
    (node : ∀ a ∈ timers, k.contents a.node = h.contents a.node)
    (timer : ∀ a ∈ timers, k.contents a.timer = h.contents a.timer)
    (time : ∀ a ∈ timers, k.contents a.time = h.contents a.time) : Timed k first timers where
  chain := timed.chain.congr fun i on => by
    obtain ⟨a, member, rfl⟩ := List.mem_map.mp on
    exact node a member
  alarms a on := (timed.alarms a on).congr (by rw [node a on]) (timer a on) (time a on)

/-- The part of the books that the fields of a world have to bear out. -/
structure Queued (b : Books L) (w : World L α γ) : Prop where
  mail : Mailed w.heap w.mailFirst w.mailLast b.mail
  timers : Timed w.heap w.timers b.timers
  pool : w.heap.Leads w.pool b.pool .nil
  roots : w.heap.Leads w.roots (b.roots.map Root.cell) .nil
  values : ∀ x ∈ b.roots, (w.heap.contents x.cell).1 = x.value
  entries : ∀ e ∈ b.entries, w.heap.contents e.cell = (e.note.target, e.note.message)
  pending : w.pending = b.mail.length
  delayed : w.delayed = b.timers.length
  current : w.inDelivery = b.current
  clock : w.now = b.now

theorem Queued.withHeap {b : Books L} {w : World L α γ} (queued : Queued b w)
    (same : ∀ i ∈ b.filed, k.contents i = w.heap.contents i) : Queued b { w with heap := k } where
  mail := queued.mail.congr fun _ on => same _ (Books.node_filed (Books.letter_node on))
  timers := queued.timers.congr (fun _ on => same _ (Books.node_filed (Books.alarm_node on).1))
    (fun _ on => same _ (Books.node_filed (Books.alarm_node on).2))
    fun _ on => same _ (Books.node_filed (Books.alarm_time on))
  pool := queued.pool.congr fun _ on => same _ (Books.node_filed (Books.pool_node on))
  roots := queued.roots.congr fun i on => by
    obtain ⟨x, member, rfl⟩ := List.mem_map.mp on
    exact same _ (Books.root_filed member)
  values x on := by rw [same _ (Books.root_filed on), queued.values x on]
  entries e on := by rw [same _ (Books.entry_filed on), queued.entries e on]
  pending := queued.pending
  delayed := queued.delayed
  current := queued.current
  clock := queued.clock

/-- The books of a world are in order. -/
structure Kept (care : Care L) (b : Books L) (w : World L α γ) : Prop
    extends Queued b w where
  stock : Stock care b.cells b.refs w.heap
  used : w.poolUsed = b.taken
  most : w.poolMax = w.poolUsed + b.pool.length

namespace Kept
variable {b : Books L} {w : World L α γ} {held : List (Entry L)} {hand lost : List Nat}

/-- Work on the heap that leaves the books in order. -/
theorem withHeap (kept : Kept care b w) (stock : Stock care' b.cells b.refs k)
    (same : ∀ i ∈ b.filed, k.contents i = w.heap.contents i) :
    Kept care' b { w with heap := k } where
  toQueued := kept.toQueued.withHeap same
  stock := stock
  used := kept.used
  most := kept.most

/-- A cell in hand is written. -/
theorem wrote (kept : Kept care b w) (filed : Filed w.heap k i c) (on : i ∈ b.hand) :
    Kept care b { w with heap := k } :=
  kept.withHeap (kept.stock.wrote filed (Books.hand_cells on)) fun j other =>
    filed.contents j (kept.stock.inUse (Books.filed_cells other)) fun same =>
      Books.not_filed_of_hand kept.stock.distinct on (same ▸ other)

theorem entry {e : Entry L} (kept : Kept care b w) (on : e ∈ b.entries) :
    ∀ v ∈ e.refs, care.Guards w.heap v :=
  fun v slot => kept.stock.kept v (Books.mem_refs.mpr (Or.inr ⟨e, on, slot⟩))

/-- Cells that stand in no queue change their place in the books. -/
theorem sorted (kept : Kept care b w)
    (perm : (held.map Entry.cell ++ hand ++ lost).Perm (b.held.map Entry.cell ++ b.hand ++ b.lost))
    (filled : ∀ e ∈ held, w.heap.contents e.cell = (e.note.target, e.note.message))
    (safe : ∀ e ∈ held, ∀ v ∈ e.refs, care.Guards w.heap v) :
    Kept care { b with held, hand, lost } w where
  stock := kept.stock.sorted
    (by
      have front := (perm.append_left (b.nodes ++ b.roots.map Root.cell ++
        (b.mail.map Letter.entry ++ b.timers.map Alarm.entry).map Entry.cell)).append_right b.granted
      simpa only [Books.cells, Books.own, Books.filed, Books.nodes, Books.entries, List.map_append,
        List.append_assoc] using front)
    (fun v on => by
      rcases Books.mem_refs.mp on with ⟨x, root, rfl⟩ | ⟨e, entry, slot⟩
      · exact kept.stock.kept _ (Books.mem_refs.mpr (Or.inl ⟨x, root, rfl⟩))
      · rcases List.mem_append.mp entry with queued | outside
        · exact kept.entry (List.mem_append_left _ queued) v slot
        · exact safe e outside v slot)
  toQueued := { kept.toQueued with
    entries := fun e on => by
      rcases List.mem_append.mp on with queued | outside
      · exact kept.entries e (List.mem_append_left _ queued)
      · exact filled e outside }
  used := by
    have := perm.length_eq
    simp only [List.length_append, List.length_map] at this
    rw [kept.used]
    simp only [Books.taken]
    omega
  most := kept.most

/-- An entry that was held is lost. -/
theorem abandoned {e : Entry L} (kept : Kept care b w) (shape : b.held = e :: held) :
    Kept care { b with held := held, lost := e.cell :: b.lost } w := by
  have on : ∀ x ∈ held, x ∈ b.entries := fun x on => Books.held_entry (by simp [shape, on])
  refine kept.sorted ?_ (fun x member => kept.entries x (on x member)) fun x member =>
    kept.entry (on x member)
  rw [shape]
  refine List.perm_iff_count.mpr fun j => ?_
  simp only [List.map_cons, List.count_append, List.count_cons]
  omega

end Kept

/-- `u` differs from `w` at most in what the books leave aside. -/
structure Beside (w u : World L α γ) : Prop where
  heap : u.heap = w.heap
  mailFirst : u.mailFirst = w.mailFirst
  mailLast : u.mailLast = w.mailLast
  pending : u.pending = w.pending
  inDelivery : u.inDelivery = w.inDelivery
  timers : u.timers = w.timers
  delayed : u.delayed = w.delayed
  roots : u.roots = w.roots
  pool : u.pool = w.pool
  poolUsed : u.poolUsed = w.poolUsed
  poolMax : u.poolMax = w.poolMax
  now : u.now = w.now

theorem Kept.beside {b : Books L} {w u : World L α γ} (kept : Kept care b w) (beside : Beside w u) :
    Kept care b u where
  mail := by
    rw [beside.heap, beside.mailFirst, beside.mailLast]
    exact kept.mail
  timers := by
    rw [beside.heap, beside.timers]
    exact kept.timers
  pool := by
    rw [beside.heap, beside.pool]
    exact kept.pool
  roots := by
    rw [beside.heap, beside.roots]
    exact kept.roots
  values := by
    rw [beside.heap]
    exact kept.values
  entries := by
    rw [beside.heap]
    exact kept.entries
  pending := beside.pending.trans kept.pending
  delayed := beside.delayed.trans kept.delayed
  current := beside.inDelivery.trans kept.current
  clock := beside.now.trans kept.clock
  stock := by
    rw [beside.heap]
    exact kept.stock
  used := beside.poolUsed.trans kept.used
  most := by
    rw [beside.poolMax, beside.poolUsed]
    exact kept.most

end World

end Treadmill

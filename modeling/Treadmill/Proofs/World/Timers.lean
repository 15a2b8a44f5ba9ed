import Mathlib
import Treadmill.Proofs.World.Mailbox

/-!
The timers. A message that is sent later finds its place in the chain by reads alone; one that is due
moves to the mailbox with its entry, and its other cells go back to the pool.
-/

namespace Treadmill

namespace Ref
variable {L : Layout} {n : Int} {r : Ref L}

theorem numberOfField_ofNat (low : minNumber L ≤ n) (high : n ≤ maxNumber L) :
    numberOfField L (UInt64.ofNat (n % 2 ^ L.fieldBits .number).toNat) = n := by
  rw [numberOfField, toNat_ofNat_of_fits (number_field_lt L n)]
  unfold minNumber at low
  unfold maxNumber at high
  cases L <;> simp only [Layout.fieldBits] at low high ⊢ <;> rw [Int.bmod_def] <;> omega

theorem of_number (named : number n = .ok r) : r.target? = none ∧ r.asNumber = .ok n := by
  unfold number number? at named
  split at named
  · rename_i found
    split at found
    · rename_i range
      rw [Option.some.injEq] at found
      rw [Except.ok.injEq] at named
      subst named
      subst found
      constructor
      · simp [target?, isCons, isPair, isActor, kind_make]
      · simp only [asNumber, expect, kind_make, field_make, numberOfField_ofNat range.1 range.2]
        rfl
    · cases found
  · cases named

theorem number_ok (low : minNumber L ≤ n) (high : n ≤ maxNumber L) :
    ∃ r : Ref L, number n = .ok r := by
  simp [number, number?, low, high]

theorem number_range (named : number n = .ok r) : minNumber L ≤ n ∧ n ≤ maxNumber L := by
  unfold number number? at named
  split at named
  · rename_i found
    split at found
    · assumption
    · cases found
  · cases named

theorem number_error {f : Fault} (failed : (number n : Except Fault (Ref L)) = .error f) :
    f = .numberRange n L ∧ ¬(minNumber L ≤ n ∧ n ≤ maxNumber L) := by
  constructor
  · unfold number at failed
    split at failed
    · cases failed
    · exact (Except.error.inj failed).symm
  · intro range
    obtain ⟨r, named⟩ := number_ok range.1 range.2
    rw [named] at failed
    cases failed

/-- Every layout has room for the microseconds in a moment. -/
theorem number_micros_ok (low : 0 ≤ n) (high : n < secondUs) : ∃ r : Ref L, number n = .ok r := by
  unfold secondUs at high
  refine number_ok ?_ ?_ <;> cases L <;> simp [minNumber, maxNumber, Layout.fieldBits] <;> omega

end Ref

/-- Whether an alarm is due when the clock shows `reading`. -/
def Alarm.isDue {L : Layout} (reading : Moment) (a : Alarm L) : Bool := a.toTimer.isDue reading

namespace World
open Heap (Filed)
variable {L : Layout} {α γ : Type} {s : Logged (World L α γ)} {w : World L α γ} {b : Books L}
  {care : Care L} {n i m t : Nat} {e : Entry L} {entry node before after first target message : Ref L}
  {h k : Heap L} {failed : Fault → World L α γ → Prop} {hand : List Nat}
  {held : List (Entry L)} {a z : Alarm L} {front timers more : List (Alarm L)} {due reading : Moment}

/-! ### Looking for a place -/

theorem dueTime_apply (kept : Kept care b s.state) (on : a ∈ b.timers) (points : node.Points a.node) :
    dueTime node s = .ok a.due s := by
  have wired := kept.timers.alarms a on
  have node := Books.filed_cells (Books.node_filed (Books.alarm_node on).1)
  have timer := Books.filed_cells (Books.node_filed (Books.alarm_node on).2)
  have time := Books.filed_cells (Books.node_filed (Books.alarm_time on))
  refine Task.bind_eq_ok.mpr ⟨_, s, kept.first_apply points node, ?_⟩
  refine Task.bind_eq_ok.mpr ⟨_, s, kept.first_apply wired.timer timer, ?_⟩
  refine Task.bind_eq_ok.mpr ⟨_, s, kept.first_apply wired.time time, ?_⟩
  refine Task.bind_eq_ok.mpr ⟨_, s, kept.rest_apply wired.time time, ?_⟩
  simp only [Task.bind_apply, wired.seconds, wired.micros, Task.ofExcept_ok]
  rfl

/-- `r` refers to the last of some alarms, if there is one. -/
def Behind (r : Ref L) (front : List (Alarm L)) : Prop :=
  front = [] ∧ r = .nil ∨ ∃ rest a, front = rest ++ [a] ∧ r.Points a.node

theorem timerPlaceFrom_apply (due : Moment) {limit : Nat} (kept : Kept care b s.state)
    (shape : b.timers = front ++ more) (behind : Behind before front)
    (leads : s.state.heap.Leads node (more.map Alarm.node) .nil) (enough : more.length < limit) :
    ∃ before' after, timerPlaceFrom due limit before node s = .ok (before', after) s ∧
      Behind before' (front ++ more.takeWhile (Alarm.isDue due)) ∧
      s.state.heap.Leads after ((more.dropWhile (Alarm.isDue due)).map Alarm.node) .nil := by
  induction limit generalizing front more before node with
  | zero => cases enough
  | succ limit ih =>
    have isNil := leads.isNil
    cases more with
    | nil => exact ⟨before, node, by simp [timerPlaceFrom, isNil], by simpa using behind, leads⟩
    | cons a more =>
      have on : a ∈ b.timers := by simp [shape]
      have read := dueTime_apply kept on leads.1
      by_cases early : due < a.due
      · refine ⟨before, node, ?_, ?_, ?_⟩
        · simp [timerPlaceFrom, isNil, Task.bind_apply, read, early]
        · simpa [Alarm.isDue, Timer.isDue, Alarm.toTimer, early] using behind
        · simpa [Alarm.isDue, Timer.isDue, Alarm.toTimer, early] using leads
      · have next := kept.rest_apply leads.1 (Books.filed_cells (Books.alarm_filed on))
        obtain ⟨before', after, found, behind', leads'⟩ := ih
          (show b.timers = (front ++ [a]) ++ more by simp [shape]) (Or.inr ⟨front, a, rfl, leads.1⟩) leads.2
          (by simpa using enough)
        refine ⟨before', after, ?_, ?_, ?_⟩
        · rw [timerPlaceFrom, isNil]
          refine Task.bind_eq_ok.mpr ⟨_, s, read, ?_⟩
          rw [if_neg early]
          exact Task.bind_eq_ok.mpr ⟨_, s, next, found⟩
        · simpa [Alarm.isDue, Timer.isDue, Alarm.toTimer, early] using behind'
        · simpa [Alarm.isDue, Timer.isDue, Alarm.toTimer, early] using leads'

/-! ### Putting in -/

theorem Timed.cons (timed : Timed h first timers) (wired : Wired h a) (points : node.Points a.node)
    (leads : h.Leads (h.contents a.node).2 (timers.map Alarm.node) .nil) :
    Timed h node (a :: timers) where
  chain := ⟨points, leads⟩
  alarms x on := by
    rcases List.mem_cons.mp on with rfl | on
    · exact wired
    · exact timed.alarms x on

/-- An alarm is linked behind `z`. -/
theorem Timed.insert (timed : Timed h first (front ++ z :: more)) (wired : Wired k a)
    (points : node.Points a.node) (leads : k.Leads (k.contents a.node).2 (more.map Alarm.node) .nil)
    (linked : k.contents z.node = ((h.contents z.node).1, node))
    (nodes : ∀ x ∈ front ++ more, k.contents x.node = h.contents x.node)
    (timer : ∀ x ∈ front ++ z :: more, k.contents x.timer = h.contents x.timer)
    (time : ∀ x ∈ front ++ z :: more, k.contents x.time = h.contents x.time) :
    Timed k first (front ++ z :: a :: more) where
  chain := by
    have chain := timed.chain
    rw [List.map_append, List.map_cons, Heap.leads_append] at chain
    obtain ⟨q, upTo, points', -⟩ := chain
    rw [List.map_append, List.map_cons, List.map_cons, Heap.leads_append]
    refine ⟨q, upTo.congr fun i on => ?_, points', ?_⟩
    · obtain ⟨x, member, rfl⟩ := List.mem_map.mp on
      exact nodes x (by simp [member])
    · rw [linked]
      exact ⟨points, leads⟩
  alarms x on := by
    by_cases new : x = a
    · exact new ▸ wired
    · have old : x ∈ front ++ z :: more := by
        simp only [List.mem_append, List.mem_cons] at on ⊢
        tauto
      refine (timed.alarms x old).congr ?_ (timer x old) (time x old)
      by_cases last : x = z
      · rw [last, linked]
      · rw [nodes x (by simp only [List.mem_append, List.mem_cons] at old ⊢; tauto)]

/-- The entry `e` and three cells in hand become an alarm. -/
theorem Kept.armed (kept : Kept care b w) (inHand : b.hand = n :: m :: t :: hand)
    (isHeld : b.held = e :: held) (shape : b.timers = front ++ more)
    (stock : Stock care b.cells b.refs k)
    (same : ∀ i ∈ b.filed, i ∉ b.timers.map Alarm.node → k.contents i = w.heap.contents i)
    (timed : Timed k first (front ++ ⟨n, m, t, due, e⟩ :: more)) :
    Kept care { b with timers := front ++ ⟨n, m, t, due, e⟩ :: more, held := held, hand := hand }
      { w with heap := k, timers := first, delayed := w.delayed + 1 } := by
  have apart := fun i (on : i ∈ b.timers.map Alarm.node) =>
    Books.alarm_apart kept.stock.distinct on
  have node : ∀ i ∈ b.timers.map Alarm.node, i ∈ b.nodes := fun i on => by
    simp only [Books.nodes, List.mem_append]
    tauto
  obtain ⟨roots, entries⟩ := kept.beside_nodes node same
  have subset : ∀ x ∈ ({ b with timers := front ++ ⟨n, m, t, due, e⟩ :: more, held } : Books L).entries,
      x ∈ b.entries := fun x on => by
    simp only [Books.entries, isHeld, shape, List.map_append, List.map_cons, List.mem_append,
      List.mem_cons] at on ⊢
    tauto
  refine
    { mail := kept.mail.congr fun l on => same _ (Books.node_filed (Books.letter_node on)) fun other =>
        (apart _ other).1 (List.mem_map_of_mem on)
      timers := timed
      pool := kept.pool.congr fun i on => same _ (Books.node_filed (Books.pool_node on)) fun other =>
        (apart _ other).2.2.2 on
      roots := kept.roots.congr fun i on => by
        obtain ⟨x, member, rfl⟩ := List.mem_map.mp on
        exact roots x member
      values := fun x on => by rw [roots x on, kept.values x on]
      entries := fun x on => by rw [entries x (subset x on), kept.entries x (subset x on)]
      pending := kept.pending
      delayed := ?_
      current := kept.current
      clock := kept.clock
      stock := ?_
      used := ?_
      most := kept.most }
  · simp only [kept.delayed, shape, List.length_append, List.length_cons]
    omega
  · refine stock.moved (List.perm_iff_count.mpr fun i => ?_) (fun _ => id) subset
    simp only [Books.cells, Books.own, Books.filed, Books.nodes, Books.entries, inHand, isHeld, shape,
      List.map_append, List.map_cons, List.count_append, List.count_cons]
    omega
  · rw [show w.poolUsed = _ from kept.used]
    simp only [Books.taken, inHand, isHeld, shape, List.length_append, List.length_cons]
    omega

theorem linkTimer_ends (kept : Kept care b s.state) (inHand : b.hand = n :: m :: t :: hand)
    (isHeld : b.held = e :: held) (shape : b.timers = front ++ more) (behind : Behind before front)
    (points : node.Points n) (wired : Wired s.state.heap ⟨n, m, t, due, e⟩)
    (leads : s.state.heap.Leads (s.state.heap.contents n).2 (more.map Alarm.node) .nil) :
    (do linkTimer before node; Task.alter fun w => { w with delayed := w.delayed + 1 } :
      WorldTask L α γ Unit).Ends s
      (fun _ u => Kept care { b with timers := front ++ ⟨n, m, t, due, e⟩ :: more, held, hand } u)
      failed := by
  have timed := kept.timers
  have distinct := kept.stock.distinct
  rw [shape] at timed
  rcases behind with ⟨rfl, rfl⟩ | ⟨rest, z, rfl, points'⟩
  · have linked : linkTimer .nil node s = .ok () ⟨{ s.state with timers := node }, s.journal⟩ := by
      simp [linkTimer]
    refine Task.ends_bind_ok linked (Task.ends_of_ok (Task.alter_apply _ _) ?_)
    exact kept.armed inHand isHeld shape kept.stock (fun _ _ _ => rfl) (timed.cons wired points leads)
  · rw [List.append_assoc] at timed shape
    have lastNode : z.node ∈ b.timers.map Alarm.node := by simp [shape]
    have onNode : z.node ∈ b.nodes := (Books.alarm_node (by simp [shape])).1
    have onLast := Books.filed_cells (Books.node_filed onNode)
    obtain ⟨k, j, wrote, filed, -⟩ := kept.stock.sound.setRest_own
      (s := ⟨s.state.heap, s.journal⟩) points' (kept.stock.fixed onLast)
      (kept.holds points (Books.hand_cells (b := b) (by simp [inHand])))
    have linked : linkTimer before node s = .ok () ⟨{ s.state with heap := k }, j⟩ := by
      simp only [linkTimer, points'.isNil]
      exact onHeap_ok wrote
    have others : ∀ i ∈ b.cells, i ≠ z.node → k.contents i = s.state.heap.contents i :=
      fun i on => filed.contents i (kept.stock.inUse on)
    have inHand' : ∀ i ∈ b.hand, k.contents i = s.state.heap.contents i := fun i on =>
      others i (Books.hand_cells on) fun same => Books.not_filed_of_hand distinct on
        (same ▸ Books.node_filed onNode)
    have apart := Books.alarm_apart distinct lastNode
    have onTimers : ∀ x ∈ rest ++ z :: more, x ∈ b.timers := fun x on => by simpa [shape] using on
    have nodes : ∀ x ∈ rest ++ more, k.contents x.node = s.state.heap.contents x.node := fun x on => by
      have member : x ∈ b.timers := onTimers x (by
        simp only [List.mem_append, List.mem_cons] at on ⊢
        tauto)
      exact others _ (Books.filed_cells (Books.alarm_filed member))
        (Books.node_apart distinct shape on)
    refine Task.ends_bind_ok linked (Task.ends_of_ok (Task.alter_apply _ _) ?_)
    refine kept.armed inHand isHeld (shape.trans (List.append_assoc ..).symm)
      (kept.stock.wrote filed onLast) (fun i on other => others i (Books.filed_cells on) fun same =>
        other (same ▸ lastNode)) ?_
    rw [List.append_assoc]
    refine timed.insert (wired.congr ?_ ?_ ?_) points ?_ filed.filled nodes (fun x on => ?_) fun x on => ?_
    · rw [inHand' n (by simp [inHand])]
    · exact inHand' m (by simp [inHand])
    · exact inHand' t (by simp [inHand])
    · rw [inHand' n (by simp [inHand])]
      refine leads.congr fun i on => ?_
      obtain ⟨x, member, rfl⟩ := List.mem_map.mp on
      exact nodes x (by simp [member])
    · have member := onTimers x on
      exact others _ (Books.filed_cells (Books.node_filed (Books.alarm_node member).2)) fun same =>
        apart.2.1 (same ▸ List.mem_map_of_mem member)
    · have member := onTimers x on
      exact others _ (Books.filed_cells (Books.node_filed (Books.alarm_time member))) fun same =>
        apart.2.2.1 (same ▸ List.mem_map_of_mem member)

/-- A timer in hand is linked behind those due no later than it is. -/
theorem placeTimer_ends {timer : Ref L} (kept : Kept care b s.state) (isHeld : b.held = e :: held)
    (inHand : b.hand = m :: t :: hand) (isTimer : timer.Points m)
    (time : (s.state.heap.contents m).1.Points t) (entry : (s.state.heap.contents m).2.Points e.cell)
    (seconds : (s.state.heap.contents t).1.asNumber = .ok due.s)
    (micros : (s.state.heap.contents t).2.asNumber = .ok due.us)
    (full : ∀ w, w.Full → failed .arenaExhausted w) :
    (do let limit ← onHeap Heap.walkLimit
        let (before, after) ← timerPlaceFrom due limit .nil (← Task.view (·.timers))
        let node ← take timer after
        linkTimer before node
        Task.alter fun w => { w with delayed := w.delayed + 1 } : WorldTask L α γ Unit).Ends s
      (fun _ u => ∃ n pool, Kept care { b with
        timers := b.timers.takeWhile (Alarm.isDue due) ++
          ⟨n, m, t, due, e⟩ :: b.timers.dropWhile (Alarm.isDue due)
        held, hand, pool } u) failed := by
  obtain ⟨limit, limited, enough⟩ := kept.walkLimit_apply (Books.queues_nodup kept.stock.distinct).2.2
    fun i on => by
      obtain ⟨x, member, rfl⟩ := List.mem_map.mp on
      exact Books.filed_cells (Books.alarm_filed member)
  rw [List.length_map] at enough
  refine Task.ends_bind_ok limited (Task.ends_view ?_)
  obtain ⟨before, after, found, behind, leads⟩ := timerPlaceFrom_apply
    due kept (List.nil_append _).symm (Or.inl ⟨rfl, rfl⟩) kept.timers.chain enough
  refine Task.ends_bind_ok found ?_
  have shape : b.timers = b.timers.takeWhile (Alarm.isDue due) ++ b.timers.dropWhile (Alarm.isDue due) :=
    (List.takeWhile_append_dropWhile).symm
  have later : ∀ x ∈ b.timers.dropWhile (Alarm.isDue due), x ∈ b.timers :=
    fun x on => (List.dropWhile_sublist _).subset on
  have holdsAfter := leads.holds fun i on => by
    obtain ⟨x, member, rfl⟩ := List.mem_map.mp on
    exact kept.stock.fixed (Books.filed_cells (Books.alarm_filed (later x member)))
  refine (take_ends kept (kept.holds isTimer (Books.hand_cells (by simp [inHand]))) holdsAfter full).bind ?_
  rintro node u ⟨n, isNode, taken⟩
  have distinct := taken.kept.stock.distinct
  have others : ∀ i ∈ b.cells, i ≠ n → u.state.heap.contents i = s.state.heap.contents i :=
    fun i on => taken.filed.contents i (kept.stock.inUse on)
  have hand' : (b.draw n).hand = n :: m :: t :: hand := congrArg (n :: ·) inHand
  have timerHere := others m (Books.hand_cells (by simp [inHand])) (Books.hand_apart distinct hand')
  have timeHere := others t (Books.hand_cells (by simp [inHand])) (Books.hand_apart_third distinct hand')
  have nodes : ∀ a ∈ b.timers.dropWhile (Alarm.isDue due),
      u.state.heap.contents a.node = s.state.heap.contents a.node := by
    intro a on
    refine others _ (Books.filed_cells (Books.alarm_filed (later a on))) fun same => ?_
    refine Books.not_filed_of_head distinct rfl ?_
    rw [← same]
    exact Books.alarm_filed (later a on)
  refine (linkTimer_ends taken.kept hand' isHeld shape behind isNode ?_ ?_).mono
    (fun _ u armed => ⟨n, _, armed⟩) fun _ _ => id
  · constructor
    · rwa [taken.filed.filled]
    · rwa [timerHere]
    · rwa [timerHere]
    · rwa [timeHere]
    · rwa [timeHere]
  · rw [taken.filed.filled]
    exact leads.congr fun i on => by
      obtain ⟨x, member, rfl⟩ := List.mem_map.mp on
      exact nodes x member

/-- A message that is to wait becomes an alarm among those due earlier and those due later. If the
layout has no room for its due time, its entry is lost. -/
theorem sendAfter_ends (kept : Kept care b s.state) (admitsTarget : care.Admits s.state.heap target)
    (admitsMessage : care.Admits s.state.heap message) (delay : Int) (stamp : Nat)
    (full : ∀ w, w.Full → failed .arenaExhausted w)
    (refused : target.isActor = false → failed (.misuse .send target.value) s.state)
    (overflow : target.isActor = true → ∀ f, b.now.shift delay = .error f → failed f s.state)
    (outside : target.isActor = true → ∀ due c pool u, b.now.shift delay = .ok due →
      ¬(Ref.minNumber L ≤ due.s ∧ due.s ≤ Ref.maxNumber L) →
      Kept care { b with pool, lost := c :: b.lost } u → failed (.numberRange due.s L) u) :
    (sendAfter delay target message).Ends s
      (fun _ u => target.isActor = true ∧ ∃ a pool, b.now.shift delay = .ok a.due ∧
        (Ref.minNumber L ≤ a.due.s ∧ a.due.s ≤ Ref.maxNumber L) ∧
        a.entry.note = ⟨stamp, target, message⟩ ∧
        Kept care { b with
          timers := b.timers.takeWhile (Alarm.isDue a.due) ++ a :: b.timers.dropWhile (Alarm.isDue a.due)
          pool } u) failed := by
  refine Task.ends_require (fun isActor => Task.ends_view ?_) refused
  rw [kept.clock]
  refine Task.ends_ofExcept (fun due isDue => ?_) (overflow isActor)
  refine (take_ends kept (care.holds admitsTarget) (care.holds admitsMessage) full).bind ?_
  rintro entry u ⟨e, names, taken⟩
  have kept := taken.entry admitsTarget admitsMessage stamp
  refine Task.ends_ofExcept (fun sec isSec => ?_) fun f none => ?_
  swap
  · rw [(Ref.number_error none).1]
    exact outside isActor due e _ _ isDue (Ref.number_error none).2 (kept.abandoned rfl)
  have normal := (Moment.of_shift isDue).1
  refine Task.ends_ofExcept (fun us isUs => ?_) fun f none => ?_
  swap
  · obtain ⟨r, some⟩ := Ref.number_micros_ok (L := L) normal.1 normal.2
    rw [some] at none
    cases none
  obtain ⟨blankSec, readSec⟩ := Ref.of_number isSec
  obtain ⟨blankUs, readUs⟩ := Ref.of_number isUs
  refine (take_ends kept (care.holds (care.blank blankSec)) (care.holds (care.blank blankUs))
    full).bind ?_
  rintro time u ⟨t, isTime, taken⟩
  have kept := taken.kept
  have holdsTime := taken.filed.filled
  refine (take_ends kept (kept.holds isTime (Books.hand_cells (by simp [Books.draw])))
    (kept.holds names (Books.head_cells (e := ⟨e, stamp, target, message⟩) rfl)) full).bind ?_
  rintro timer v ⟨m, isTimer, taken⟩
  have timerHere := taken.filed.filled
  have timeHere : v.state.heap.contents t = (sec, us) := by
    rw [taken.filed.contents t (kept.stock.inUse (Books.hand_cells (by simp [Books.draw])))
      (Books.hand_apart taken.kept.stock.distinct rfl), holdsTime]
  refine (placeTimer_ends taken.kept rfl rfl isTimer (by rwa [timerHere]) (by rwa [timerHere])
    (by rwa [timeHere]) (by rwa [timeHere]) full).mono (fun _ u placed => ?_) fun _ _ => id
  obtain ⟨n, pool, armed⟩ := placed
  exact ⟨isActor, ⟨n, m, t, due, _⟩, pool, isDue, Ref.number_range isSec, rfl, armed⟩

/-! ### Firing -/

/-- The first alarm is taken out: its entry is held from now on, and its other cells are in hand. -/
theorem Kept.rung (kept : Kept care b w) (shape : b.timers = a :: timers) :
    Kept care
      { b with timers, held := a.entry :: b.held, hand := a.time :: a.timer :: a.node :: b.hand }
      { w with timers := (w.heap.contents a.node).2, delayed := w.delayed - 1 } := by
  have timed := kept.timers
  rw [shape] at timed
  have subset : ∀ x ∈ ({ b with timers, held := a.entry :: b.held } : Books L).entries,
      x ∈ b.entries := fun x on => by
    simp only [Books.entries, shape, List.map_cons, List.mem_append, List.mem_cons] at on ⊢
    tauto
  refine { toQueued := { kept.toQueued with
             timers := ⟨timed.chain.2, fun x on => timed.alarms x (by simp [on])⟩
             delayed := ?_
             entries := fun x on => kept.entries x (subset x on) },
           stock := ?_, used := ?_, most := kept.most }
  · simp [kept.delayed, shape]
  · refine kept.stock.moved (List.perm_iff_count.mpr fun i => ?_) (fun _ => id) subset
    simp only [Books.cells, Books.own, Books.filed, Books.nodes, Books.entries, shape, List.map_append,
      List.map_cons, List.count_append, List.count_cons]
    omega
  · rw [show w.poolUsed = _ from kept.used]
    simp only [Books.taken, shape, List.length_cons]
    omega

theorem fire_ends (kept : Kept care b s.state) (shape : b.timers = a :: timers)
    (points : node.Points a.node) (full : ∀ w, w.Full → failed .arenaExhausted w) :
    (fire node).Ends s (fun _ u => ∃ n, Kept care (b.fire a timers n) u) failed := by
  have on : a ∈ b.timers := by simp [shape]
  have wired := kept.timers.alarms a on
  have isNode := Books.filed_cells (Books.alarm_filed on)
  have isTimer := Books.filed_cells (Books.node_filed (Books.alarm_node on).2)
  refine kept.ends_first points isNode (kept.ends_first wired.timer isTimer
    (kept.ends_rest wired.timer isTimer (kept.ends_rest points isNode (Task.ends_alter
      (Task.ends_view (Task.ends_require (fun _ => Task.ends_alter ?_) fun none => ?_))))))
  · have rung := kept.rung shape
    refine (enqueue_ends rung rfl wired.entry full).bind ?_
    rintro - u ⟨n, posted⟩
    refine (recycle_ends posted rfl wired.time).bind fun _ u one => ?_
    refine (recycle_ends one rfl wired.timer).bind fun _ u two => ?_
    exact (recycle_ends two rfl points).mono (fun _ _ three => ⟨n, three⟩) fun _ _ => id
  · have delayed := kept.delayed
    simp only [shape, List.length_cons, decide_eq_false_iff_not] at none delayed
    omega

/-- The alarms that are due, up to the first one that is not, become letters. -/
theorem fireDue_ends {limit : Nat} (kept : Kept care b s.state) (enough : b.timers.length < limit)
    (full : ∀ w, w.Full → failed .arenaExhausted w) :
    (fireDue limit).Ends s
      (fun _ u => ∃ letters pool,
        letters.map Letter.entry = (b.timers.takeWhile (Alarm.isDue b.now)).map Alarm.entry ∧
        Kept care { b with
          mail := b.mail ++ letters
          timers := b.timers.dropWhile (Alarm.isDue b.now)
          pool } u) failed := by
  induction limit generalizing s b with
  | zero => cases enough
  | succ limit ih =>
    rw [fireDue]
    refine Task.ends_view ?_
    have chain := kept.timers.chain
    have isNil := chain.isNil
    cases shape : b.timers with
    | nil =>
      rw [shape] at isNil
      rw [isNil]
      refine Task.ends_pure ⟨[], b.pool, rfl, ?_⟩
      rwa [List.append_nil, List.dropWhile_nil, ← shape]
    | cons a timers =>
      rw [shape] at isNil chain
      rw [isNil]
      have read := dueTime_apply kept (a := a) (by simp [shape]) chain.1
      refine Task.ends_view (Task.ends_bind_ok read ?_)
      rw [kept.clock]
      by_cases early : b.now < a.due
      · rw [if_pos early]
        have notDue : a.isDue b.now = false := by simp [Alarm.isDue, Timer.isDue, Alarm.toTimer, early]
        refine Task.ends_pure ⟨[], b.pool, by simp [notDue], ?_⟩
        rwa [List.append_nil, List.dropWhile_cons_of_neg (by simp [notDue]), ← shape]
      · rw [if_neg early]
        have isDue : a.isDue b.now = true := by simp [Alarm.isDue, Timer.isDue, Alarm.toTimer, early]
        refine (fire_ends kept shape chain.1 full).bind ?_
        rintro - v ⟨n, fired⟩
        refine (ih fired (by simpa [Books.fire, shape] using enough)).mono ?_ fun _ _ => id
        rintro - u ⟨letters, pool, same, kept'⟩
        refine ⟨⟨n, a.entry⟩ :: letters, pool, by simpa [isDue, Books.fire] using same, ?_⟩
        simpa [isDue, Books.fire] using kept'

/-- The clock is set, and the alarms that are due become letters. -/
theorem tick_ends (kept : Kept care b s.state) (reading : Moment)
    (full : ∀ w, w.Full → failed .arenaExhausted w) :
    (tick reading).Ends s
      (fun _ u => ∃ letters pool,
        letters.map Letter.entry = (b.timers.takeWhile (Alarm.isDue reading)).map Alarm.entry ∧
        Kept care { b with
          mail := b.mail ++ letters
          timers := b.timers.dropWhile (Alarm.isDue reading)
          pool
          now := reading } u) failed := by
  have moved : Kept care { b with now := reading } { s.state with now := reading } :=
    { toQueued := { kept.toQueued with clock := rfl }
      stock := kept.stock
      used := kept.used
      most := kept.most }
  have enough : b.timers.length < s.state.delayed + 1 := by
    rw [kept.delayed]
    omega
  have fired := fireDue_ends (s := ⟨{ s.state with now := reading }, s.journal⟩) moved enough full
  exact Task.ends_alter (Task.ends_view fired)

end World

end Treadmill

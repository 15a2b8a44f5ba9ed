import Mathlib
import Treadmill.Proofs.World.Driven
import Treadmill.Proofs.World.Still

/-!
An actor that carries a cycle on in a world with nothing else to do. Each message that it sends itself
traces one cell (`Carries.traces`), so after as many messages as cells are in reach of the roots, and one
more, the cycle is over and the actor has retired (`Carries.runs`).
-/

namespace Treadmill.World
open Heap (Searching Still)
variable {L : Layout} {α γ : Type} {s : Logged (World L α γ)} {o w u : World L α γ} {b : Books L}
  {refs : List (Ref L)} {a : Ref L} {c n left : Nat} {l : Letter L} {mail : List (Letter L)}
  {reading : Moment} {care : Care L} {d : Opened L α} {e : Entry L} {held : List (Entry L)}

/-! ### What traces and what is left -/

/-- `w` has come of `o` in a cycle that keeps what is in reach of the references. So far `n` cells have
been traced, and the actor in the cell `c` traces on. -/
structure Scans (o : World L α γ) (refs : List (Ref L)) (c n : Nat) (w : World L α γ) : Prop where
  searching : Searching o.heap refs (· = c) w.heap
  collecting : w.heap.collecting = true
  cycles : w.heap.cycles = o.heap.cycles
  count : (w.heap.members .fresh).length = n + 1
  means : w.Means (w.heap.contents c).1 .trace

/-- `w` has come of `o` by a cycle that has kept what is in reach of the references, and the actor `a`,
in the cell `c`, has retired. -/
structure Ended (o : World L α γ) (refs : List (Ref L)) (a : Ref L) (c : Nat) (w : World L α γ) :
    Prop where
  collecting : w.heap.collecting = false
  cycles : w.heap.cycles = o.heap.cycles + 1
  fresh : ∀ i, i ∈ w.heap.members .fresh ↔ i ∈ o.heap.reached refs ∨ i = c
  contents : ∀ i ∈ o.heap.reached refs, w.heap.contents i = o.heap.contents i
  means : w.Means (w.heap.contents c).1 .sink
  state : (w.heap.contents c).2 = .nil

theorem Scans.fresh (scans : Scans o refs c n w) : c ∈ w.heap.members .fresh :=
  (scans.searching.young c rfl).2

theorem Scans.still (scans : Scans o refs c n w) (still : Still w.heap u.heap) (sound : u.heap.Sound)
    (broadens : w.Broadens u) : Scans o refs c n u where
  searching := scans.searching.still still sound
  collecting := still.collecting.trans scans.collecting
  cycles := still.cycles.trans scans.cycles
  count := by
    rw [← scans.count]
    exact ((List.perm_ext_iff_of_nodup (sound.threaded.nodup .fresh)
      (scans.searching.sound.threaded.nodup .fresh)).mpr still.fresh).length_eq
  means := by
    rw [still.contents c (Or.inl scans.fresh)]
    exact scans.means.broadened broadens

theorem Ended.still (ended : Ended o refs a c w) (still : Still w.heap u.heap)
    (broadens : w.Broadens u) : Ended o refs a c u where
  collecting := still.collecting.trans ended.collecting
  cycles := still.cycles.trans ended.cycles
  fresh i := (still.fresh i).trans (ended.fresh i)
  contents i on := by
    rw [still.contents i (Or.inl ((ended.fresh i).mpr (Or.inl on))), ended.contents i on]
  means := by
    rw [still.contents c (Or.inl ((ended.fresh c).mpr (Or.inr rfl)))]
    exact ended.means.broadened broadens
  state := by
    rw [still.contents c (Or.inl ((ended.fresh c).mpr (Or.inr rfl)))]
    exact ended.state

/-- No more cells have been traced than are in reach. -/
theorem Scans.few (scans : Scans o refs c n w) (sound : o.heap.Sound) (holds : ∀ v ∈ refs, o.heap.Holds v) :
    n ≤ (o.heap.reached refs).ncard := by
  have count := scans.count
  by_cases empty : w.heap.members .scan = []
  · have all := scans.searching.length_eq sound holds empty
    omega
  · have less := scans.searching.length_lt sound empty
    omega

section
variable (target : a.target? = some c)
include target

/-- The actor may be sent messages. -/
theorem Scans.admits (scans : Scans o refs c n w) : wary.Admits w.heap a := by
  refine ⟨Heap.holds_of_fresh target scans.fresh, fun i named danger => ?_⟩
  rw [target, Option.some.injEq] at named
  exact absurd (scans.searching.sound.threaded.apart danger (named ▸ scans.fresh)) (by decide)

theorem Scans.deliverable (scans : Scans o refs c n w) (isActor : a.isActor = true) :
    Deliverable w ⟨a, .nil⟩ where
  isActor := isActor
  behavior := by simp [scans.means.behaviorAt? target]
  target _ := by
    have notCons : a.isCons = false := by
      have kind : a.kind = .actor := by simpa [Ref.isActor] using isActor
      simp [Ref.isCons, Ref.isPair, kind]
    simp [showRef, Data.showRef, Data.showFrom, notCons, Writing.whole]
  message _ := by simp [showRef, Data.showRef, Data.showFrom, Ref.isCons, Ref.isNil_iff.mpr, Writing.whole]

end

/-! ### One delivery -/

theorem Scans.opens (scans : Scans o refs c n s.state) (kept : Kept wary b s.state) (shape : b.mail = l :: mail)
    (note : l.entry.refs = [a, .nil]) (target : a.target? = some c) (isActor : a.isActor = true) :
    openLetter.Ends s
      (fun d u => d.delivery = ⟨a, .nil⟩ ∧ d.behavior = .trace ∧ d.outer = b.current ∧
        d.entry.Points l.entry.cell ∧ Scans o refs c n u ∧ u.setup = s.state.setup ∧ Kept wary { b with
          mail, pool := l.node :: b.pool, held := l.entry :: b.held, current := d.entry } u)
      fun _ _ => False := by
  obtain ⟨this, what⟩ : l.entry.note.target = a ∧ l.entry.note.message = .nil := by
    simpa [Entry.refs] using note
  have admits : wary.Admits s.state.heap l.entry.note.target := this ▸ scans.admits target
  have ends := (openLetter_ends kept shape admits).and
    ((openLetter_stills kept shape).and (Steady.ends inferInstance s))
  rw [this, what] at ends
  refine ends.mono ?_ ?_
  · rintro d u ⟨⟨points, outer, delivery, behaves, kept⟩, still, same⟩
    have later := scans.still still kept.stock.sound (broadens_of_setup same)
    rw [later.means.behaviorAt? target, Option.some.injEq] at behaves
    exact ⟨delivery, behaves.symm, outer, points, later, same, kept⟩
  · rintro f u ⟨⟨-, kept, never⟩, still, same⟩
    have later := scans.still still kept.stock.sound (broadens_of_setup same)
    exact never (later.deliverable target isActor)

/-- One more cell is traced, and the actor sends itself another message. -/
theorem Scans.traces [DecidableEq α] (scans : Scans o refs c n s.state) (kept : Kept wary b s.state)
    (target : a.target? = some c) (isActor : a.isActor = true) (filled : s.state.heap.members .scan ≠ []) :
    (Actor.trace ⟨a, .nil⟩).Ends s
      (fun _ u => Scans o refs c (n + 1) u ∧ u.setup = s.state.setup ∧
        ∃ l pool, l.entry.refs = [a, .nil] ∧ Kept wary { b with mail := b.mail ++ [l], pool } u)
      (fun f u => f = .arenaExhausted ∧ u.Full) := by
  obtain ⟨k, found, -⟩ := Heap.traceStep_some (s := ⟨s.state.heap, s.journal⟩) kept.stock.sound filled
  obtain ⟨searching, traced, count⟩ := scans.searching.traced found
  have moved : Scans o refs c (n + 1) { s.state with heap := k } :=
    { searching
      collecting := traced.collecting.trans scans.collecting
      cycles := traced.cycles.trans scans.cycles
      count := by rw [count, scans.count]
      means := by
        rw [Heap.contents_congr (traced.slots c)]
        exact scans.means }
  have guards : ∀ v ∈ b.refs, k.Holds v ∧ k.Clear v := by
    intro v on
    obtain ⟨holds, clear⟩ := kept.stock.kept v on
    exact ⟨fun i named => (holds i named).imp (traced.all i) (traced.fixed i).mpr,
      fun i named danger => clear i named (traced.aged i danger)⟩
  have kept := kept.stepped (.traced traced) (by simp [Op.writes]) rfl guards
  have blank := wary.blank (h := k) (Ref.target?_nil (L := L))
  have sent : (send a .nil).Ends ⟨{ s.state with heap := k }, s.journal⟩
      (fun _ u => a.isActor = true ∧ ∃ l pool, l.entry.note = ⟨0, a, .nil⟩ ∧
        Kept wary { b with mail := b.mail ++ [l], pool } u)
      (fun f u => f = .arenaExhausted ∧ u.Full) :=
    send_ends kept (moved.admits target) blank 0 (fun _ full => ⟨rfl, full⟩) fun notActor => by
      simp [isActor] at notActor
  have ends := sent.and ((send_stills kept (moved.admits target) blank).and (Steady.ends inferInstance _))
  refine ends_onHeap found (ends.mono ?_ fun _ _ => And.left)
  rintro - u ⟨⟨-, l, pool, note, kept⟩, still, same⟩
  refine ⟨moved.still still kept.stock.sound (broadens_of_setup same), same, l, pool, ?_, kept⟩
  simp [Entry.refs, note]

/-- What is kept once nothing is left to trace and the actor has retired. -/
theorem Scans.ended {k : Heap L} {f : Ref L} (scans : Scans o refs c n w) (target : a.target? = some c)
    (sound : o.heap.Sound) (holds : ∀ v ∈ refs, o.heap.Holds v) (empty : w.heap.members .scan = [])
    (swept : Heap.Swept w.heap k) (effect : Effect (.setActor a f .nil) k none u.heap)
    (means : u.Means f .sink) : Ended o refs a c u := by
  have found : ∀ i, i ∈ k.members .fresh ↔ i = c ∨ i ∈ o.heap.reached refs := by
    intro i
    rw [swept.fresh]
    exact scans.searching.found sound holds empty
  have written : u.heap.contents c = (f, .nil) := by
    rw [effect.contents c (Or.inl (Or.inl ((found c).mpr (Or.inl rfl))))]
    exact if_pos target
  have spares : ∀ i, o.heap.Collectable i →
      (Act.setActor a f .nil).write i (k.contents i) = k.contents i := by
    intro i old
    refine if_neg fun same => (scans.searching.young c rfl).1 ?_
    obtain rfl : c = i := Option.some.inj (target.symm.trans same)
    exact Or.inl old
  exact
    { collecting := effect.collecting.trans swept.collecting
      cycles := by rw [effect.cycles, swept.cycles, scans.cycles]
      fresh := fun i => by
        rw [effect.fresh, found]
        simp [Act.Makes, Act.birth, or_comm]
      contents := fun i on => by
        rw [effect.contents i (Or.inl (Or.inl ((found i).mpr (Or.inr on)))), spares i on.1,
          Heap.contents_congr (swept.slots i), Heap.contents_congr (scans.searching.slots i on.1)]
      means := by
        rw [written]
        exact means
      state := by rw [written] }

/-- With nothing left to trace the cycle is brought to its end, and the actor retires. -/
theorem Scans.sweeps [DecidableEq α] (scans : Scans o refs c n s.state) (kept : Kept wary b s.state)
    (target : a.target? = some c) (isActor : a.isActor = true) (sound : o.heap.Sound)
    (holds : ∀ v ∈ refs, o.heap.Holds v) (empty : s.state.heap.members .scan = []) :
    (Actor.trace ⟨a, .nil⟩).Ends s
      (fun _ u => Ended o refs a c u ∧ (∃ table, u.setup = { s.state.setup with behaviors := table }) ∧
        Kept wary b u)
      NoRoom := by
  obtain ⟨k, j, done, swept⟩ := Heap.sweep_apply (s := ⟨s.state.heap, s.journal⟩) kept.stock.sound
    scans.collecting empty
  have guarded : ∀ {v}, wary.Admits s.state.heap v → k.Holds v ∧ k.Clear v := by
    intro v admits
    refine ⟨swept.holds empty admits.1 admits.2, fun i _ danger => ?_⟩
    simp [swept.aged] at danger
  have guards : ∀ v ∈ b.refs, k.Holds v ∧ k.Clear v := fun v on => guarded (kept.stock.kept v on)
  have kept := kept.stepped (.swept swept) (by simp [Op.writes]) rfl guards
  have blank := (wary.blank (h := k) (Ref.target?_nil (L := L))).1
  refine ends_onHeap (Heap.traceStep_none (s := ⟨s.state.heap, s.journal⟩) scans.searching.sound empty) ?_
  refine ends_onHeap done ((becomeActor_ends swept.sound (guarded (scans.admits target)).1 .sink blank).mono
    ?_ fun f u failed => failed.2 isActor)
  rintro - u ⟨f, table, m, rfl, means, effect⟩
  have spared : ∀ i ∈ b.own, (Op.act (.setActor a f .nil)).writes ≠ some i := by
    intro i own writes
    obtain rfl : c = i := by simpa [Op.writes, Act.writes, target] using writes
    refine Heap.not_fixed_of_collectable (Or.inl ?_) (kept.stock.fixed (Books.own_cells own))
    exact swept.fresh ▸ scans.fresh
  have kept := kept.stepped (.acted effect) spared rfl fun v on => guarded_of_effect effect (guards v on)
  exact ⟨scans.ended target sound holds empty swept effect means, ⟨table, rfl⟩, kept.retabled table⟩

/-! ### Between deliveries -/

/-- `w` has come of `o` by so many deliveries, and these messages are left in the mailbox. -/
structure Since (o : World L α γ) (mail : List (Ref L × Ref L)) (m : Nat) (w : World L α γ) : Prop where
  kept : ∃ b, Kept wary b w
  mailbox : w.mailbox = mail
  timers : w.timerList = o.timerList
  delivered : w.delivered = o.delivered + m
  capacity : w.capacity = o.capacity
  guest : w.guest = o.guest

/-- The actor `a`, in the cell `c`, is to trace another cell after `n`. -/
structure Carries (o : World L α γ) (refs : List (Ref L)) (a : Ref L) (c n : Nat) (w : World L α γ) :
    Prop extends Scans o refs c n w, Since o [(a, .nil)] n w

/-- The actor `a`, in the cell `c`, has carried a cycle on to its end. -/
structure Carried (o : World L α γ) (refs : List (Ref L)) (a : Ref L) (c : Nat) (w : World L α γ) :
    Prop extends Ended o refs a c w, Since o [] ((o.heap.reached refs).ncard + 1) w

theorem closeLetter_apart (kept : Kept care b s.state) (isHeld : b.held = e :: held)
    (points : d.entry.Points e.cell) : (closeLetter d).Ends s
      (fun _ u => Kept care { b with held, pool := e.cell :: b.pool, current := d.outer } u ∧
        Still s.state.heap u.heap ∧
        u.setup = { s.state.setup with delivered := s.state.delivered + 1 })
      fun _ _ => False := by
  have closes : (closeLetter d).Ends s
      (fun _ u => Kept care { b with held, pool := e.cell :: b.pool, current := d.outer } u)
      fun _ _ => False := closeLetter_ends kept isHeld points
  have apart := (closeLetter_stills kept isHeld points).and (closeLetter_setup d s)
  exact (closes.and apart).mono (fun _ _ => id) fun _ _ => And.left

/-- One more delivery, which leaves the timers alone. -/
theorem Since.next {mail mail' : List (Ref L × Ref L)} {m : Nat} {b' : Books L} (since : Since o mail m w)
    (kept : Kept wary b w) (kept' : Kept wary b' u) (timers : b'.timers = b.timers)
    (left : (b'.mail.map fun l => (l.entry.note.target, l.entry.note.message)) = mail')
    {table : Array (Behavior α)}
    (same : u.setup = { w.setup with behaviors := table, delivered := w.delivered + 1 }) :
    Since o mail' (m + 1) u where
  kept := ⟨b', kept'⟩
  mailbox := kept'.mailbox.trans left
  timers := by rw [← since.timers, kept.timerList, kept'.timerList, timers]
  delivered := by
    have counted : u.delivered = w.delivered + 1 := congrArg Setup.delivered same
    rw [counted, since.delivered, Nat.add_assoc]
  capacity := by
    have bound : u.capacity = w.capacity := congrArg Setup.capacity same
    exact bound.trans since.capacity
  guest := by
    have data : u.guest = w.guest := congrArg Setup.guest same
    exact data.trans since.guest

section
variable [DecidableEq α] (target : a.target? = some c) (isActor : a.isActor = true)
  (sound : o.heap.Sound) (holds : ∀ v ∈ refs, o.heap.Holds v)
include target isActor sound holds

/-- As long as fewer cells have been traced than are in reach, a delivery traces one more; the next one
after that ends the cycle. -/
theorem Carries.dispatches (carries : Carries o refs a c n s.state) (host : Host L α γ) :
    (dispatch host).Ends s
      (fun more u => more = true ∧ (n < (o.heap.reached refs).ncard ∧ Carries o refs a c (n + 1) u ∨
        n = (o.heap.reached refs).ncard ∧ Carried o refs a c u))
      NoRoom := by
  obtain ⟨b, kept⟩ := carries.kept
  obtain ⟨l, shape, note⟩ : ∃ l, b.mail = [l] ∧ l.entry.refs = [a, .nil] := by
    have mail := kept.mailbox.symm.trans carries.mailbox
    obtain ⟨l, shape, note⟩ := List.map_eq_singleton_iff.mp mail
    exact ⟨l, shape, by simpa [Entry.refs] using note⟩
  have filled : s.state.mailFirst.isNil = false := by
    rw [kept.mail.chain.isNil, shape]
    rfl
  rw [dispatch_eq]
  refine Task.ends_view ?_
  rw [filled]
  refine Task.Ends.bind ((carries.opens kept shape note target isActor).mono (fun _ _ => id)
    fun _ _ => False.elim) ?_
  rintro d u ⟨delivery, behaves, outer, points, scans, same, opened⟩
  rw [delivery, behaves]
  have closes : ∀ {v : Logged (World L α γ)} {b' : Books L}, Kept wary b' v.state →
      b'.held = l.entry :: b.held → (closeLetter d).Ends v
        (fun _ x => Kept wary { b' with
            held := b.held, pool := l.entry.cell :: b'.pool, current := d.outer } x ∧
          Still v.state.heap x.heap ∧
          x.setup = { v.state.setup with delivered := v.state.delivered + 1 }) NoRoom :=
    fun kept isHeld => (closeLetter_apart kept isHeld points).mono (fun _ _ => id) fun _ _ => False.elim
  by_cases empty : u.state.heap.members .scan = []
  · have all : n = (o.heap.reached refs).ncard := by
      have count := scans.searching.length_eq sound holds empty
      rw [scans.count] at count
      omega
    refine Task.Ends.bind (scans.sweeps opened target isActor sound holds empty) ?_
    rintro - v ⟨ended, ⟨table, same'⟩, swept⟩
    refine Task.Ends.bind (closes swept rfl) ?_
    rintro - x ⟨closed, still, counted⟩
    have setup : x.state.setup =
        { s.state.setup with behaviors := table, delivered := s.state.delivered + 1 } := by
      have before : v.state.delivered = u.state.delivered := congrArg Setup.delivered same'
      have before' : u.state.delivered = s.state.delivered := congrArg Setup.delivered same
      rw [counted, before, before', same', same]
    refine Task.ends_pure ⟨rfl, Or.inr ⟨all, ?_⟩⟩
    exact
      { toEnded := ended.still still (broadens_of_behaviors (by rw [counted]))
        toSince := by
          rw [← all]
          exact carries.toSince.next kept closed rfl rfl setup }
  · have some : n < (o.heap.reached refs).ncard := by
      have count := scans.searching.length_lt sound empty
      rw [scans.count] at count
      omega
    refine Task.Ends.bind ((scans.traces opened target isActor empty).mono (fun _ _ => id)
      fun _ _ => Or.inl) ?_
    rintro - v ⟨traced, same', l', pool, note', sent⟩
    refine Task.Ends.bind (closes sent rfl) ?_
    rintro - x ⟨closed, still, counted⟩
    have setup : x.state.setup = { s.state.setup with delivered := s.state.delivered + 1 } := by
      have before : v.state.delivered = s.state.delivered :=
        congrArg Setup.delivered (same'.trans same)
      rw [counted, before, same', same]
    refine Task.ends_pure ⟨rfl, Or.inl ⟨some, ?_⟩⟩
    exact
      { toScans := traced.still still closed.stock.sound
          (broadens_of_behaviors (by rw [counted]))
        toSince := carries.toSince.next kept closed rfl (by simpa [Entry.refs] using note') setup }

end

/-! ### Runs -/

/-- No timer is due at any reading of the clock that comes before the first `n` attempts at a delivery. -/
def Early (w : World L α γ) (clock : Nat → γ → Moment) (n : Nat) : Prop :=
  ∀ i < n, i % clockStep = 0 → ∀ x ∈ w.timerList, clock (i / clockStep) w.guest < x.1

/-- A reading of the clock at which no timer is due changes nothing else. -/
theorem Since.refresh {mail : List (Ref L × Ref L)} {m : Nat} {clock : Nat → γ → Moment}
    (since : Since o mail m s.state) (early : Early o clock n) {attempts : Nat} (less : attempts < n) :
    ∃ reading, World.refresh clock attempts s = .ok () ⟨{ s.state with now := reading }, s.journal⟩ := by
  obtain ⟨b, kept⟩ := since.kept
  unfold World.refresh
  split
  · rename_i reads
    refine ⟨clock (attempts / clockStep) s.state.guest, tick_idle kept fun a on => ?_⟩
    change clock (attempts / clockStep) s.state.guest < a.due
    rw [since.guest]
    refine early attempts less reads (a.due, a.entry.note.target, a.entry.note.message) ?_
    rw [← since.timers, kept.timerList]
    exact List.mem_map_of_mem on
  · exact ⟨s.state.now, rfl⟩

theorem Since.clocked {mail : List (Ref L × Ref L)} {m : Nat} (since : Since o mail m w)
    (reading : Moment) : Since o mail m { w with now := reading } where
  kept := by
    obtain ⟨b, kept⟩ := since.kept
    exact ⟨_, kept.clocked reading⟩
  mailbox := since.mailbox
  timers := since.timers
  delivered := since.delivered
  capacity := since.capacity
  guest := since.guest

theorem Since.pending {mail : List (Ref L × Ref L)} {m : Nat} (since : Since o mail m w) :
    w.pending = mail.length := by
  obtain ⟨b, kept⟩ := since.kept
  rw [kept.pending, ← since.mailbox, kept.mailbox, List.length_map]

theorem Since.notOver {mail : List (Ref L × Ref L)} {m : Nat} (since : Since o mail m w)
    (short : mail.length ≤ o.capacity) : isOver w = false := by
  refine decide_eq_false ?_
  rw [since.pending, since.capacity]
  omega

section
variable [DecidableEq α] {clock : Nat → γ → Moment}

theorem Carried.rests (carried : Carried o refs a c s.state) (host : Host L α γ) (attempts left : Nat)
    (early : Early o clock (attempts + min left 1)) :
    ∃ u, runFrom host clock attempts left s = .ok (some left) u ∧ Carried o refs a c u.state := by
  cases left with
  | zero => exact ⟨s, rfl, carried⟩
  | succ left =>
    obtain ⟨reading, read⟩ := carried.refresh early (show attempts < attempts + min (left + 1) 1 by omega)
    obtain ⟨b, kept⟩ := carried.kept
    have empty : s.state.mailFirst.isNil = true := by
      have none : b.mail = [] := by simpa [kept.mailbox] using carried.mailbox
      rw [kept.mail.chain.isNil, none]
      rfl
    refine ⟨⟨{ s.state with now := reading }, s.journal⟩, ?_, ?_⟩
    · simp [runFrom, Task.bind_apply, read, dispatch, empty]
    · exact { carried with toSince := carried.clocked reading }

variable (target : a.target? = some c) (isActor : a.isActor = true) (sound : o.heap.Sound)
  (holds : ∀ v ∈ refs, o.heap.Holds v)
include target isActor sound holds

/-- A run with enough budget brings the cycle to its end if no timer comes to be due. -/
theorem Carries.runs (carries : Carries o refs a c n s.state) (host : Host L α γ) (room : 1 ≤ o.capacity)
    (enough : (o.heap.reached refs).ncard + 1 ≤ n + left)
    (early : Early o clock (min (n + left) ((o.heap.reached refs).ncard + 2))) :
    (runFrom host clock n left).Ends s
      (fun r u => r = some (n + left - ((o.heap.reached refs).ncard + 1)) ∧ Carried o refs a c u)
      NoRoom := by
  induction left generalizing n s with
  | zero =>
    have few := carries.few sound holds
    omega
  | succ left ih =>
    have few := carries.few sound holds
    obtain ⟨reading, read⟩ := carries.refresh early (show n < _ by omega)
    have carries : Carries o refs a c n { s.state with now := reading } :=
      { searching := carries.searching
        collecting := carries.collecting
        cycles := carries.cycles
        count := carries.count
        means := carries.means
        toSince := carries.clocked reading }
    rw [runFrom]
    refine Task.ends_bind_ok read ?_
    refine Task.Ends.bind (carries.dispatches (s := ⟨_, s.journal⟩) target isActor sound holds host) ?_
    rintro - u ⟨rfl, ⟨some, carries⟩ | ⟨all, carried⟩⟩
    · refine Task.ends_view ?_
      rw [carries.notOver (by simpa using room)]
      have early : Early o clock (min (n + 1 + left) ((o.heap.reached refs).ncard + 2)) := by
        rwa [Nat.add_right_comm]
      refine (ih carries (by omega) early).mono ?_ fun _ _ => id
      rintro r v ⟨answer, carried⟩
      exact ⟨by rw [answer, Nat.add_right_comm, Nat.add_assoc], carried⟩
    · refine Task.ends_view ?_
      rw [carried.notOver (Nat.zero_le _)]
      obtain ⟨v, rests, carried⟩ := carried.rests host (n + 1) left fun i less =>
        early i (by omega)
      refine Task.ends_of_ok rests ⟨congrArg some ?_, carried⟩
      omega

theorem Carries.run (carries : Carries o refs a c 0 s.state) (room : 1 ≤ o.capacity)
    (host : Host L α γ) {budget : Int} (enough : (o.heap.reached refs).ncard + 1 ≤ budget)
    (early : Early o clock (min budget.toNat ((o.heap.reached refs).ncard + 2))) :
    (run host clock budget).Ends s
      (fun r u => r = some (budget.toNat - ((o.heap.reached refs).ncard + 1)) ∧ Carried o refs a c u)
      NoRoom := by
  refine Task.ends_view ?_
  rw [carries.notOver (by simpa using room)]
  have enough' : (o.heap.reached refs).ncard + 1 ≤ 0 + budget.toNat := by omega
  have runs := carries.runs target isActor sound holds host room enough' (by rwa [Nat.zero_add])
  rwa [Nat.zero_add] at runs

end

end Treadmill.World

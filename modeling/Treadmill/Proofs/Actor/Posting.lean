import Mathlib
import Treadmill.Proofs.Actor.Spelling
import Treadmill.Proofs.World.Delay

/-!
Queues and collections of a world with a chart. Messages are sent, delayed and delivered without any ordinary
cell being touched, and a collection leaves what it does not reclaim as it is.
-/

namespace Treadmill.World
open Heap (plain_of_collectable plain_nil)
variable {L : Layout} {α γ β : Type} {c c' : Chart L} {b b' : Books L} {w u : World L α γ}
  {s : Logged (World L α γ)} {h k o : Heap L} {stored : Nat → Ref L × Ref L} {r v a target message : Ref L}
  {failed : Fault → World L α γ → Prop} {i : Nat} {l : Letter L} {mail : List (Letter L)} {e : Entry L}
  {d : Opened L α} {op : Op L} {j : Journal} {reading : Moment} {known : Behavior α} {state : Ref L}

/-! ### Queues -/

/-- `careful`, and the cells that can be reclaimed are those of `o`. -/
def settling (o : Heap L) (stored : Nat → Ref L × Ref L) : Care L :=
  { careful stored with
    Stands := fun h => h.Holding stored ∧ ∀ i, h.Collectable i ↔ o.Collectable i
    stands_filed := fun filed stands =>
      ⟨(careful stored).stands_filed filed stands.1, fun i => (filed.collectable i).trans (stands.2 i)⟩
    stands_read := fun effect admits stands =>
      ⟨(careful stored).stands_read effect admits stands.1, fun i =>
        (effect.collectable i).trans (by simpa [Act.Makes, Act.birth] using stands.2 i)⟩ }

theorem Kept.settling (kept : Kept (World.careful stored) b w) : Kept (World.settling w.heap stored) b w :=
  kept.withHeap
    { sound := kept.stock.sound
      distinct := kept.stock.distinct
      own := kept.stock.own
      kept := kept.stock.kept
      stands := ⟨kept.stock.stands, fun _ => Iff.rfl⟩ } fun _ _ => rfl

/-- Work on the queues alone. -/
theorem Charted.queued (charted : Charted c b w) (kept : Kept (settling w.heap c.holds) b' u)
    (symbols : u.symbols = w.symbols) (behaviors : u.behaviors = w.behaviors) (guest : u.guest = w.guest) :
    Charted c b' u ∧ Later ∅ c w c u := by
  refine ⟨⟨?_, by rw [symbols]; exact charted.names⟩, ?_⟩
  · exact kept.withHeap
      { sound := kept.stock.sound
        distinct := kept.stock.distinct
        own := kept.stock.own
        kept := kept.stock.kept
        stands := kept.stock.stands.1 } fun _ _ => rfl
  · exact
      { collectable := fun i on => (kept.stock.stands.2 i).mpr on
        role := fun _ _ => rfl
        holds := fun _ _ _ => rfl
        symbols := by rw [symbols]; exact .refl _
        broadens := broadens_of_behaviors behaviors
        guest }

theorem Charted.steady (charted : Charted c b w) (kept : Kept (settling w.heap c.holds) b' u)
    (same : u.setup = w.setup) : Charted c b' u ∧ Later ∅ c w c u :=
  charted.queued kept (congrArg Setup.symbols same) (congrArg Setup.behaviors same) (congrArg Setup.guest same)

/-- A message that is sent becomes the last letter. -/
theorem post_ends (charted : Charted c b s.state) (isActor : target.isActor = true)
    (plain : s.state.heap.Plain target) (plain' : s.state.heap.Plain message) : (World.send target message).Ends s
      (fun _ u => ∃ l pool, l.entry.note = ⟨0, target, message⟩ ∧
        Charted c { b with mail := b.mail ++ [l], pool } u ∧ Later ∅ c s.state c u) NoRoom := by
  have ends : (World.send target message).Ends s _ NoRoom :=
    send_ends charted.kept.settling plain plain' 0 (fun _ full => Or.inl ⟨rfl, full⟩)
      fun other => by simp [isActor] at other
  refine (ends.and (Steady.ends inferInstance s)).mono ?_ fun _ _ => And.left
  rintro - u ⟨⟨-, l, pool, note, kept⟩, same⟩
  exact ⟨l, pool, note, charted.steady kept same⟩

/-- There was no room, or the clock is out of its usual range. -/
def Stuck (now : Moment) (f : Fault) (u : World L α γ) : Prop := NoRoom f u ∨ ¬now.IsUsual

/-- The second that the clock shows can be written down as long as the clock is in its usual range. -/
theorem stuck_of_number {now : Moment} {f : Fault} (refused : (Ref.number now.s : Except Fault (Ref L)) = .error f) :
    Stuck now f w := by
  refine Or.inr fun ⟨_, begun, early⟩ => ?_
  obtain ⟨low, high⟩ := Ref.number_range_of_narrow L (n := now.s) (by omega) (by omega)
  obtain ⟨r, isNow⟩ := Ref.number_ok low high
  simp [isNow] at refused

/-- A message that is delayed while there are no others stands alone among the timers. -/
theorem delay_ends {delay : Int} (charted : Charted c b s.state) (isActor : target.isActor = true)
    (plain : s.state.heap.Plain target) (plain' : s.state.heap.Plain message)
    (signed : b.now.IsUsual → IsSigned delay ∧ b.now.us + delay < 2 ^ 63) (none : b.timers = []) :
    (World.sendAfter delay target message).Ends s
      (fun _ u => ∃ a pool, a.entry.note = ⟨0, target, message⟩ ∧
        Charted c { b with timers := [a], pool } u ∧ Later ∅ c s.state c u) (Stuck b.now) := by
  have ends : (World.sendAfter delay target message).Ends s _ (Stuck b.now) :=
    sendAfter_ends charted.kept.settling plain plain' delay 0 (fun _ full => Or.inl (Or.inl ⟨rfl, full⟩))
      (fun other => by simp [isActor] at other)
      (fun _ f overflow => Or.inr fun usual => by
        obtain ⟨due, shifted, -⟩ := usual.shift_ok (signed usual).1 (signed usual).2
        simp [shifted] at overflow)
      fun _ due c pool u shifted outside _ => Or.inr fun usual => by
        obtain ⟨due', shifted', low, high⟩ := usual.shift_ok (signed usual).1 (signed usual).2
        obtain rfl : due' = due := by simpa [shifted'] using shifted
        exact outside (Ref.number_range_of_narrow L low high)
  refine (ends.and (Steady.ends inferInstance s)).mono ?_ fun _ _ => And.left
  rintro - u ⟨⟨-, a, pool, -, -, note, kept⟩, same⟩
  rw [none] at kept
  exact ⟨a, pool, note, charted.steady kept same⟩

/-- Whatever is due becomes a letter when the clock is read. -/
theorem clock_ends (charted : Charted c b s.state) (reading : Moment) : (tick reading).Ends s
    (fun _ u => ∃ letters pool,
      letters.map Letter.entry = (b.timers.takeWhile (Alarm.isDue reading)).map Alarm.entry ∧
      Charted c { b with
        mail := b.mail ++ letters
        timers := b.timers.dropWhile (Alarm.isDue reading)
        pool
        now := reading } u ∧
      Later ∅ c s.state c u) NoRoom := by
  have ends : (tick reading).Ends s _ NoRoom :=
    tick_ends charted.kept.settling reading fun _ full => Or.inl ⟨rfl, full⟩
  refine (ends.and (Steady.ends inferInstance s)).mono ?_ fun _ _ => And.left
  rintro - u ⟨⟨letters, pool, entries, kept⟩, same⟩
  exact ⟨letters, pool, entries, charted.steady kept same⟩

/-- The first letter is opened, and whatever it says can be printed. -/
theorem open_ends (charted : Charted c b s.state) (shape : b.mail = l :: mail)
    (serving : Serving c s.state l.entry.note.target i known state) : openLetter.Ends s
      (fun d u => d.entry.Points l.entry.cell ∧ d.outer = b.current ∧
        d.delivery = ⟨l.entry.note.target, l.entry.note.message⟩ ∧ d.behavior = known ∧
        Charted c { b with
          mail, pool := l.node :: b.pool, held := l.entry :: b.held, current := d.entry } u ∧
        Later ∅ c s.state c u) failed := by
  have safe := charted.kept.entry (Books.letter_entry (l := l) (by simp [shape]))
  have plain : s.state.heap.Plain l.entry.note.target := (safe _ (by simp [Entry.refs])).1
  have plain' : s.state.heap.Plain l.entry.note.message := (safe _ (by simp [Entry.refs])).1
  have ends := openLetter_ends charted.kept.settling shape plain
  -- What the target does stands where it stood.
  have behaves : ∀ {b u}, Charted c b u → Later ∅ c s.state c u →
      u.behaviorAt? l.entry.note.target = some known := by
    intro b u charted' later
    have on := plain i serving.target
    have serving := serving.later later on (Set.notMem_empty _)
    exact (serving.visible charted' (later.collectable i on)).1
  refine (ends.and (Steady.ends inferInstance s)).mono ?_ ?_
  · rintro d u ⟨⟨points, outer, delivery, found, kept⟩, same⟩
    obtain ⟨charted', later⟩ := charted.steady kept same
    rw [behaves charted' later, Option.some.injEq] at found
    exact ⟨points, outer, delivery, found.symm, charted', later⟩
  · rintro f u ⟨⟨-, kept, never⟩, same⟩
    obtain ⟨charted', later⟩ := charted.steady kept same
    have closed := fun i on => (charted'.kept.stock.stands i on).1
    refine absurd ?_ never
    exact
      { isActor := serving.isActor
        behavior := by simp [behaves charted' later]
        target := fun _ => Data.showFrom_whole charted'.kept.stock.sound closed (later.plain plain)
        message := fun _ => Data.showFrom_whole charted'.kept.stock.sound closed (later.plain plain') }

/-- It is looked up what an actor does. -/
theorem behavior_ends (charted : Charted c b s.state) (serving : Serving c s.state a i known state)
    (on : s.state.heap.Collectable i) : (behaviorOf a).Ends s
      (fun found u => found = known ∧ Charted c b u ∧ Later ∅ c s.state c u) failed := by
  have plain : s.state.heap.Plain a := plain_of_collectable serving.target on
  have ends := behaviorOf_ends charted.kept.settling plain
  have behaves : ∀ {b u}, Charted c b u → Later ∅ c s.state c u → u.behaviorAt? a = some known :=
    fun charted' later => ((serving.later later on (Set.notMem_empty _)).visible charted' (later.collectable i on)).1
  refine (ends.and (Steady.ends inferInstance s)).mono ?_ ?_
  · rintro found u ⟨⟨isFound, kept⟩, same⟩
    obtain ⟨charted', later⟩ := charted.steady kept same
    rw [behaves charted' later, Option.some.injEq] at isFound
    exact ⟨isFound.symm, charted', later⟩
  · rintro f u ⟨⟨-, kept, lacks⟩, same⟩
    obtain ⟨charted', later⟩ := charted.steady kept same
    rw [behaves charted' later] at lacks
    cases lacks serving.isActor

theorem close_ends (charted : Charted c b s.state) {held : List (Entry L)} (isHeld : b.held = e :: held)
    (points : d.entry.Points e.cell) : (closeLetter d).Ends s
      (fun _ u => Charted c { b with held, pool := e.cell :: b.pool, current := d.outer } u ∧
        Later ∅ c s.state c u ∧ ∀ i, u.heap.Collectable i ↔ s.state.heap.Collectable i)
      failed := by
  have ends : (closeLetter d).Ends s _ fun _ _ => False := closeLetter_ends charted.kept.settling isHeld points
  refine (ends.and (closeLetter_setup d s)).mono ?_ fun _ _ never => never.1.elim
  rintro - u ⟨kept, same⟩
  obtain ⟨charted', later⟩ := charted.queued kept (congrArg Setup.symbols same) (congrArg Setup.behaviors same)
    (congrArg Setup.guest same)
  exact ⟨charted', later, kept.stock.stands.2⟩

/-! ### Collections -/

/-- What the collector does leaves the chart as it is, as long as it spares what the world refers to. -/
theorem Charted.turned (charted : Charted c b s.state) (op : Op L) (other : ∀ a, op ≠ .act a)
    (plain : ∀ v ∈ op.operands, s.state.heap.Plain v) (spares : op.Spares b.refs)
    (ran : op.task ⟨s.state.heap, s.journal⟩ = .ok none ⟨k, j⟩) :
    Charted c b { s.state with heap := k } := by
  have sound := charted.kept.stock.sound
  have step := op.step (s := ⟨s.state.heap, s.journal⟩) sound fun v on => (plain v on).holds
  have safe := sound.still_safe (s := ⟨s.state.heap, s.journal⟩) plain spares charted.kept.stock.kept
  rw [ran] at step safe
  have holding := charted.kept.stock.stands.step step plain
  refine ⟨charted.kept.passing step (fun i _ writes => ?_) ?_ safe ?_, charted.names⟩
  · cases op <;> first | exact absurd rfl (other _) | cases writes
  · cases op <;> first | exact absurd rfl (other _) | rfl
  · cases op <;> first | exact absurd rfl (other _) | exact holding

/-- The chart stays when no ordinary cell has been lost. -/
theorem Later.all (all : ∀ i, w.heap.Collectable i → k.Collectable i) : Later ∅ c w c { w with heap := k } :=
  { Later.refl ∅ c w with collectable := all }

/-- One cell is traced, if there is one to trace. -/
theorem traceStep_ends (charted : Charted c b s.state) : (onHeap Heap.traceStep).Ends s
    (fun again u => Charted c b u ∧ Later ∅ c s.state c u ∧ (again = false → u.heap.members .scan = [])) failed := by
  have sound := charted.kept.stock.sound
  by_cases empty : s.state.heap.members .scan = []
  · have ran := Heap.traceStep_none (s := ⟨s.state.heap, s.journal⟩) sound empty
    exact Task.ends_of_ok (onHeap_ok ran) ⟨charted, .refl ∅ c _, fun _ => empty⟩
  · obtain ⟨k, ran, traced⟩ := Heap.traceStep_some (s := ⟨s.state.heap, s.journal⟩) sound empty
    have charted' := charted.turned .traceStep (by simp) (by simp [Op.operands]) trivial
      (by rw [Op.task, Task.bind_apply, ran]; rfl)
    exact Task.ends_of_ok (onHeap_ok ran) ⟨charted', .all traced.all, by simp⟩

/-- A cycle comes to its end once nothing is left to trace. -/
theorem sweep_ends (charted : Charted c b s.state) (traced : s.state.heap.members .scan = []) :
    (onHeap Heap.sweep).Ends s (fun _ u => ∃ k, u = { s.state with heap := k } ∧ Charted c b u) failed := by
  obtain ⟨k, j, ran⟩ : ∃ k j, Heap.sweep ⟨s.state.heap, s.journal⟩ = .ok () ⟨k, j⟩ := by
    cases busy : s.state.heap.collecting with
    | false => exact ⟨_, _, Heap.sweep_idle (s := ⟨s.state.heap, s.journal⟩) busy⟩
    | true =>
      obtain ⟨k, j, ran, -⟩ := Heap.sweep_apply (s := ⟨s.state.heap, s.journal⟩) charted.kept.stock.sound busy traced
      exact ⟨k, j, ran⟩
  refine Task.ends_of_ok (onHeap_ok ran) ⟨k, rfl, ?_⟩
  exact charted.turned .sweep (by simp) (by simp [Op.operands]) trivial
    (by rw [Op.task, Task.bind_apply, ran]; rfl)

/-- The roots that are gathered between deliveries are all that the world refers to. -/
theorem Charted.gathers (charted : Charted c b s.state) (none : b.held = []) (idle : b.current = .nil) :
    gatherRoots s = .ok b.refs s := by
  have delivers : Delivers b.current ([] : List (Entry L)) := Or.inl ⟨idle, rfl⟩
  have gathered := gatherRoots_apply charted.kept delivers (by simp)
  rwa [show ({ b with held := [] } : Books L) = b by rw [← none]] at gathered

theorem Charted.plain_refs (charted : Charted c b w) : ∀ v ∈ b.refs, w.heap.Plain v :=
  fun v on => (charted.kept.stock.kept v on).1

/-- Between deliveries the world collects at once. -/
theorem forceCollect_ends (charted : Charted c b s.state) (none : b.held = []) (idle : b.current = .nil) :
    forceCollect.Ends s (fun _ u => ∃ k, u = { s.state with heap := k } ∧ Charted c b u) failed := by
  have plain := charted.plain_refs
  obtain ⟨k, j, ran, -⟩ := Heap.fullCollect_apply (s := ⟨s.state.heap, s.journal⟩) charted.kept.stock.sound
    fun v on => (plain v on).holds
  refine Task.ends_bind_ok (charted.gathers none idle) (Task.ends_of_ok (onHeap_ok ran) ⟨k, rfl, ?_⟩)
  exact charted.turned (.fullCollect b.refs) (by simp) plain (fun _ => id)
    (by rw [Op.task, Task.bind_apply, ran]; rfl)

/-- Between deliveries a cycle is begun, which a new actor is to carry on, unless one is under way. -/
theorem startCollect_ends [DecidableEq α] (charted : Charted c b s.state) (none : b.held = [])
    (idle : b.current = .nil) : startCollect.Ends s
      (fun _ u => ∃ c' b', Charted c' b' u ∧ Later ∅ c s.state c' u ∧ (b' = b ∨ ∃ l pool a i,
        b' = { b with mail := b.mail ++ [l], pool } ∧ l.entry.note = ⟨0, a, .nil⟩ ∧
        Serving c' u a i .trace .nil ∧ c'.role i = .tracer))
      NoRoom := by
  refine Task.ends_bind_ok (charted.gathers none idle) (Task.ends_view ?_)
  cases busy : s.state.heap.collecting with
  | true =>
    exact Task.ends_bind_ok (Task.note_apply _ _) (Task.ends_pure ⟨c, b, charted, .refl ∅ c _, Or.inl rfl⟩)
  | false =>
    have plain := charted.plain_refs
    have sound := charted.kept.stock.sound
    obtain ⟨k, j, ran, begun, -⟩ := Heap.beginCollect_apply (s := ⟨s.state.heap, s.journal⟩) sound busy
      fun v on => (sound.finished busy).regular sound (plain v on).holds
    have charted₁ := charted.turned (.beginCollect b.refs) (by simp) plain (fun _ => id)
      (by rw [Op.task, Task.bind_apply, ran]; rfl)
    have later₁ : Later ∅ c s.state c { s.state with heap := k } := .all begun.all
    refine Task.ends_bind_ok (onHeap_ok ran) ?_
    refine (hire_ends charted₁ plain_nil .tracer .trace).bind ?_
    rintro a u ⟨i, c', hired⟩
    have plain : u.state.heap.Plain a := plain_of_collectable hired.serving.target hired.old
    refine (post_ends hired.charted hired.serving.isActor plain plain_nil).bind ?_
    rintro - v ⟨l, pool, note, charted', later'⟩
    refine Task.ends_pure ⟨c', _, charted', (later₁.trans hired.later).trans later', ?_⟩
    refine Or.inr ⟨l, pool, a, i, rfl, note, ?_⟩
    exact ⟨hired.serving.later later' hired.old (Set.notMem_empty _), hired.role⟩

end Treadmill.World

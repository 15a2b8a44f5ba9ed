import Mathlib
import Treadmill.Proofs.Heap.Budget
import Treadmill.Proofs.World.Eager
import Treadmill.Proofs.World.Order
import Treadmill.Proofs.World.Setup

/-!
Cycles that actors carry on. Each delivery to a tracing actor traces a cell or ends the cycle, and as no
more cells wait than were fresh before the cycle began, it is over after one delivery more than these at
the latest (`Driven.over`).
-/

namespace Treadmill.World
open Heap (Filed)
variable {L : Layout} {α γ : Type} {c n m : Nat} {s : Logged (World L α γ)} {b : Books L} {care : Care L}
  {r : Record L} {l : Letter L} {mail : List (Letter L)} {actor : Ref L} {d : Opened L α}
  {p q start : Point L α γ} {trace trace₀ : List (Moved L α γ)}

/-- Asks of a reference that its cell is in use, and of the heap that the cycle keeps its pace. -/
def pacing (c n m : Nat) : Care L :=
  { lenient with
    Stands h := h.Sound ∧ h.Within c n m
    stands_filed filed stands :=
      ⟨filed.sound, stands.2.same filed.toSameCycle (filed.waiting stands.1)⟩
    stands_read effect _ stands :=
      ⟨effect.sound, stands.2.same effect.toSameCycle (effect.waiting stands.1)⟩ }

/-! ### The actor under delivery -/

theorem behaviorOf_seen (kept : Kept care b s.state) (holds : s.state.heap.Holds actor) :
    (behaviorOf actor).Ends s (fun _ u => u.heap.Holds actor ∧ u.heap.Clear actor) fun _ _ => True := by
  rcases (Act.behavior actor).outcome (s := ⟨s.state.heap, s.journal⟩) kept.stock.sound
    (by simpa [Act.operands] using holds) with ⟨f, -, refused⟩ | ⟨-, answer, k, j, done, effect⟩
  · rcases Task.bind_eq_error.mp refused with failed | ⟨_, _, -, failed⟩
    · exact ends_refused failed trivial
    · cases failed
  · obtain ⟨f, u, read, same⟩ := Task.bind_eq_ok.mp done
    obtain ⟨-, rfl⟩ : some f = answer ∧ u = ⟨k, j⟩ := by simpa using same
    have seen : k.Holds actor ∧ k.Clear actor :=
      ⟨effect.holds holds, effect.clear actor (by simp [Act.operands])⟩
    refine ends_onHeap read (Task.ends_ofExcept (fun i _ => Task.ends_view ?_) fun _ _ => trivial)
    cases s.state.behaviors[i]? with
    | none => exact trivial
    | some known => exact Task.ends_pure seen

/-- The actor to which a message is being delivered is in use and no candidate: looking up its behavior
has kept it. -/
theorem openLetter_seen (kept : Kept (pacing c n m) b s.state) (shape : b.mail = l :: mail)
    (holds : s.state.heap.Holds l.entry.note.target) :
    openLetter.Ends s (fun d u => u.heap.Holds d.delivery.this ∧ u.heap.Clear d.delivery.this)
      fun _ _ => True := by
  refine (dequeue_ends kept shape).bind ?_
  rintro entry u ⟨points, still, kept⟩
  have own := Books.head_cells (b := { b with
    mail, pool := l.node :: b.pool, held := l.entry :: b.held }) rfl
  refine kept.ends_first points own (kept.ends_rest points own ?_)
  rw [kept.entries l.entry (Books.held_entry (by simp))]
  refine (behaviorOf_seen kept (still _ holds)).bind fun known v seen => Task.ends_view ?_
  have told : (Task.when v.state.traced (announce ⟨l.entry.note.target, l.entry.note.message⟩)).Ends v
      (fun _ x => x = v.state) fun _ _ => True := by
    cases traced : v.state.traced with
    | false => exact rfl
    | true => exact (announce_ends _ traced).mono (fun _ _ => id) fun _ _ _ => trivial
  refine told.bind fun _ x same => Task.ends_view (Task.ends_alter (Task.ends_pure ?_))
  rw [same]
  exact seen

/-! ### Deliveries to a tracing actor -/

section
variable [DecidableEq α] {now : Moment} {capacity : Nat} {traced : Bool} {guest : γ} {journal : Journal}

theorem retire_cycles (sound : s.state.heap.Sound) {e : Delivery L} (holds : s.state.heap.Holds e.this) :
    (Actor.retire e).Ends s (fun _ u => u.heap.cycles = s.state.heap.cycles)
      fun _ u => u.heap.cycles = s.state.heap.cycles := by
  have blank := (Heap.plain_of_target? (h := s.state.heap) (Ref.target?_nil (L := L))).holds
  refine (becomeActor_ends sound holds .sink blank).mono ?_ fun _ _ failed => congrArg Heap.cycles failed.1
  rintro _ u ⟨f, table, k, rfl, -, effect⟩
  exact effect.cycles

/-- The cycle that began after `c` others is over, or the books are settled and it keeps its pace. -/
def Onward (c n m : Nat) (granted : List Nat) (opened : Option (Opened L α)) (u : World L α γ) : Prop :=
  c < u.heap.cycles ∨ ∃ r b, r.granted = granted ∧ Settled (pacing c n m) r b u opened

/-- A delivery to a tracing actor traces a cell, or it ends the cycle. -/
theorem Settled.scans (settled : Settled (pacing c n m) r b s.state (some d))
    (holds : s.state.heap.Holds d.delivery.this) (clear : s.state.heap.Clear d.delivery.this) :
    (Actor.trace d.delivery).Ends s (fun _ => Onward c (n + 1) m r.granted (some d))
      (fun f u => f = .arenaExhausted ∨ Onward c (n + 1) m r.granted (some d) u) := by
  have sound := settled.kept.stock.sound
  have within := settled.kept.stock.stands.2
  have retired : ∀ {u : Logged (World L α γ)}, u.state.heap.Sound →
      u.state.heap.Holds d.delivery.this → c < u.state.heap.cycles →
      (Actor.retire d.delivery).Ends u (fun _ => Onward c (n + 1) m r.granted (some d))
        (fun f u => f = .arenaExhausted ∨ Onward c (n + 1) m r.granted (some d) u) :=
    fun sound holds past => (retire_cycles sound holds).mono
      (fun _ _ same => Or.inl (past.trans_eq same.symm))
      fun _ _ same => Or.inr (Or.inl (past.trans_eq same.symm))
  by_cases empty : s.state.heap.members .scan = []
  · refine ends_onHeap (Heap.traceStep_none (s := ⟨s.state.heap, s.journal⟩) sound empty) ?_
    cases busy : s.state.heap.collecting with
    | false =>
      have past : c < s.state.heap.cycles := within.resolve_right fun here => by simp [busy] at here
      exact ends_onHeap (Heap.sweep_idle (s := ⟨s.state.heap, s.journal⟩) busy)
        (retired sound holds past)
    | true =>
      obtain ⟨k, j, done, swept⟩ := Heap.sweep_apply (s := ⟨s.state.heap, s.journal⟩) sound busy empty
      have le : c ≤ s.state.heap.cycles := within.elim Nat.le_of_lt fun here => here.1.ge
      exact ends_onHeap done (retired swept.sound (swept.holds empty holds clear)
        ((Nat.lt_succ_of_le le).trans_eq swept.cycles.symm))
  · obtain ⟨k, found, traced⟩ := Heap.traceStep_some (s := ⟨s.state.heap, s.journal⟩) sound empty
    have kept : Kept (pacing c (n + 1) m) b { s.state with heap := k } := by
      have worked := settled.kept.worked (.traced traced) (by simp [Op.writes]) (fun _ _ => trivial)
        (show (pacing c (n + 1) m).Stands k from ⟨traced.sound, within.traced sound found⟩)
      simpa [Deed.granted] using worked
    have holds' : k.Holds d.delivery.this := fun i target =>
      (holds i target).imp (traced.all i) (traced.fixed i).mpr
    have moved : Settled (pacing c (n + 1) m) r b { s.state with heap := k } (some d) :=
      { settled with kept }
    have sent := moved.send (s := ⟨{ s.state with heap := k }, s.journal⟩) holds'
      (Heap.plain_of_target? Ref.target?_nil).holds
    refine ends_onHeap found ?_
    have onward : ∀ {o u}, Settles (pacing c (n + 1) m) r { s.state with heap := k } (some d)
        (.call (.send d.delivery.this .nil) : Move L α γ) o u →
        o = .error .arenaExhausted ∨ Onward c (n + 1) m r.granted (some d) u := by
      intro o u settles
      rcases settles with ⟨exhausted, -⟩ | ⟨-, b', settled'⟩
      · exact Or.inl exhausted
      · refine Or.inr (Or.inr ⟨_, b', ?_, settled'⟩)
        simp [Record.granted_after, Moved.granted]
    cases ran : World.send d.delivery.this .nil
        (⟨{ s.state with heap := k }, s.journal⟩ : Logged (World L α γ)) with
    | ok _ u =>
      have ended := sent.of_ok (Task.bind_eq_ok.mpr ⟨_, _, ran, rfl⟩)
      exact Task.ends_of_ok ran ((onward ended).resolve_left (by simp))
    | error f u =>
      have ended := sent.of_error (Task.bind_eq_error.mpr (Or.inl ran))
      exact Task.ends_of_error ran ((onward ended).imp Except.error.inj id)

/-! ### Whole cycles -/

/-- The first message is opened as `d`, and its target traces. -/
def Point.scanned (p : Point L α γ) (d : Opened L α) : Point L α γ :=
  ⟨stateAfter (Actor.trace d.delivery (p.after .opens).logged), some d⟩

/-- From `start`, where a cycle is under way, a world has come to `p` by moves of its user and by `n`
deliveries to tracing actors, and the cycle was not over before the last of these. -/
inductive Driven (start : Point L α γ) (before : List (Moved L α γ)) :
    List (Moved L α γ) → Nat → Point L α γ → Prop
  | start : Driven start before before 0 start
  | move {trace : List (Moved L α γ)} {n : Nat} {p : Point L α γ} (driven : Driven start before trace n p)
      (busy : p.world.heap.cycles = start.world.heap.cycles) (m : Move L α γ) (fits : m.Fits p)
      (proper : Proper trace p m) (enough : (p.moved m).outcome ≠ .error .arenaExhausted) :
      Driven start before (trace ++ [p.moved m]) n (p.after m)
  | scans {trace : List (Moved L α γ)} {n : Nat} {p : Point L α γ} {d : Opened L α}
      (driven : Driven start before trace n p)
      (busy : p.world.heap.cycles = start.world.heap.cycles) (fits : Move.Fits .opens p)
      (proper : Proper trace p .opens) (opened : (p.after .opens).opened = some d)
      (traces : d.behavior = .trace)
      (enough : outcomeOf (Actor.trace d.delivery (p.after .opens).logged) ≠ .error .arenaExhausted) :
      Driven start before (trace ++ [p.moved .opens]) (n + 1) (p.scanned d)

/-- What a `scans` step does is what the first message's delivery does, which then ends, or is dropped if
the tracing gave up. -/
theorem dispatch_scanned (fits : Move.Fits .opens p) (opened : (p.after .opens).opened = some d)
    (traces : d.behavior = .trace) (host : Host L α γ) :
    stateAfter (dispatch host p.logged) =
      match outcomeOf (Actor.trace d.delivery (p.after .opens).logged) with
      | .ok _ => ((p.scanned d).after .closes).logged
      | .error _ => ((p.scanned d).after .drops).logged := by
  have filled : p.logged.state.mailFirst.isNil = false := fits.2
  rw [dispatch_eq, Task.bind_apply, Task.view_apply]
  simp only [filled, Bool.false_eq_true, if_false, Task.bind_apply]
  cases ran : openLetter p.logged with
  | error f s => simp [Point.after, Move.next, ran] at opened
  | ok e s =>
    obtain ⟨rfl, there⟩ : e = d ∧ p.after .opens = ⟨s, some e⟩ := by
      simpa [Point.after, Move.next, ran] using opened
    have acts : act host e.behavior e.delivery = Actor.trace e.delivery := by rw [traces]; rfl
    simp only [acts, Point.scanned, there]
    cases traced : Actor.trace e.delivery s with
    | error f u => rfl
    | ok _ u =>
      simp only [outcomeOf, stateAfter, Point.after, Move.next]
      cases closeLetter e u <;> rfl
theorem Settled.paced (settled : Settled (pacing c n m) r b p.world p.opened)
    (same : r.granted = trace.flatMap Moved.granted) {a : Move L α γ} (fits : a.Fits p)
    (proper : Proper trace p a) : Settles (pacing c n m) r p.world (p.after a).opened a
      (p.moved a).outcome (p.after a).world := by
  refine settled.properly same fits proper id (fun _ _ => trivial) fun op isHeap => ?_
  subst isHeap
  have sound := settled.kept.stock.sound
  rw [world_heap]
  exact ⟨(op.step (s := ⟨p.world.heap, p.logged.journal⟩) sound proper.held).sound sound,
    op.within (s := ⟨p.world.heap, p.logged.journal⟩) sound proper.held settled.kept.stock.stands.2⟩

/-- The first message is opened, and its target is in use and no candidate. -/
theorem Settled.opens_seen (settled : Settled (pacing c n m) r b p.world p.opened)
    (same : r.granted = trace.flatMap Moved.granted) (fits : Move.Fits .opens p)
    (proper : Proper trace p .opens) (opened : (p.after .opens).opened = some d) :
    ∃ r' b', r'.granted = (trace ++ [p.moved .opens]).flatMap Moved.granted ∧
      Settled (pacing c n m) r' b' (p.after .opens).world (some d) ∧
      (p.after .opens).world.heap.Holds d.delivery.this ∧
      (p.after .opens).world.heap.Clear d.delivery.this := by
  have settles := settled.paced same fits proper
  cases ran : openLetter p.logged with
  | error f s => simp [Point.after, Move.next, ran] at opened
  | ok e s =>
    have after : p.after .opens = ⟨s, some e⟩ := by simp [Point.after, Move.next, ran]
    have outcome : (p.moved .opens).outcome = .ok none := by simp [Point.moved, Move.next, ran]
    rw [after] at settles opened ⊢
    obtain rfl : e = d := Option.some.inj opened
    obtain ⟨-, b', settled'⟩ := settles.enough (by simp [outcome])
    refine ⟨_, b', ?_, settled', ?_⟩
    · rw [Record.granted_after, List.flatMap_append, same, List.flatMap_singleton]
      rfl
    · obtain ⟨l, mail, shape, -⟩ := settled.front fits
      refine (openLetter_seen settled.kept shape (proper.held _ ?_)).answered ran
      rw [Move.operands, settled.kept.mailbox, shape]
      simp

theorem Driven.onward (driven : Driven start trace₀ trace n p)
    (begun : Onward start.world.heap.cycles 0 m (trace₀.flatMap Moved.granted) start.opened start.world) :
    Onward start.world.heap.cycles n m (trace.flatMap Moved.granted) p.opened p.world ∧ n ≤ m + 1 := by
  induction driven with
  | start => exact ⟨begun, Nat.zero_le _⟩
  | @move trace n p driven busy a fits proper enough ih =>
    obtain ⟨r, b, same, settled⟩ := ih.1.resolve_left fun past => by omega
    obtain ⟨-, b', settled'⟩ := (settled.paced same fits proper).enough enough
    refine ⟨Or.inr ⟨_, b', ?_, settled'⟩, ih.2⟩
    rw [Record.granted_after, List.flatMap_append, same, List.flatMap_singleton]
    rfl
  | @scans trace n p d driven busy fits proper opened traces enough ih =>
    obtain ⟨r, b, same, settled⟩ := ih.1.resolve_left fun past => by omega
    -- the cycle is not over yet, so there is something left of what may be spent
    obtain ⟨-, -, left⟩ := settled.kept.stock.stands.2.resolve_left fun past => by omega
    obtain ⟨r', b', same', settled', holds, clear⟩ := settled.opens_seen same fits proper opened
    have ends := settled'.scans (s := (p.after .opens).logged) holds clear
    rw [same'] at ends
    refine ⟨?_, by omega⟩
    unfold Point.scanned Point.world
    cases ran : Actor.trace d.delivery (p.after .opens).logged with
    | ok _ u =>
      exact ends.of_ok ran
    | error f u =>
      rw [ran] at enough
      exact (ends.of_error ran).resolve_left fun exhausted => enough (congrArg _ exhausted)

/-- A cycle that has begun keeps its pace: as many cells wait as were fresh. -/
theorem Course.begun (course : Course Proper (Point.new capacity traced now guest journal) trace p)
    {op : Op L} (begins : op.Begins) (proper : Proper trace p (.call (.heap op)))
    {answer : Option (Ref L)} (done : (p.moved (.call (.heap op))).outcome = .ok answer) :
    (p.after (.call (.heap op))).world.heap.cycles = p.world.heap.cycles ∧
      Onward p.world.heap.cycles 0 (p.world.heap.size .fresh)
        ((trace ++ [p.moved (.call (.heap op))]).flatMap Moved.granted)
        (p.after (.call (.heap op))).opened (p.after (.call (.heap op))).world := by
  obtain ⟨b, settled⟩ := course.settled
  have sound := settled.kept.stock.sound
  have outcome : (p.moved (.call (.heap op))).outcome =
      outcomeOf (op.task ⟨p.world.heap, p.logged.journal⟩) := outcome_onHeap op.task p.logged
  have step := op.step (s := ⟨p.world.heap, p.logged.journal⟩) sound proper.held
  rw [← outcome, done] at step
  obtain ⟨resting, begun⟩ := step.of_begins begins
  have after : (p.after (.call (.heap op))).world.heap =
      (stateAfter (op.task ⟨p.world.heap, p.logged.journal⟩)).state := by rw [world_heap]
  rw [← after] at begun
  have waiting := (begun.waiting sound resting).length_eq
  rw [← sound.threaded.recorded] at waiting
  have stands : (pacing p.world.heap.cycles 0 (p.world.heap.size .fresh)).Stands
      (p.after (.call (.heap op))).world.heap :=
    ⟨begun.sound, Or.inr ⟨begun.cycles, begun.collecting, by omega⟩⟩
  have settles := settled.heap op proper.held (settled.spared (Record.granted_of now trace) proper)
    (fun _ _ => trivial) stands
  obtain ⟨-, b', settled'⟩ := settles.enough (by simp [done])
  refine ⟨begun.cycles, Or.inr ⟨_, b', ?_, settled'⟩⟩
  rw [Record.granted_after, Record.granted_of, List.flatMap_append, List.flatMap_singleton]
  rfl

/-- A cycle that actors carry on is over after one delivery to a tracing actor more than cells were fresh
when it began, at the latest. -/
theorem Driven.over {op : Op L} {later : List (Moved L α γ)}
    (driven : Driven (p.after (.call (.heap op))) (trace ++ [p.moved (.call (.heap op))]) later n q)
    (course : Course Proper (Point.new capacity traced now guest journal) trace p)
    (begins : op.Begins) (proper : Proper trace p (.call (.heap op))) {answer : Option (Ref L)}
    (done : (p.moved (.call (.heap op))).outcome = .ok answer) :
    n ≤ p.world.heap.size .fresh + 1 ∧
      (q.world.heap.cycles = p.world.heap.cycles → q.world.heap.collecting = true ∧
        n + q.world.heap.size .scan + q.world.heap.size .aged ≤ p.world.heap.size .fresh) ∧
      (p.world.heap.size .fresh < n → p.world.heap.cycles < q.world.heap.cycles) := by
  obtain ⟨same, begun⟩ := course.begun begins proper done
  rw [← same] at begun ⊢
  obtain ⟨onward, few⟩ := driven.onward begun
  refine ⟨few, fun busy => ?_, fun many => ?_⟩
  · obtain ⟨r, b, -, settled⟩ := onward.resolve_left (by omega)
    obtain ⟨-, collecting, left⟩ := settled.kept.stock.stands.2.resolve_left (by omega)
    rw [settled.kept.stock.sound.length_waiting] at left
    exact ⟨collecting, by omega⟩
  · refine onward.elim id fun ⟨r, b, _, settled⟩ => ?_
    exact settled.kept.stock.stands.2.elim id fun ⟨_, _, left⟩ => by omega

end

/-- Whatever its user does in the meantime, a cycle traces each cell once at most, and what it has traced,
what it has still to trace and the candidates add up to what was fresh. So it can be traced to the end,
and if actors carry it on it is over after one delivery more than cells were fresh. -/
theorem cycle_paced :
    (∀ {L : Layout} {s b t : Logged (Heap L)} {deeds : List (Deed L)}, s.state.Sound →
      Heap.age s = .ok () b → Treadmill.Runs b deeds t → (∀ d ∈ deeds, d.op.InCycle) →
      Paced s t (follow b (deeds.map Deed.op)).2) ∧
    ∀ {L : Layout} {α γ : Type} [DecidableEq α] {capacity : Nat} {traced : Bool} {now : Moment}
      {guest : γ} {journal : Journal} {trace later : List (Moved L α γ)} {p q : Point L α γ} {op : Op L}
      {answer : Option (Ref L)} {n : Nat},
      Course Proper (Point.new capacity traced now guest journal) trace p → op.Begins →
      Proper trace p (.call (.heap op)) → (p.moved (.call (.heap op))).outcome = .ok answer →
      Driven (p.after (.call (.heap op))) (trace ++ [p.moved (.call (.heap op))]) later n q →
      n ≤ p.world.heap.size .fresh + 1 ∧
        (q.world.heap.cycles = p.world.heap.cycles → q.world.heap.collecting = true ∧
          n + q.world.heap.size .scan + q.world.heap.size .aged ≤ p.world.heap.size .fresh) ∧
        (p.world.heap.size .fresh < n → p.world.heap.cycles < q.world.heap.cycles) :=
  ⟨fun sound began run inCycle => run.paced sound began inCycle,
    fun course begins proper done driven => driven.over course begins proper done⟩

open Eager (eagerly) in
/-- An actor that carries on a cycle in which its own cell is the only candidate. -/
theorem lone_tracer : ∃ (trace later : List (Moved .twoLow Empty Unit)) (p q : Point .twoLow Empty Unit),
    Course Proper quiet trace p ∧ p.world.heap.members .fresh = [6] ∧
      (p.moved (.call (.heap .age))).outcome = .ok none ∧
      Driven (p.after (.call (.heap .age))) (trace ++ [p.moved (.call (.heap .age))]) later 2 q := by
  obtain ⟨f, a, noCell, target, worked⟩ : ∃ f a : Ref .twoLow, f.target? = none ∧ a.target? = some 6 ∧
      (eagerly (quiet.after (.call (.function .trace))) fun p₁ =>
        eagerly (p₁.after (.call (.heap (.act (.actorCell f .nil))))) fun p₂ =>
        eagerly (p₂.after (.call (.send a .nil))) fun p₃ =>
        eagerly (p₃.after (.call (.heap .age))) fun p₄ =>
        eagerly (p₄.after .opens) fun p₅ => p₅.opened.any fun d =>
        eagerly (p₄.scanned d) fun p₆ => eagerly (p₆.after .closes) fun p₇ =>
        eagerly (p₇.after .opens) fun p₈ => p₈.opened.any fun e => decide (
          (quiet.moved (.call (.function .trace))).outcome = .ok (some f) ∧
          (p₁.moved (.call (.heap (.act (.actorCell f .nil))))).outcome = .ok (some a) ∧
          (p₂.moved (.call (.send a .nil))).outcome = .ok none ∧
          (p₃.moved (.call (.heap .age))).outcome = .ok none ∧
          (p₆.moved .closes).outcome = .ok none ∧ p₂.world.heap.members .fresh = [6] ∧
          p₃.world.heap.members .fresh = [6] ∧ p₄.world.heap.members .aged = [6] ∧
          p₇.world.heap.members .fresh = [6] ∧ p₄.world.mailFirst.isNil = false ∧
          p₄.world.mailbox.head? = some (a, .nil) ∧ p₇.world.mailFirst.isNil = false ∧
          p₇.world.mailbox.head? = some (a, .nil) ∧ d.behavior = .trace ∧ e.behavior = .trace ∧
          outcomeOf (Actor.trace d.delivery p₅.logged) = .ok () ∧
          outcomeOf (Actor.trace e.delivery p₈.logged) = .ok () ∧
          p₆.world.heap.cycles = p₄.world.heap.cycles ∧ p₇.world.heap.cycles = p₄.world.heap.cycles ∧
          p₇.opened = none)) = true := by
    refine ⟨⟨6, by decide⟩, ⟨25, by decide⟩, by decide, by decide, ?_⟩
    simp only [Point.after, Point.moved, Move.next, Call.task, Op.task, Act.task, Heap.actorCell, Heap.cons,
      Heap.takeFree, send, take, spareCell, Heap.perm, Heap.takeReserved, Heap.refillEmpty, Heap.refill,
      Heap.extend_eq_lengthen]
    decide +kernel
  obtain ⟨p₁, is₁, worked⟩ := Eager.of_eagerly worked
  obtain ⟨p₂, is₂, worked⟩ := Eager.of_eagerly worked
  obtain ⟨p₃, is₃, worked⟩ := Eager.of_eagerly worked
  obtain ⟨p₄, is₄, worked⟩ := Eager.of_eagerly worked
  obtain ⟨_, rfl, worked⟩ := Eager.of_eagerly worked
  obtain ⟨d, opens₄, worked⟩ := (Option.any_eq_true _ _).mp worked
  obtain ⟨p₆, is₆, worked⟩ := Eager.of_eagerly worked
  obtain ⟨p₇, is₇, worked⟩ := Eager.of_eagerly worked
  obtain ⟨_, rfl, worked⟩ := Eager.of_eagerly worked
  obtain ⟨e, opens₇, worked⟩ := (Option.any_eq_true _ _).mp worked
  obtain ⟨out₁, out₂, out₃, out₄, out₆, fresh₂, fresh₃, aged₄, fresh₇, isNil₄, head₄, isNil₇, head₇, traces₄,
    traces₇, enough₄, enough₇, cycles₆, cycles₇, idle₇⟩ := of_decide_eq_true worked
  have held : ∀ {h : Heap .twoLow}, h.Collectable 6 → h.Holds a := by
    intro h on i named
    rw [target, Option.some.injEq] at named
    exact named ▸ Or.inl on
  have blank : ∀ {h : Heap .twoLow} {v : Ref .twoLow}, v.target? = none → h.Holds v :=
    fun none => (Heap.plain_of_target? none).holds
  have idle₃ : p₃.opened = none := by rw [is₃, is₂, is₁]; rfl
  have c₁ := (Course.start : Course Proper quiet [] quiet).snoc _ is₁ out₁ (fun outer => by cases outer)
    (proper_of_unwritten rfl (by simp [Move.operands, Call.operands]))
  have c₂ := c₁.snoc _ is₂ out₂ (fun outer => by cases outer)
    (proper_of_unwritten rfl (by simp [Move.operands, Call.operands, Op.operands, Act.operands, blank, noCell]))
  have use₂ : p₂.world.heap.Collectable 6 := Or.inl (by simp [fresh₂])
  obtain ⟨trace, c₃⟩ : ∃ trace, Course Proper quiet trace p₃ :=
    ⟨_, c₂.snoc _ is₃ out₃ (fun outer => by cases outer)
      (proper_of_unwritten rfl (by simp [Move.operands, Call.operands, blank, held use₂]))⟩
  have use₄ : p₄.world.heap.Collectable 6 := Or.inr (Or.inl (by simp [aged₄]))
  have use₇ : p₇.world.heap.Collectable 6 := Or.inl (by simp [fresh₇])
  have begun : Driven p₄ (trace ++ [p₃.moved (.call (.heap .age))])
      (trace ++ [p₃.moved (.call (.heap .age))]) 0 p₄ := .start
  have scanned := begun.scans rfl ⟨by rw [is₄]; exact idle₃, isNil₄⟩
    (proper_of_unwritten rfl (by simp [Move.operands, head₄, held use₄])) opens₄ traces₄
    (by simp [enough₄])
  rw [← is₆] at scanned
  have closed := scanned.move cycles₆ .closes (by rw [is₆]; rfl) (proper_of_unwritten rfl (by simp [Move.operands]))
    (by simp [out₆])
  rw [← is₇] at closed
  have ended := closed.scans cycles₇ ⟨idle₇, isNil₇⟩
    (proper_of_unwritten rfl (by simp [Move.operands, head₇, held use₇])) opens₇ traces₇
    (by simp [enough₇])
  rw [is₄] at ended
  exact ⟨trace, _, p₃, _, c₃, fresh₃, out₄, ended⟩

/-- A tracing actor whose own cell is the only one that was fresh ends the cycle with its second delivery. -/
theorem paced_lone_tracer :
    (∃ (s b t : Logged (Heap .twoLow)) (deeds : List (Deed .twoLow)), Heap.age s = .ok () b ∧
      Treadmill.Runs b deeds t ∧ deeds.length = 2 ∧ s.state.size .fresh = 1 ∧
      Paced s t (follow b (deeds.map Deed.op)).2) ∧
    ∃ (trace later : List (Moved .twoLow Empty Unit)) (p q : Point .twoLow Empty Unit),
      Course Proper quiet trace p ∧ p.world.heap.size .fresh = 1 ∧
      Driven (p.after (.call (.heap .age))) (trace ++ [p.moved (.call (.heap .age))]) later 2 q ∧
      p.world.heap.cycles < q.world.heap.cycles := by
  constructor
  · obtain ⟨r, s, b, isS, isB, six, made, began, aged⟩ :
        ∃ (r : Ref .twoLow) (s b : Logged (Heap .twoLow)),
          s = stateAfter ((Op.act (.cons .nil .nil)).task ⟨Heap.empty false, ⟨none, #[]⟩⟩) ∧
          b = stateAfter (Heap.age s) ∧ r.target? = some 6 ∧ s.state.members .fresh = [6] ∧
          outcomeOf (Heap.age s) = .ok () ∧ b.state.members .aged = [6] :=
      ⟨⟨24, by decide⟩, _, _, rfl, rfl, by decide +kernel⟩
    have past := (Treadmill.Runs.nil ⟨(Heap.empty false : Heap .twoLow), ⟨none, #[]⟩⟩).snoc
      (.act (.cons .nil .nil)) (by simp [Op.operands, Act.operands, Heap.Holds])
    rw [← isS] at past
    have sound := past.sound_of_empty
    have began' := eq_ok_of_outcome began
    rw [← isB] at began'
    have held : b.state.Holds r := by
      intro i target
      rw [six, Option.some.injEq] at target
      exact Or.inl (Or.inr (Or.inl (by simp [aged, ← target])))
    have run := ((Treadmill.Runs.nil b).snoc (.act (.scanValue r))
      (List.forall_mem_singleton.mpr held)).snoc .traceStep (by simp [Op.operands])
    exact ⟨s, b, _, _, began', run, rfl, by simp [sound.threaded.recorded, made],
      cycle_paced.1 sound began' run (by simp [Op.InCycle])⟩
  · obtain ⟨trace, later, p, q, course, fresh, done, driven⟩ := lone_tracer
    obtain ⟨b, settled⟩ := course.settled
    have one : p.world.heap.size .fresh = 1 := by simp [settled.kept.stock.sound.threaded.recorded, fresh]
    have proper : Proper trace p (.call (.heap .age)) :=
      proper_of_unwritten rfl (by simp [Move.operands, Call.operands, Op.operands])
    obtain ⟨-, -, ended⟩ := cycle_paced.2 course (show Op.Begins .age from trivial) proper done driven
    exact ⟨trace, later, p, q, course, one, driven, ended (by omega)⟩

end Treadmill.World

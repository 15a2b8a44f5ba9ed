import Mathlib
import Treadmill.Proofs.World.Carry
import Treadmill.Proofs.World.Eager
import Treadmill.Proofs.World.Outcome

/-!
A cycle that an actor carries on comes to the same as one that is run at once
(`Course.concurrent_agrees`): the same cells are kept, and of what is in reach each is traced by one
delivery.
-/

namespace Treadmill.World
open Heap (Searching)
variable {L : Layout} {α γ : Type} {s : Logged (World L α γ)} {b : Books L} {care : Care L}
  {r : Record L} {opened : Option (Opened L α)} {refs : List (Ref L)} {a : Ref L} {c : Nat}
  {p : Point L α γ} {trace : List (Moved L α γ)} {now : Moment} {capacity : Nat} {traced : Bool}
  {guest : γ} {journal : Journal}

/-- The roots of a world are the references of books of it that are in order. What was under delivery when
a delivery began is not among them. -/
theorem Settled.gathers (settled : Settled care r b s.state opened) :
    ∃ b', Kept care b' s.state ∧ gatherRoots s = .ok b'.refs s := by
  have under := settled.under
  unfold Under at under
  cases opened with
  | none => exact ⟨b, settled.kept, gatherRoots_apply settled.kept under fun _ => id⟩
  | some d =>
    obtain ⟨e, outer, held, current, points, -, -⟩ := under
    exact ⟨_, settled.kept.dropped held,
      gatherRoots_apply settled.kept (Or.inr ⟨e, current ▸ points, rfl⟩) (by simp [held])⟩

/-- An actor that is made to trace is all that is fresh when a cycle has begun. -/
theorem scans_of_born {o w : World L α γ} {k : Heap L} {f : Ref L} (begun : Heap.Begun o.heap k)
    (searching : Searching o.heap refs (fun _ => False) k)
    (effect : Effect (.actorCell f .nil) k (some a) w.heap) (isFunc : f.isFunc = true)
    (means : w.Means f .trace) :
    ∃ c, a.isActor = true ∧ a.target? = some c ∧ ¬o.heap.InUse c ∧ Scans o refs c 0 w := by
  obtain ⟨q, c, same, kind, target, -, filled⟩ := effect.born .actor f .nil rfl
  obtain rfl : a = q := Option.some.inj same
  have makes : ∀ i, (Act.actorCell f .nil).Makes (some a) i ↔ i = c := by
    intro i
    simp [Act.Makes, Act.birth, target, eq_comm]
  have clear : ∀ v ∈ (Act.actorCell f .nil).operands, k.Clear v := by
    simp [Act.operands, Heap.clear_of_target?, Ref.target?_of_isFunc isFunc]
  have searching := searching.acted effect clear fun _ _ => rfl
  simp only [Act.lasting, makes, false_or, true_and] at searching
  have fresh : ∀ i, i ∈ w.heap.members .fresh ↔ i = c := by
    intro i
    rw [effect.fresh, begun.fresh, makes]
    simp [Act.lasting]
  refine ⟨c, by simp [Ref.isActor, kind], target, (searching.young c rfl).1, ?_⟩
  exact
    { searching
      collecting := effect.collecting.trans begun.collecting
      cycles := effect.cycles.trans begun.cycles
      count := by
        have only : (w.heap.members .fresh).Perm [c] :=
          (List.perm_ext_iff_of_nodup (effect.sound.threaded.nodup .fresh) (List.nodup_singleton c)).mpr
            fun i => by rw [fresh, List.mem_singleton]
        exact only.length_eq
      means := by
        rw [filled]
        exact means }

/-- A cycle begins, and an actor is made to carry it on. -/
theorem Kept.starts [DecidableEq α] (kept : Kept care b s.state) (empty : b.mail = [])
    (resting : s.state.heap.collecting = false) (holds : ∀ v ∈ b.refs, s.state.heap.Holds v) :
    (startCollectFrom b.refs).Ends s
      (fun began u => began = true ∧ ∃ a c, a.isActor = true ∧ a.target? = some c ∧
        ¬s.state.heap.InUse c ∧ Carries s.state b.refs a c 0 u)
      NoRoom := by
  obtain ⟨k, j, done, begun, searching⟩ :=
    Heap.Searching.begun (s := ⟨s.state.heap, s.journal⟩) kept.stock.sound resting holds
  have guards : ∀ v ∈ b.refs, k.Holds v ∧ k.Clear v := fun v on =>
    ⟨searching.holds (holds v on), searching.clear v on⟩
  have aged := kept.stepped (.begun resting begun searching.clear) (by simp [Op.writes]) rfl guards
  refine Task.ends_view ?_
  rw [resting]
  refine ends_onHeap done ?_
  have blank := wary.blank (h := k) (Ref.target?_nil (L := L))
  refine Task.Ends.bind (createActor_ends (s := ⟨{ s.state with heap := k }, j⟩) begun.sound .trace
    blank.1) ?_
  rintro a u ⟨f, table, m, same, means, effect⟩
  have made : Kept wary b u.state := by
    have acted := aged.stepped (.acted effect) (by simp [Op.writes, Act.writes]) rfl fun v on =>
      guarded_of_effect effect (guards v on)
    rw [same]
    exact acted.retabled table
  obtain ⟨c, isActor, target, new, scans⟩ : ∃ c, a.isActor = true ∧ a.target? = some c ∧
      ¬s.state.heap.InUse c ∧ Scans s.state b.refs c 0 u.state :=
    scans_of_born begun searching (by rw [same]; exact effect) means.isFunc means
  have sent : (send a .nil).Ends u
      (fun _ v => a.isActor = true ∧ ∃ l pool, l.entry.note = ⟨0, a, .nil⟩ ∧
        Kept wary { b with mail := b.mail ++ [l], pool } v) NoRoom :=
    send_ends made (scans.admits target) (wary.blank Ref.target?_nil) 0
      (fun _ full => Or.inl ⟨rfl, full⟩) fun notActor => by simp [isActor] at notActor
  have ends := sent.and ((send_stills made (scans.admits target) (wary.blank Ref.target?_nil)).and
    (Steady.ends inferInstance u))
  refine Task.Ends.bind (ends.mono (fun _ _ => id) fun _ _ => And.left) ?_
  rintro - v ⟨⟨-, l, pool, note, posted⟩, still, setup⟩
  have setup' : v.state.setup = { s.state.setup with behaviors := table } := by
    rw [setup, same]
    rfl
  refine Task.ends_pure ⟨rfl, a, c, isActor, target, new, ?_⟩
  exact
    { toScans := scans.still still posted.stock.sound (broadens_of_setup setup)
      kept := ⟨_, posted⟩
      mailbox := by simp [posted.mailbox, empty, note]
      timers := posted.timerList.trans kept.timerList.symm
      delivered := congrArg Setup.delivered setup'
      capacity := congrArg Setup.capacity setup'
      guest := congrArg Setup.guest setup' }

/-- In a world with an empty mailbox a cycle that an actor carries on keeps the cells that would be kept by
one that is run at once, and the cell of the actor. It takes one delivery for each cell that may be
reclaimed and is in reach of the roots, and one more. -/
theorem Course.concurrent_agrees [DecidableEq α]
    (course : Course Proper (Point.new capacity traced now guest journal) trace p)
    (empty : p.world.pending = 0) (resting : p.world.heap.collecting = false)
    (room : 1 ≤ p.world.capacity) :
    ∃ roots, gatherRoots p.logged = .ok roots p.logged ∧ ((∀ v ∈ roots, p.world.heap.Holds v) →
      ∃ g, forceCollect p.logged = .ok () g ∧ startCollect.Ends p.logged
        (fun began u => began = true ∧ ∃ a c, a.target? = some c ∧ ¬p.world.heap.InUse c ∧
          u.mailbox = [(a, .nil)] ∧
          ∀ (host : Host L α γ) (clock : Nat → γ → Moment) (budget : Int) (j : Journal),
            (p.world.heap.reached roots).ncard + 1 ≤ budget →
            Early p.world clock (min budget.toNat ((p.world.heap.reached roots).ncard + 2)) →
            (World.run host clock budget).Ends ⟨u, j⟩
              (fun left v => left = some (budget.toNat - ((p.world.heap.reached roots).ncard + 1)) ∧
                Carried p.world roots a c v ∧ v.behaviorAt? a = some .sink ∧
                ∀ i, i ∈ v.heap.members .fresh ↔ i ∈ g.state.heap.members .fresh ∨ i = c)
              NoRoom)
        NoRoom) := by
  obtain ⟨own, settled⟩ := course.settled
  obtain ⟨b, kept, gathered⟩ := settled.gathers (s := p.logged)
  refine ⟨b.refs, gathered, fun holds => ?_⟩
  have sound := kept.stock.sound
  have none : b.mail = [] := List.eq_nil_of_length_eq_zero (kept.pending.symm.trans empty)
  obtain ⟨k, j, done, collected⟩ :=
    Heap.fullCollect_collected (s := ⟨p.world.heap, p.logged.journal⟩) sound resting holds
  have forced : forceCollect p.logged = .ok () ⟨{ p.world with heap := k }, j⟩ :=
    Task.bind_eq_ok.mpr ⟨_, _, gathered, onHeap_ok done⟩
  refine ⟨_, forced, Task.ends_bind_ok gathered ((kept.starts none resting holds).mono ?_ fun _ _ => id)⟩
  rintro began u ⟨rfl, a, c, isActor, target, new, carries⟩
  refine ⟨rfl, a, c, target, new, carries.mailbox, fun host clock budget j enough early => ?_⟩
  refine (Carries.run (s := ⟨u, j⟩) target isActor sound holds carries room host enough early).mono ?_
    fun _ _ => id
  rintro left v ⟨answer, carried⟩
  refine ⟨answer, carried, carried.means.behaviorAt? target, fun i => ?_⟩
  exact (carried.fresh i).trans (or_congr_left (collected.fresh i).symm)

open Eager (eagerly) in
/-- A registered actor, for which a timer is waiting, is traced by one delivery, and the tracing actor
retires with the next. -/
theorem concurrent_registered : ∃ (trace : List (Moved .twoLow Empty Unit)) (p : Point .twoLow Empty Unit)
    (roots : List (Ref .twoLow)) (u v : World .twoLow Empty Unit) (a : Ref .twoLow) (c : Nat) (j l : Journal),
    Course Proper quiet trace p ∧ gatherRoots p.logged = .ok roots p.logged ∧ p.world.timerList ≠ [] ∧
      startCollect p.logged = .ok true ⟨u, j⟩ ∧
      run (fun name => nomatch name) (fun _ _ => .zero) 5 ⟨u, j⟩ = .ok (some 3) ⟨v, l⟩ ∧
      Carried p.world roots a c v ∧ v.behaviorAt? a = some .sink ∧ 6 ∈ v.heap.members .fresh := by
  obtain ⟨f, q, noCell, target, worked⟩ : ∃ f q : Ref .twoLow, f.target? = none ∧ q.target? = some 6 ∧
      (eagerly (quiet.after (.call (.function .sink))) fun p₁ =>
        eagerly (p₁.after (.call (.heap (.act (.actorCell f .nil))))) fun p₂ =>
        eagerly (p₂.after (.call (.addRoot q))) fun p₃ =>
        eagerly (p₃.after (.call (.sendAfter 1000000 q .nil))) fun p₄ =>
        eagerly (stateAfter (startCollect p₄.logged)) fun u =>
        eagerly (stateAfter (runFrom (fun name => nomatch name) (fun _ _ => .zero) 0 1 u)) fun v =>
        eagerly (stateAfter (runFrom (fun name => nomatch name) (fun _ _ => .zero) 1 1 v)) fun w => decide (
          (quiet.moved (.call (.function .sink))).outcome = .ok (some f) ∧
          (p₁.moved (.call (.heap (.act (.actorCell f .nil))))).outcome = .ok (some q) ∧
          (p₂.moved (.call (.addRoot q))).outcome = .ok none ∧
          (p₃.moved (.call (.sendAfter 1000000 q .nil))).outcome = .ok none ∧
          p₂.world.heap.members .fresh = [6] ∧ p₃.world.heap.members .fresh = [6] ∧
          p₄.world.heap.members .fresh = [6] ∧ p₄.world.heap.collecting = false ∧ p₄.world.pending = 0 ∧
          1 ≤ p₄.world.capacity ∧ p₄.world.timerList.length = 1 ∧
          (∀ x ∈ p₄.world.timerList, Moment.zero < x.1) ∧
          outcomeOf (gatherRoots p₄.logged) = .ok [q, q, .nil] ∧
          outcomeOf (startCollect p₄.logged) = .ok true ∧ u.state.isOver = false ∧
          outcomeOf (runFrom (fun name => nomatch name) (fun _ _ => .zero) 0 1 u) = .ok (some 0) ∧
          outcomeOf (runFrom (fun name => nomatch name) (fun _ _ => .zero) 1 1 v) = .ok (some 0) ∧
          outcomeOf (runFrom (fun name => nomatch name) (fun _ _ => .zero) 2 3 w) = .ok (some 3))) = true := by
    refine ⟨⟨6, by decide⟩, ⟨25, by decide⟩, by decide, by decide, ?_⟩
    simp only [Point.after, Point.moved, Move.next, Call.task, Op.task, Act.task, Heap.actorCell, Heap.cons,
      Heap.takeFree, addRoot, sendAfter, take, spareCell, Heap.perm, Heap.takeReserved, Heap.refillEmpty,
      Heap.refill, Heap.extend_eq_lengthen]
    decide +kernel
  obtain ⟨p₁, is₁, worked⟩ := Eager.of_eagerly worked
  obtain ⟨p₂, is₂, worked⟩ := Eager.of_eagerly worked
  obtain ⟨p₃, is₃, worked⟩ := Eager.of_eagerly worked
  obtain ⟨p₄, is₄, worked⟩ := Eager.of_eagerly worked
  obtain ⟨u, isBegun, worked⟩ := Eager.of_eagerly worked
  obtain ⟨v, isOne, worked⟩ := Eager.of_eagerly worked
  obtain ⟨w, isTwo, worked⟩ := Eager.of_eagerly worked
  obtain ⟨out₁, out₂, out₃, out₄, fresh₂, fresh₃, fresh₄, resting, noMail, room, timed, early, gathers, began,
    fits, one, two, three⟩ := of_decide_eq_true worked
  have ran : outcomeOf (run (fun name => nomatch name) (fun _ _ => .zero) 5 u) = .ok (some 3) := by
    rw [run, Task.bind_apply, Task.view_apply]
    dsimp only
    rw [fits, if_neg Bool.false_ne_true]
    calc outcomeOf (runFrom (fun name => nomatch name) (fun _ _ => .zero) 0 (1 + 4) u)
      _ = outcomeOf (runFrom (fun name => nomatch name) (fun _ _ => .zero) 1 (1 + 3) v) := by
        rw [runFrom_add (eq_ok_of_outcome one), isOne]
      _ = outcomeOf (runFrom (fun name => nomatch name) (fun _ _ => .zero) 2 3 w) := by
        rw [runFrom_add (eq_ok_of_outcome two), isTwo]
      _ = .ok (some 3) := three
  rw [isBegun] at ran
  have blank : ∀ {h : Heap .twoLow} {v : Ref .twoLow}, v.target? = none → h.Holds v :=
    fun none => (Heap.plain_of_target? none).holds
  have held : ∀ {h : Heap .twoLow}, h.members .fresh = [6] → h.Holds q :=
    fun fresh => Heap.holds_of_fresh target (by simp [fresh])
  have idle : p₂.opened = none := by rw [is₂, is₁]; rfl
  have c₁ := (Course.start : Course Proper quiet [] quiet).snoc _ is₁ out₁ (fun outer => by cases outer)
    (proper_of_unwritten rfl (by simp [Move.operands, Call.operands]))
  have c₂ := c₁.snoc _ is₂ out₂ (fun outer => by cases outer)
    (proper_of_unwritten rfl (by simp [Move.operands, Call.operands, Op.operands, Act.operands, blank, noCell]))
  have c₃ := c₂.snoc _ is₃ out₃ (fun _ => idle)
    (proper_of_unwritten rfl (by simpa [Move.operands, Call.operands] using held fresh₂))
  have c₄ := c₃.snoc _ is₄ out₄ (fun outer => by cases outer)
    (proper_of_unwritten rfl (by simp [Move.operands, Call.operands, blank, held fresh₃]))
  obtain ⟨roots, gathered, agrees⟩ := c₄.concurrent_agrees noMail resting room
  obtain rfl : roots = [q, q, .nil] := by simpa [gathered, outcomeOf] using gathers
  obtain ⟨g, -, starts⟩ := agrees (by simp [held fresh₄, blank])
  obtain ⟨own, settled⟩ := c₄.settled
  have reached : p₄.world.heap.reached [q, q, .nil] = {6} := by
    ext i
    change p₄.world.heap.Collectable i ∧ p₄.world.heap.Reach (Named [q, q, .nil]) i ↔ i = 6
    rw [settled.kept.stock.sound.collectable_iff resting, fresh₄, List.mem_singleton]
    refine and_iff_left_of_imp ?_
    rintro rfl
    exact .source ⟨q, by simp, target⟩
  rw [reached, Set.ncard_singleton] at starts
  obtain ⟨-, a, c, -, -, -, runs⟩ := starts.of_ok (eq_ok_of_outcome began)
  have run := (runs (fun name => nomatch name) (fun _ _ => .zero) 5 _ (by decide)
    fun i _ _ => early).of_ok (eq_ok_of_outcome ran)
  obtain ⟨-, carried, sink, -⟩ := run
  refine ⟨_, p₄, _, _, _, a, c, _, _, c₄, gathered, ?_, eq_ok_of_outcome began, eq_ok_of_outcome ran, carried,
    sink, (carried.fresh 6).mpr (Or.inl (by simp [reached]))⟩
  intro no
  simp [no] at timed

end Treadmill.World

import Mathlib
import Treadmill.Proofs.World.Lore
import Treadmill.Proofs.World.Order

/-!
The lore of a course. A fair user works with the references that a world has answered, and leaves it to
the world to collect (`Fair`). What is known of its world stays right with each move (`Aware.next`).
-/

namespace Treadmill
variable {L : Layout} {α γ : Type}

/-! ### The lore of a course -/

open World in

/-- The lore after a move that has led to the heap `k`. -/
def Lore.after (l : Lore L α) (k : Heap L) : Moved L α γ → Lore L α
  | ⟨.call (.function b), .ok (some f)⟩ => { l with names := (f, b) :: l.names }
  | ⟨.call (.heap op), o⟩ => l.record ⟨op, o⟩ k
  | _ => l

namespace World
variable [DecidableEq α]

/-- Where a trace leads from `start`, with what is known on the way. -/
def replay (start : Point L α γ) (trace : List (Moved L α γ)) : Lore L α × Point L α γ :=
  trace.foldl (fun at_ d => (Lore.after at_.1 (at_.2.after d.move).world.heap d, at_.2.after d.move))
    (.empty, start)

/-- What is known after a trace from `start`. -/
def loreOf (start : Point L α γ) (trace : List (Moved L α γ)) : Lore L α := (replay start trace).1

/-- What a fair user does. It works with references that were answered, makes actors only of function
references that were answered, and only the actor of a delivery under way gets another behavior. -/
structure Fair (start : Point L α γ) (trace : List (Moved L α γ)) (p : Point L α γ) (m : Move L α γ) :
    Prop where
  allowed : ∀ v ∈ m.given, (loreOf start trace).Allows v
  leaves : m.LeavesCollecting p
  registers : ∀ f st, m = .call (.heap (.act (.actorCell f st))) →
    f ∈ (loreOf start trace).names.map Prod.fst
  becomes : ∀ a f st, m = .call (.heap (.act (.setActor a f st))) →
    f ∈ (loreOf start trace).names.map Prod.fst ∧ ∃ d, p.opened = some d ∧ d.delivery.this = a

variable {allows : List (Moved L α γ) → Point L α γ → Move L α γ → Prop} {start p q : Point L α γ}
  {trace more : List (Moved L α γ)} {m : Move L α γ} {l : Lore L α} {b : Books L} {r : Record L}
  {now : Moment} {capacity : Nat} {traced : Bool} {guest : γ} {journal : Journal} {d : Opened L α}
  {e : Issue L α} {i : Nat}

theorem Course.replay (course : Course allows start trace p) : (replay start trace).2 = p := by
  induction course with
  | start => rfl
  | move course m fits allowed enough ih =>
    simp only [World.replay, List.foldl_concat, Point.moved] at ih ⊢
    rw [ih]

theorem Course.lore (course : Course allows start trace p) (m : Move L α γ) :
    loreOf start (trace ++ [p.moved m]) =
      (loreOf start trace).after (p.after m).world.heap (p.moved m) := by
  have same := course.replay
  simp only [loreOf, World.replay, List.foldl_concat, Point.moved] at same ⊢
  rw [same]

/-! ### What a move preserves -/

theorem Lore.after_other (l : Lore L α) (k : Heap L) (p : Point L α γ)
    (noHeap : ∀ op, m ≠ .call (.heap op)) : (l.after k (p.moved m)).issues = l.issues := by
  cases m with
  | call c =>
    cases c with
    | heap op => exact absurd rfl (noHeap op)
    | function b =>
      unfold Lore.after
      split <;> first | rfl | exact absurd ‹_› (by simp [Point.moved])
    | send | sendAfter | aside | addRoot | gatherRoots | tick => rfl
  | opens | closes | drops => rfl

theorem Lore.after_heap (l : Lore L α) (p : Point L α γ) (op : Op L) :
    l.after (p.after (.call (.heap op))).world.heap (p.moved (.call (.heap op))) =
      l.record ⟨op, outcomeOf (op.task ⟨p.world.heap, p.logged.journal⟩)⟩
        (stateAfter (op.task ⟨p.world.heap, p.logged.journal⟩)).state := by
  have outcome : (p.moved (.call (.heap op))).outcome =
      outcomeOf (op.task ⟨p.world.heap, p.logged.journal⟩) := outcome_onHeap op.task p.logged
  rw [world_heap, ← outcome]
  rfl

theorem Settled.fair
    (settled : Settled (informed (loreOf start trace).live (lastStored trace)) r b p.world p.opened)
    (fits : m.Fits p) (fair : Fair start trace p m) :
    Settles (informed ((loreOf start trace).after (p.after m).world.heap (p.moved m)).live
      (lastStored (trace ++ [p.moved m]))) r p.world (p.after m).opened m (p.moved m).outcome
      (p.after m).world := by
  have admits : ∀ v ∈ m.given, p.world.heap.Plain v ∧ v.Among (loreOf start trace).live :=
    fun v on => ⟨(fair.allowed v on).elim Heap.plain_of_target? (settled.kept.stock.stands.2.refs v),
      fair.allowed v on⟩
  refine settled.next fits (fun op isHeap => ?_) (fun noHeap => ?_) (fun c isCall => ?_) fun isOpens l on => ?_
  · subst isHeap
    have plain : ∀ v ∈ op.operands, p.world.heap.Plain v := fun v on => (admits v on).1
    have sound := settled.kept.stock.sound
    have step := op.step (s := ⟨p.world.heap, p.logged.journal⟩) sound fun v on => (plain v on).holds
    have safe := sound.still_safe (s := ⟨p.world.heap, p.logged.journal⟩) plain
      (settled.spares fair.leaves) fun v on => (settled.kept.stock.kept v on).1
    rw [Lore.after_heap]
    refine settled.heap op (fun v on => (plain v on).holds) (fun i own writes => ?_) (fun v on => ?_) ?_
    · obtain ⟨v, on, target⟩ := Op.mem_writes writes
      exact Heap.not_fixed_of_collectable (plain v on i target)
        (settled.kept.stock.fixed (Books.own_cells own))
    · rw [world_heap]
      refine ⟨safe v on, (settled.kept.stock.kept v on).2.imp id fun old => ?_⟩
      exact Lore.mem_live_record.mpr (Or.inl ⟨old, fun i target =>
        (step.sound sound).not_free ((safe v on).1 i target)⟩)
    · rw [world_heap, lastStored_heap]
      exact ⟨settled.kept.stock.stands.1.step step plain,
        step.kin settled.kept.stock.stands.2 sound settled.kept.stock.stands.1 admits⟩
  · rw [lastStored_other noHeap, Lore.live, Lore.after_other _ _ _ noHeap]
    rfl
  · subst isCall
    exact admits
  · have entry := settled.kept.entry (Books.letter_entry (List.mem_of_mem_head? on))
    have guards := entry l.entry.note.target (by simp [Entry.refs])
    exact ⟨guards.1.1, guards.2⟩

omit [DecidableEq α] in
theorem Lore.names_mono (l : Lore L α) (k : Heap L) (d : Moved L α γ) {x : Ref L × Behavior α}
    (on : x ∈ l.names) : x ∈ (l.after k d).names := by
  unfold Lore.after
  split
  · exact List.mem_cons_of_mem _ on
  · exact on
  · exact on

theorem Lore.names_after (l : Lore L α) (k : Heap L) (p : Point L α γ) (m : Move L α γ)
    {x : Ref L × Behavior α} (on : x ∈ (l.after k (p.moved m)).names) :
    x ∈ l.names ∨ (p.after m).world.Means x.1 x.2 := by
  unfold Lore.after at on
  split at on
  · rename_i c f shape
    rcases List.mem_cons.mp on with rfl | old
    · obtain ⟨rfl, answered⟩ : m = .call (.function c) ∧ (p.moved m).outcome = .ok (some f) := by
        rw [shape]
        exact ⟨congrArg Moved.move shape, rfl⟩
      have means := (functionCall_ends c).of_ok (eq_ok_of_outcome answered)
      exact Or.inr (means.1 f rfl)
    · exact Or.inl old
  · exact Or.inl on
  · exact Or.inl on

/-- Work that is not done on the heap from outside leaves ordinary cells as they are. -/
theorem Settled.untouched {live : List (Ref L)} {r' : Record L} {b' : Books L}
    {opened : Option (Opened L α)} {v : Ref L}
    (settled : Settled (informed live (lastStored trace)) r b p.world p.opened)
    (settled' : Settled (informed live (lastStored (trace ++ [p.moved m]))) r' b' (p.after m).world opened)
    (noHeap : ∀ op, m ≠ .call (.heap op)) (on : v ∈ live) (target : v.target? = some i) :
    (p.after m).world.heap.contents i = p.world.heap.contents i := by
  have before := settled.kept.stock.stands
  have after := settled'.kept.stock.stands
  rw [(after.1 i (after.2.refs v on i target)).2, (before.1 i (before.2.refs v on i target)).2,
    lastStored_other noHeap]

/-- What holds along a fair course. -/
structure Aware (now : Moment) (start : Point L α γ) (trace : List (Moved L α γ)) (p : Point L α γ) :
    Prop where
  told : Told (loreOf start trace) p.world
  settled : ∃ b, Settled (informed (loreOf start trace).live (lastStored trace)) (Record.of now trace) b
    p.world p.opened
  /-- Every message in line is for an actor. -/
  addressed : ∀ n ∈ (Record.of now trace).agenda.line, n.target.isActor = true
  opened : ∀ d, p.opened = some d → d.delivery.this.isActor = true

omit [DecidableEq α] in
theorem Record.addressed_after {w : World L α γ} {o : Except Fault (Option (Ref L))}
    (verdict : m.Verdict w o) (addressed : ∀ n ∈ r.agenda.line, n.target.isActor = true) :
    ∀ n ∈ (r.after ⟨m, o⟩).agenda.line, n.target.isActor = true := by
  intro n on
  cases m with
  | call c =>
    cases c with
    | send target message =>
      cases o with
      | error f => exact addressed n on
      | ok a =>
        have isActor : target.isActor = true := by
          by_contra other
          simp [Move.Verdict, other] at verdict
        simp only [after, Agenda.post, Agenda.line, List.mem_append, List.mem_singleton] at on
        rcases on with (on | on | rfl) | on
        · exact addressed n (by simp [Agenda.line, on])
        · exact addressed n (by simp [Agenda.line, on])
        · exact isActor
        · exact addressed n (by simp only [Agenda.line, List.mem_append, on, or_true])
    | sendAfter delay target message =>
      simp only [after, afterDelay] at on
      split at on
      · split at on
        · have isActor : target.isActor = true := by
            by_contra other
            simp [Move.Verdict, other] at verdict
          simp only [Agenda.delay, Agenda.line, List.mem_append, List.mem_map] at on
          rcases on with on | ⟨x, on, rfl⟩
          · exact addressed n (by simp only [Agenda.line, List.mem_append, on, true_or])
          · rcases List.mem_cons.mp ((Agenda.insertTimer_perm _ _).mem_iff.mp on) with rfl | on
            · exact isActor
            · exact addressed _ (Agenda.timer_line on)
        · exact addressed n on
      · exact addressed n on
      · exact addressed n on
    | tick reading =>
      cases o with
      | error f => exact addressed n on
      | ok a =>
        simp only [after, Agenda.line_tick] at on
        exact addressed n on
    | heap | function | aside | gatherRoots => exact addressed n on
    | addRoot => cases o <;> exact addressed n on
  | opens =>
    simp only [after, Agenda.line_take] at on
    exact addressed n on
  | closes => cases o <;> exact addressed n on
  | drops => exact addressed n on

omit [DecidableEq α] in
theorem Settled.letter {care : Care L} (settled : Settled care r b p.world p.opened)
    (fits : Move.Fits .opens p) : ∃ l mail, b.mail = l :: mail ∧ l.entry.note ∈ r.agenda.line := by
  obtain ⟨l, mail, shape, front⟩ := settled.front fits
  exact ⟨l, mail, shape, by simp [Agenda.line, front]⟩

theorem Aware.next_opened (aware : Aware now start trace p) (fits : m.Fits p) :
    ∀ d, (p.after m).opened = some d → d.delivery.this.isActor = true := by
  intro d under
  cases m with
  | call c => exact aware.opened d under
  | opens =>
    obtain ⟨b, settled⟩ := aware.settled
    obtain ⟨l, mail, shape, inLine⟩ := settled.letter fits
    have target := settled.kept.entry (Books.letter_entry (l := l) (by simp [shape]))
      l.entry.note.target (by simp [Entry.refs])
    have ends := openLetter_ends (s := p.logged) settled.kept shape ⟨target.1.1, target.2⟩
    simp only [Point.after, Move.next] at under
    cases ran : openLetter p.logged with
    | ok d' s =>
      obtain ⟨-, -, told, -⟩ := ends.of_ok ran
      obtain rfl : d' = d := by simpa [ran] using under
      rw [told]
      exact aware.addressed _ inLine
    | error f s => simp [ran] at under
  | closes =>
    simp only [Point.after, Move.next] at under
    split at under
    · exact aware.opened d under
    · split at under <;> cases under
  | drops => cases under

theorem Aware.next (aware : Aware now start trace p) (course : Course allows start trace p)
    (fits : m.Fits p) (fair : Fair start trace p m)
    (enough : (p.moved m).outcome ≠ .error .arenaExhausted) :
    Aware now start (trace ++ [p.moved m]) (p.after m) := by
  obtain ⟨b, settled⟩ := aware.settled
  obtain ⟨verdict, b', settled'⟩ := (settled.fair fits fair).enough enough
  rw [← course.lore] at settled'
  rw [← Record.of_concat] at settled'
  refine ⟨?_, ⟨b', settled'⟩, ?_, aware.next_opened fits⟩
  · rw [course.lore] at settled' ⊢
    by_cases isHeap : ∃ op, m = .call (.heap op)
    · obtain ⟨op, rfl⟩ := isHeap
      rw [Lore.after_heap, world_heap]
      have stock := settled.kept.stock
      refine aware.told.record stock.sound stock.stands.2 (fun v on => ⟨?_, fair.allowed v on⟩)
        (fun f st same => fair.registers f st (same ▸ rfl))
        fun a f st same => (fair.becomes a f st (same ▸ rfl)).1
      exact ((fair.allowed v on).elim Heap.plain_of_target? (stock.stands.2.refs v)).holds
    · have noHeap : ∀ op, m ≠ .call (.heap op) := fun op same => isHeap ⟨op, same⟩
      have issues := Lore.after_other (loreOf start trace) (p.after m).world.heap p noHeap
      have live : ((loreOf start trace).after (p.after m).world.heap (p.moved m)).live =
          (loreOf start trace).live := by rw [Lore.live, issues]; rfl
      rw [live] at settled'
      refine ⟨issues ▸ aware.told.apart, issues ▸ aware.told.kinds, fun x on => ?_, ?_⟩
      · rcases Lore.names_after _ _ p m on with old | new
        · exact (aware.told.names x old).broadened (p.broadens m)
        · exact new
      · rw [issues]
        intro e on unswept asActor
        obtain ⟨c, i, given, target, held⟩ := aware.told.given e on unswept asActor
        refine ⟨c, i, given, target, Lore.names_mono _ _ _ ?_⟩
        rwa [settled.untouched settled' noHeap (Lore.mem_live.mpr ⟨e, on, unswept, rfl⟩) target]
  · rw [Record.of_concat]
    exact Record.addressed_after verdict aware.addressed

theorem Course.aware
    (course : Course (Fair start) start trace p)
    (isNew : start = Point.new capacity traced now guest journal) : Aware now start trace p := by
  induction course with
  | start =>
    subst isNew
    have stands : (informed [] (lastStored ([] : List (Moved L α γ)))).Stands (Heap.empty traced : Heap L) :=
      ⟨fun i on => absurd on (Heap.not_collectable_empty traced i), by simp,
        fun i on => absurd on (Heap.not_collectable_empty traced i)⟩
    exact ⟨⟨.nil, by simp [loreOf, World.replay, Lore.empty], by simp [loreOf, World.replay, Lore.empty],
      by simp [loreOf, World.replay, Lore.empty]⟩, ⟨_, settled_empty stands capacity now guest⟩,
      by simp [Record.empty, Agenda.empty, Agenda.line], by simp [Point.new]⟩
  | move course m fits fair enough ih => exact ih.next course fits fair enough

end World

end Treadmill

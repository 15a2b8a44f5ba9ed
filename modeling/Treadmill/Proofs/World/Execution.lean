import Mathlib
import Treadmill.Proofs.World.Live
import Treadmill.Proofs.World.Order

/-!
Tasks that are put together of the moves of a world (`Continues`). A delivery and a run are such tasks, as
long as the behaviors keep to the rules (`Runs.run`).
-/

namespace Treadmill.World
variable {L : Layout} {α γ β δ : Type} [DecidableEq α]
  {along : List (Moved L α γ) → Point L α γ → Prop} {p q : Point L α γ} {trace more : List (Moved L α γ)}
  {m : Move L α γ} {s : Logged (World L α γ)} {d : Opened L α} {t : WorldTask L α γ β}
  {k : β → WorldTask L α γ δ} {host : Host L α γ} {clock : Nat → γ → Moment} {now : Moment} {capacity : Nat}
  {traced : Bool} {guest : γ} {journal : Journal}

/-! ### Tasks along a way

A way is a set of traces with the points that they lead to.
-/

/-- The way may go on from this trace to `q`. -/
def Extends (along : List (Moved L α γ) → Point L α γ → Prop) (trace : List (Moved L α γ)) (q : Point L α γ) :
    Prop :=
  ∃ more, along (trace ++ more) q

/-- From `p` on, where the trace has led, `t` goes on along the way and leaves the delivery that is under
way, unless it exhausts the arena. -/
def Continues (along : List (Moved L α γ) → Point L α γ → Prop) (trace : List (Moved L α γ)) (p : Point L α γ)
    (t : WorldTask L α γ β) : Prop :=
  outcomeOf (t p.logged) = .error .arenaExhausted ∨ Extends along trace ⟨stateAfter (t p.logged), p.opened⟩

omit [DecidableEq α] in
theorem Extends.here (here : along trace p) : Extends along trace p := ⟨[], by rwa [List.append_nil]⟩

omit [DecidableEq α] in
theorem Extends.longer (later : Extends along (trace ++ more) q) : Extends along trace q := by
  obtain ⟨further, there⟩ := later
  exact ⟨more ++ further, by rwa [← List.append_assoc]⟩

omit [DecidableEq α] in
theorem Continues.still {a : β} (here : along trace p) (ran : t p.logged = .ok a p.logged) :
    Continues along trace p t := by
  refine Or.inr ?_
  rw [ran]
  exact .here here

omit [DecidableEq α] in
theorem Continues.of_ok {a : β} (continues : Continues along trace p t) (ran : t p.logged = .ok a s) :
    Extends along trace ⟨s, p.opened⟩ := by
  unfold Continues at continues
  rw [ran] at continues
  exact continues.resolve_left (by simp [outcomeOf])

omit [DecidableEq α] in
theorem Continues.view {get : World L α γ → β} (rest : Continues along trace p (k (get p.world))) :
    Continues along trace p (Task.view get >>= k) := rest

omit [DecidableEq α] in
theorem Continues.bind (first : Continues along trace p t)
    (rest : ∀ a s more, t p.logged = .ok a s → along (trace ++ more) ⟨s, p.opened⟩ →
      Continues along (trace ++ more) ⟨s, p.opened⟩ (k a)) :
    Continues along trace p (t >>= k) := by
  unfold Continues at first ⊢
  rw [Task.bind_apply]
  cases ran : t p.logged with
  | error f s =>
    rw [ran] at first
    exact first.imp (fun exhausted => congrArg _ (Except.error.inj exhausted)) id
  | ok a s =>
    rw [ran] at first
    obtain ⟨more, there⟩ := first.resolve_left (by simp [outcomeOf])
    exact (rest a s more ran there).imp id Extends.longer

/-- A call goes on along the way if it is a move of it, whatever is made of its answer. -/
theorem Continues.call (c : Call L α γ) (answer : β → Option (Ref L))
    (same : c.task p.logged = (t >>= fun a => pure (answer a)) p.logged)
    (next : (p.moved (.call c)).outcome ≠ .error .arenaExhausted →
      along (trace ++ [p.moved (.call c)]) (p.after (.call c))) : Continues along trace p t := by
  have next := or_iff_not_imp_left.mpr next
  simp only [Point.moved, Point.after, Move.next, same, Task.bind_apply] at next
  unfold Continues
  cases ran : t p.logged with
  | ok a s =>
    rw [ran] at next
    exact Or.inr ⟨_, next.resolve_left (by simp [outcomeOf])⟩
  | error f s =>
    rw [ran] at next
    exact next.imp (fun exhausted => congrArg _ (Except.error.inj exhausted)) fun there => ⟨_, there⟩

/-! ### Deliveries and runs -/

/-- Whether a run makes the move itself. -/
def Move.isOwn : Move L α γ → Bool
  | call (.aside ..) | call (.tick _) | opens | closes | drops => true
  | call (.heap _) | call (.function _) | call (.send ..) | call (.sendAfter ..) | call (.addRoot _)
  | call .gatherRoots => false

/-- What a run does of itself goes on along the way. -/
def Runs (along : List (Moved L α γ) → Point L α γ → Prop) : Prop :=
  ∀ trace p m, along trace p → m.isOwn = true → m.Fits p → (p.moved m).outcome ≠ .error .arenaExhausted →
    along (trace ++ [p.moved m]) (p.after m)

/-- The behaviors keep to the way. -/
def Behaves (along : List (Moved L α γ) → Point L α γ → Prop) (host : Host L α γ) : Prop :=
  ∀ trace p d, along trace p → p.opened = some d → Continues along trace p (act host d.behavior d.delivery)

namespace Runs
variable (runs : Runs along)
include runs

theorem next (here : along trace p) (own : m.isOwn = true) (fits : m.Fits p) :
    (m.next p).1 = .error .arenaExhausted ∨ along (trace ++ [p.moved m]) (m.next p).2 :=
  or_iff_not_imp_left.mpr (runs _ _ _ here own fits)

theorem dropped (here : along trace ⟨s, some d⟩) : Extends along trace ⟨s, none⟩ :=
  ⟨_, (runs.next (m := .drops) here rfl rfl).resolve_left (by simp [Move.next])⟩

theorem closed (here : along trace ⟨s, some d⟩) : outcomeOf (closeLetter d s) = .error .arenaExhausted ∨
    Extends along trace ⟨stateAfter (closeLetter d s), none⟩ := by
  have next := runs.next (m := .closes) here rfl rfl
  simp only [Move.next] at next
  cases ran : closeLetter d s with
  | ok _ u =>
    rw [ran] at next
    exact Or.inr ⟨_, next.resolve_left (by simp)⟩
  | error f u =>
    rw [ran] at next
    exact next.imp (fun exhausted => congrArg _ (Except.error.inj exhausted)) fun there => ⟨_, there⟩

/-- A delivery goes on along the way, be it that its behavior gives up. -/
theorem dispatch (here : along trace p) (idle : p.opened = none) (behaves : Behaves along host) :
    Continues along trace p (dispatch host) := by
  rw [dispatch_eq]
  refine Continues.view ?_
  cases filled : p.world.mailFirst.isNil with
  | true => exact .still here rfl
  | false =>
    have next := runs.next (m := .opens) here rfl ⟨idle, filled⟩
    simp only [Move.next] at next
    simp only [Continues, Bool.false_eq_true, if_false, Task.bind_apply, idle]
    cases opened : openLetter p.logged with
    | error f s =>
      rw [opened] at next
      exact next.imp (fun exhausted => congrArg _ (Except.error.inj exhausted)) fun there => ⟨_, there⟩
    | ok d s =>
      rw [opened] at next
      have there := next.resolve_left (by simp)
      have acted := behaves _ _ d there rfl
      simp only [Continues] at acted ⊢
      cases ran : act host d.behavior d.delivery s with
      | error f u =>
        rw [ran] at acted
        refine acted.imp (fun exhausted => congrArg _ (Except.error.inj exhausted)) ?_
        rintro ⟨more, there⟩
        exact (runs.dropped there).longer.longer
      | ok _ u =>
        rw [ran] at acted
        obtain ⟨more, there⟩ := acted.resolve_left (by simp [outcomeOf])
        have closed := runs.closed there
        dsimp only [stateAfter] at closed ⊢
        cases ended : closeLetter d u with
        | ok _ x =>
          rw [ended] at closed
          exact Or.inr (closed.resolve_left (by simp [outcomeOf])).longer.longer
        | error f x =>
          rw [ended] at closed
          exact closed.imp (fun exhausted => congrArg _ (Except.error.inj exhausted)) fun later =>
            later.longer.longer

theorem note (here : along trace p) (e : Event) : Continues along trace p (Task.note e) :=
  .call (.aside p.world.symbols p.world.guest (p.logged.journal.add e)) (fun _ => none) rfl
    (runs _ _ _ here rfl (by simp [Move.Fits, Call.isOuter]))

theorem tick (here : along trace p) (idle : p.opened = none) (reading : Moment) :
    Continues along trace p (World.tick reading) :=
  .call (.tick reading) (fun _ => none) rfl (runs _ _ _ here rfl fun _ => idle)

theorem runFrom (here : along trace p) (idle : p.opened = none) (behaves : Behaves along host)
    (attempts budget : Nat) : Continues along trace p (runFrom host clock attempts budget) := by
  induction budget generalizing attempts trace p with
  | zero => exact .still here rfl
  | succ left ih =>
    rw [World.runFrom]
    have refreshed : Continues along trace p (refresh clock attempts) := by
      unfold refresh
      split
      · exact .view (runs.tick here idle _)
      · exact .still here rfl
    refine refreshed.bind fun _ s _ _ there => ?_
    refine (runs.dispatch there idle behaves).bind fun more s _ _ there => ?_
    cases more with
    | false => exact .still there rfl
    | true =>
      refine .view ?_
      dsimp only
      split
      · refine .view (.view ?_)
        exact (runs.note there _).bind fun _ _ _ _ there => .still there rfl
      · exact ih there idle (attempts + 1)

/-- A run goes on along the way. -/
theorem run (here : along trace p) (idle : p.opened = none) (behaves : Behaves along host)
    (clock : Nat → γ → Moment) (budget : Int) : Continues along trace p (run host clock budget) := by
  refine .view ?_
  split
  · exact .still here rfl
  · exact runs.runFrom here idle behaves 0 _

end Runs

/-! ### Runs along courses -/

/-- Of the messages that a run delivers it needs that their targets are in use. -/
theorem runs_proper {start : Point L α γ} (targets : ∀ trace p, Course Proper start trace p →
    ∀ first ∈ p.world.mailbox.head?, p.world.heap.Holds first.1) : Runs (Course Proper start) := by
  intro trace p m course own fits enough
  refine course.move m fits ?_ enough
  cases m with
  | call c =>
    cases c with
    | aside | tick => exact ⟨by simp [Move.operands, Call.operands], by simp [Move.writes]⟩
    | heap | function | send | sendAfter | addRoot | gatherRoots => cases own
  | opens =>
    refine ⟨fun v on => ?_, by simp [Move.writes]⟩
    simp only [Move.operands, Option.mem_toList, Option.map_eq_some_iff] at on
    obtain ⟨first, front, rfl⟩ := on
    exact targets _ _ course first front
  | closes | drops => exact ⟨by simp [Move.operands], by simp [Move.writes]⟩

/-- Every modest course is a proper one. -/
theorem Course.proper (course : Course Modest (Point.new capacity traced now guest journal) trace p) :
    Course Proper (Point.new capacity traced now guest journal) trace p := by
  induction course with
  | start => exact .start
  | @move trace p course m fits modest enough ih =>
    refine ih.move m fits ⟨fun v on => ?_, fun i writes fixed => ?_⟩ enough
    · cases m with
      | call c => exact (modest.plain v on).holds
      | opens =>
        obtain ⟨b, settled⟩ := course.careful
        simp only [Move.operands, settled.kept.mailbox, List.head?_map, Option.map_map, Option.mem_toList,
          Option.map_eq_some_iff] at on
        obtain ⟨l, front, rfl⟩ := on
        have entry := settled.kept.entry (Books.letter_entry (List.mem_of_mem_head? front))
        exact (entry _ (by simp [Entry.refs])).1.holds
      | closes | drops => cases on
    · cases m with
      | call c =>
        cases c with
        | heap op =>
          obtain ⟨v, on, target⟩ := Op.mem_writes writes
          exact absurd fixed (Heap.not_fixed_of_collectable (modest.plain v on i target))
        | function | send | sendAfter | aside | addRoot | gatherRoots | tick => cases writes
      | opens | closes | drops => cases writes

end Treadmill.World

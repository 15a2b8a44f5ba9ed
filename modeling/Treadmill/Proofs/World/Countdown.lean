import Mathlib
import Treadmill.Proofs.Heap.Whole
import Treadmill.Proofs.World.Eager
import Treadmill.Proofs.World.Enclosed
import Treadmill.Proofs.World.Still

/-!
An actor that counts down in a world with nothing else to do. While its number is above zero each delivery
leaves as many messages as there were; the next one makes it a sink, which takes those that are left. So as
many messages are delivered as were sent and as its number says (`Course.counts_down`).
-/

namespace Treadmill

theorem Ref.minNumber_le_zero (L : Layout) : minNumber L ≤ 0 := by
  cases L <;> simp [minNumber, Layout.fieldBits]

namespace World
open Treadmill.Task (Tends)
variable {L : Layout} {α γ β : Type} {s : Logged (World L α γ)} {o w u : World L α γ} {h k : Heap L} {b : Books L}
  {known : Behavior α} {a v state less : Ref L} {c m left : Nat} {n : Int} {x : Ref L × Ref L} {l : Letter L}
  {mail : List (Letter L)} {d : Opened L α} {e : Entry L} {held : List (Entry L)} {messages rest sent : List (Ref L)}

/-! ### An actor that waits for messages -/

/-- Asks of a reference only that its cell is in use. What was in use in `o` still is, and the cell `c`
holds `x`. -/
def keeping (o : Heap L) (c : Nat) (x : Ref L × Ref L) : Care L :=
  { lenient with
    Stands := fun h => h.Collectable c ∧ h.contents c = x ∧ ∀ v, o.Holds v → h.Holds v
    stands_filed := fun filed ⟨on, same, holds⟩ =>
      ⟨(filed.collectable c).mpr on, (filed.contents_collectable on).trans same,
        fun v held => filed.holds (holds v held)⟩
    stands_read := fun effect _ ⟨on, same, holds⟩ =>
      ⟨(effect.collectable c).mpr (Or.inl on), (effect.contents c (Or.inl on)).trans same,
        fun v held => effect.holds (holds v held)⟩ }

/-- The state of an actor. -/
def stateAt? (w : World L α γ) (actor : Ref L) : Option (Ref L) := actor.target?.map fun i => (w.heap.contents i).2

/-- `w` has come of `o` by `m` deliveries, and the cell `c` holds an actor with this behavior and state. -/
structure Poised (o : World L α γ) (c : Nat) (known : Behavior α) (state : Ref L) (m : Nat) (b : Books L)
    (w : World L α γ) : Prop where
  kept : ∃ f, Kept (keeping o.heap c (f, state)) b w ∧ w.Means f known
  timers : b.timers = []
  delivered : w.delivered = o.delivered + m
  capacity : w.capacity = o.capacity

theorem Kept.cell_holds (kept : Kept (keeping o.heap c x) b w) (target : a.target? = some c) : w.heap.Holds a :=
  fun _ named => Or.inl (Option.some.inj (target.symm.trans named) ▸ kept.stock.stands.1)

/-- Work on the heap that makes no permanent cell and writes no cell but that of the actor. -/
theorem Kept.acted {act : Act L} {answer : Option (Ref L)} (kept : Kept (keeping o.heap c x) b w)
    (effect : Effect act w.heap answer k) (passing : act.lasting = false)
    (writes : ∀ r, act.writes = some r → r.target? = some c) :
    Kept (keeping o.heap c (act.write c x)) b { w with heap := k } := by
  obtain ⟨on, same, holds⟩ := kept.stock.stands
  refine kept.passing (.acted effect) (fun i own wrote => ?_) ?_ (fun _ _ => trivial)
    ⟨(effect.collectable c).mpr (Or.inl on), ?_, fun v held => effect.holds (holds v held)⟩
  · obtain ⟨r, wrote, target⟩ := Option.bind_eq_some_iff.mp wrote
    obtain rfl : c = i := Option.some.inj ((writes r wrote).symm.trans target)
    exact Heap.not_fixed_of_collectable on (kept.stock.fixed (Books.own_cells own))
  · cases act <;> first | rfl | cases passing
  · rw [effect.contents c (Or.inl on), same]

namespace Poised
variable (poised : Poised o c known state m b s.state) (target : a.target? = some c)
include poised target

theorem behaviorAt? : s.state.behaviorAt? a = some known := by
  obtain ⟨f, kept, means⟩ := poised.kept
  refine Means.behaviorAt? ?_ target
  rwa [kept.stock.stands.2.1]

theorem stateAt? : s.state.stateAt? a = some state := by
  obtain ⟨f, kept, -⟩ := poised.kept
  simp [World.stateAt?, target, kept.stock.stands.2.1]

/-- Its message is taken out, and its behavior is found. -/
theorem opens [DecidableEq α] (isActor : a.isActor = true) (enclosed : s.state.Enclosed) (shape : b.mail = l :: mail)
    (refs : l.entry.refs = [a, v]) (holds : o.heap.Holds v) : openLetter.Ends s
      (fun d u => d.delivery = ⟨a, v⟩ ∧ d.behavior = known ∧ d.outer = b.current ∧ d.entry.Points l.entry.cell ∧
        Poised o c known state m { b with
          mail, pool := l.node :: b.pool, held := l.entry :: b.held, current := d.entry } u)
      fun _ _ => False := by
  obtain ⟨f, kept, means⟩ := poised.kept
  obtain ⟨this, what⟩ : l.entry.note.target = a ∧ l.entry.note.message = v := by simpa [Entry.refs] using refs
  have admits : (keeping o.heap c (f, state)).Admits s.state.heap l.entry.note.target :=
    this ▸ kept.cell_holds target
  have tends : Tends Whole [] (openLetter : WorldTask L α γ (Opened L α)) := inferInstance
  have ends := (openLetter_ends kept shape admits).and
    ((Steady.ends inferInstance s).and (enclosed.ends tends (by simp)))
  rw [this, what] at ends
  refine ends.mono ?_ ?_
  · rintro d u ⟨⟨points, outer, delivery, behaves, kept⟩, same, -⟩
    have later : Poised o c known state m _ u :=
      { kept := ⟨f, kept, means.broadened (broadens_of_setup same)⟩
        timers := poised.timers
        delivered := (congrArg Setup.delivered same).trans poised.delivered
        capacity := (congrArg Setup.capacity same).trans poised.capacity }
    rw [Poised.behaviorAt? (s := ⟨u, s.journal⟩) later target, Option.some.injEq] at behaves
    exact ⟨delivery, behaves.symm, outer, points, later⟩
  · rintro fault u ⟨⟨light, kept, never⟩, same, whole⟩
    have enclosed : u.Enclosed := whole.resolve_left fun exhausted => by
      rw [exhausted] at light
      cases light
    have means := means.broadened (broadens_of_setup same)
    have known : u.behaviorAt? a = some known := Means.behaviorAt? (by rwa [kept.stock.stands.2.1]) target
    have inside : u.heap.Encloses a := (kept.cell_holds target).encloses kept.stock.sound
    have inside' : u.heap.Encloses v := (kept.stock.stands.2.2 v holds).encloses kept.stock.sound
    exact never
      { isActor
        behavior := by simp [known]
        target := fun _ => enclosed.heap.showFrom_whole inside _ _
        message := fun _ => enclosed.heap.showFrom_whole inside' _ _ }

omit target in
theorem closes (isHeld : b.held = e :: held) (points : d.entry.Points e.cell) : (closeLetter d).Ends s
    (fun _ u => Poised o c known state (m + 1) { b with held, pool := e.cell :: b.pool, current := d.outer } u)
    fun _ _ => False := by
  obtain ⟨f, kept, means⟩ := poised.kept
  have ends : (closeLetter d).Ends s _ fun _ _ => False := closeLetter_ends kept isHeld points
  refine (ends.and (closeLetter_setup d s)).mono ?_ fun _ _ => And.left
  rintro - u ⟨kept, same⟩
  exact
    { kept := ⟨f, kept, means.broadened (broadens_of_behaviors (congrArg Setup.behaviors same :))⟩
      timers := poised.timers
      delivered := by rw [show u.delivered = _ from congrArg Setup.delivered same, poised.delivered, Nat.add_assoc]
      capacity := (congrArg Setup.capacity same : u.capacity = _).trans poised.capacity }

theorem sends (isActor : a.isActor = true) (holds : o.heap.Holds v) : (send a v).Ends s
    (fun _ u => ∃ l pool, l.entry.refs = [a, v] ∧
      Poised o c known state m { b with mail := b.mail ++ [l], pool } u)
    NoRoom := by
  obtain ⟨f, kept, means⟩ := poised.kept
  have ends : (send a v).Ends s _ NoRoom :=
    send_ends kept (kept.cell_holds target) (kept.stock.stands.2.2 v holds) 0 (fun _ full => Or.inl ⟨rfl, full⟩)
      fun other => by simp [isActor] at other
  refine (ends.and (Steady.ends inferInstance s)).mono ?_ fun _ _ => And.left
  rintro - u ⟨⟨-, l, pool, note, kept⟩, same⟩
  refine ⟨l, pool, by simp [Entry.refs, note], ?_⟩
  exact
    { kept := ⟨f, kept, means.broadened (broadens_of_setup same)⟩
      timers := poised.timers
      delivered := (congrArg Setup.delivered same).trans poised.delivered
      capacity := (congrArg Setup.capacity same).trans poised.capacity }

theorem reads (isActor : a.isActor = true) : (onHeap (Heap.state a) : WorldTask L α γ (Ref L)).Ends s
    (fun r u => r = state ∧ Poised o c known state m b u) fun _ _ => False := by
  obtain ⟨f, kept, means⟩ := poised.kept
  rcases (Act.state a).outcome (s := ⟨s.state.heap, s.journal⟩) kept.stock.sound
    (by simpa [Act.operands] using kept.cell_holds target) with ⟨g, refusal, -⟩ | ⟨-, answer, k, j, done, effect⟩
  · simp [Act.refusal, isActor] at refusal
  · obtain ⟨r, v, read, same⟩ := Task.bind_eq_ok.mp done
    obtain ⟨rfl, rfl⟩ : some r = answer ∧ v = ⟨k, j⟩ := by simpa using same
    refine Task.ends_of_ok (onHeap_ok read) ⟨?_, ?_⟩
    · have answered := (effect.read a .rest rfl).2 c target
      rw [kept.stock.stands.2.1] at answered
      exact Option.some.inj answered
    · exact { poised with kept := ⟨f, kept.acted effect rfl (by simp [Act.writes]), means⟩ }

theorem becomes [DecidableEq α] (isActor : a.isActor = true) (next : Behavior α) {fresh : Ref L}
    (holds : s.state.heap.Holds fresh) : (becomeActor a next fresh).Ends s
      (fun _ u => Poised o c next fresh m b u) NoRoom := by
  obtain ⟨f, kept, -⟩ := poised.kept
  refine (becomeActor_ends kept.stock.sound (kept.cell_holds target) next holds).mono ?_
    fun _ _ failed => failed.2 isActor
  rintro - u ⟨g, table, k, rfl, means, effect⟩
  have kept := kept.acted effect rfl (by simpa [Act.writes] using target)
  rw [Act.write, if_pos target] at kept
  exact { poised with kept := ⟨g, kept.retabled table, means⟩ }

/-! ### Counting down -/

variable [DecidableEq α] (isActor : a.isActor = true) (number : state.asNumber = .ok n)
include isActor number

/-- It sends itself one less than its number. -/
theorem counts (positive : 0 < n) (named : Ref.number (n - 1) = .ok less) (message : Ref L) :
    (Actor.countdown ⟨a, message⟩).Ends s
      (fun _ u => ∃ l pool, l.entry.refs = [a, less] ∧
        Poised o c .countdown less m { b with mail := b.mail ++ [l], pool } u)
      NoRoom := by
  have blank : ∀ {h : Heap L}, h.Holds less := (Heap.plain_of_target? (Ref.of_number named).1).holds
  unfold Actor.countdown
  refine Task.Ends.bind ((poised.reads target isActor).mono (fun _ _ => id) fun _ _ => False.elim) ?_
  rintro r u ⟨rfl, poised⟩
  refine Task.ends_bind_ok (u := u) (by rw [number]; rfl) ?_
  rw [if_pos positive]
  refine Task.ends_bind_ok (u := u) (by rw [named]; rfl) ?_
  refine (poised.sends target isActor blank).bind ?_
  rintro - x ⟨l, pool, refs, poised⟩
  exact (poised.becomes target isActor .countdown blank).mono (fun _ _ later => ⟨l, pool, refs, later⟩) fun _ _ => id

/-- At zero it becomes a sink. -/
theorem retires (nothing : n ≤ 0) (message : Ref L) : (Actor.countdown ⟨a, message⟩).Ends s
    (fun _ u => Poised o c .sink .nil m b u) NoRoom := by
  unfold Actor.countdown
  refine Task.Ends.bind ((poised.reads target isActor).mono (fun _ _ => id) fun _ _ => False.elim) ?_
  rintro r u ⟨rfl, poised⟩
  refine Task.ends_bind_ok (u := u) (by rw [number]; rfl) ?_
  rw [if_neg (not_lt.mpr nothing)]
  refine Task.ends_bind_ok (Task.note_apply _ _) ?_
  exact poised.becomes (s := ⟨u.state, u.journal.add .countdownDone⟩) target isActor .sink
    (Heap.plain_of_target? Ref.target?_nil).holds

end Poised

/-! ### Deliveries -/

/-- `w` has come of `o` by `m` deliveries. The cell `c` holds the actor `a` with this behavior and state, and all
that waits are these messages to it. -/
structure Waits (o : World L α γ) (a : Ref L) (c : Nat) (known : Behavior α) (state : Ref L)
    (messages : List (Ref L)) (m : Nat) (w : World L α γ) : Prop where
  enclosed : w.Enclosed
  poised : ∃ b, Poised o c known state m b w ∧ b.mail.map (fun l => l.entry.refs) = messages.map ([a, ·])
  holds : ∀ v ∈ messages, o.heap.Holds v

namespace Waits
variable (waits : Waits o a c known state messages m w)
include waits

theorem pending : w.pending = messages.length := by
  obtain ⟨b, ⟨⟨f, kept, -⟩, -⟩, mail⟩ := waits.poised
  simpa [kept.pending] using congrArg List.length mail

theorem mailbox : w.mailFirst.isNil = messages.isEmpty := by
  obtain ⟨b, ⟨⟨f, kept, -⟩, -⟩, mail⟩ := waits.poised
  rw [kept.mail.chain.isNil, List.isEmpty_map, ← List.isEmpty_map, mail, List.isEmpty_map]

theorem notOver (room : messages.length ≤ o.capacity) : isOver w = false := by
  obtain ⟨b, poised, -⟩ := waits.poised
  refine decide_eq_false ?_
  rw [waits.pending, poised.capacity]
  omega

/-- The clock may be read. -/
theorem clocked (reading : Moment) : Waits o a c known state messages m { w with now := reading } where
  enclosed := ⟨waits.enclosed.heap, waits.enclosed.links⟩
  poised := by
    obtain ⟨b, poised, mail⟩ := waits.poised
    obtain ⟨f, kept, means⟩ := poised.kept
    exact ⟨{ b with now := reading }, { poised with kept := ⟨f, kept.clocked reading, means⟩ }, mail⟩
  holds := waits.holds

end Waits

/-- A behavior that sends the actor these messages and gives it another behavior and state. -/
structure Works [DecidableEq α] (host : Host L α γ) (o : World L α γ) (a : Ref L) (c : Nat) (known next : Behavior α)
    (state state' : Ref L) (sent : List (Ref L)) : Prop where
  tends : ∀ more message, Tends Whole (a :: message :: more) (act host known ⟨a, message⟩)
  holds : ∀ v ∈ sent, o.heap.Holds v
  ends : ∀ {m b} {s : Logged (World L α γ)} (message : Ref L), Poised o c known state m b s.state →
    (act host known ⟨a, message⟩).Ends s
      (fun _ u => ∃ letters pool, letters.map (fun l : Letter L => l.entry.refs) = sent.map ([a, ·]) ∧
        Poised o c next state' m { b with mail := b.mail ++ letters, pool } u)
      NoRoom

section
variable [DecidableEq α] {host : Host L α γ} {next : Behavior α} {state' : Ref L} (target : a.target? = some c)
  (isActor : a.isActor = true)
include target isActor

theorem Waits.dispatches (waits : Waits o a c known state (v :: rest) m s.state)
    (works : Works host o a c known next state state' sent) : (dispatch host).Ends s
      (fun more u => more = true ∧ Waits o a c next state' (rest ++ sent) (m + 1) u) NoRoom := by
  obtain ⟨b, poised, letters⟩ := waits.poised
  obtain ⟨l, mail, shape, refs, left⟩ : ∃ l mail, b.mail = l :: mail ∧ l.entry.refs = [a, v] ∧
      mail.map (fun l => l.entry.refs) = rest.map ([a, ·]) := by
    rw [List.map_cons] at letters
    exact List.map_eq_cons_iff.mp letters
  have filled : s.state.mailFirst.isNil = false := waits.mailbox
  rw [dispatch_eq]
  refine Task.ends_view ?_
  rw [filled]
  have opening : Tends Whole [] (openLetter : WorldTask L α γ (Opened L α)) := inferInstance
  have opens := (poised.opens target isActor waits.enclosed shape refs (waits.holds v (by simp))).and
    (waits.enclosed.ends opening (by simp))
  refine Task.Ends.bind (opens.mono (fun _ _ => id) fun _ _ failed => failed.1.elim) ?_
  rintro d u ⟨⟨delivery, rfl, outer, points, poised⟩, enclosed, within⟩
  rw [delivery]
  have given : ∀ r ∈ [a, v, d.entry, d.outer], u.state.heap.Encloses r := by
    simpa [HasRefs.refs, delivery, and_comm, and_assoc, and_left_comm] using! within
  refine Task.Ends.bind (((works.ends v poised).and (enclosed.ends (works.tends _ v) given)).mono (fun _ _ => id)
    fun _ _ => And.left) ?_
  rintro ⟨⟩ x ⟨⟨more, pool, same, poised⟩, enclosed, within⟩
  have entry : Known [a, v, d.entry, d.outer] d.entry := ⟨Or.inl (by simp)⟩
  have before : Known [a, v, d.entry, d.outer] d.outer := ⟨Or.inl (by simp)⟩
  have closing : Tends Whole [a, v, d.entry, d.outer] (closeLetter d : WorldTask L α γ Unit) := inferInstance
  refine Task.Ends.bind (((poised.closes rfl points).and (enclosed.ends closing within)).mono (fun _ _ => id)
    fun _ _ failed => failed.1.elim) ?_
  rintro - y ⟨poised, enclosed, -⟩
  refine Task.ends_pure ⟨rfl, enclosed, ⟨_, poised, ?_⟩, fun r on => ?_⟩
  · simp [left, same]
  · rcases List.mem_append.mp on with old | new
    · exact waits.holds r (by simp [old])
    · exact works.holds r new

omit target isActor in
theorem works_sink : Works host o a c .sink .sink state state [] where
  tends more message := inferInstanceAs (Tends Whole _ (pure ()))
  holds := by simp
  ends _ poised := Task.ends_pure ⟨[], _, rfl, by simpa using poised⟩

theorem works_above (number : state.asNumber = .ok n) (positive : 0 < n) (named : Ref.number (n - 1) = .ok less) :
    Works host o a c .countdown .countdown state less [less] where
  tends more message := by
    have this : Known (a :: message :: more) (⟨a, message⟩ : Delivery L).this := ⟨Or.inl (by simp)⟩
    have what : Known (a :: message :: more) (⟨a, message⟩ : Delivery L).what := ⟨Or.inl (by simp)⟩
    exact inferInstanceAs (Tends Whole _ (Actor.countdown ⟨a, message⟩))
  holds := by simpa using (Heap.plain_of_target? (Ref.of_number named).1).holds
  ends message poised := (poised.counts target isActor number positive named message).mono
    (fun _ _ ⟨l, pool, refs, later⟩ => ⟨[l], pool, by simp [refs], later⟩) fun _ _ => id

theorem works_zero (number : state.asNumber = .ok 0) : Works host o a c .countdown .sink state .nil [] where
  tends more message := by
    have this : Known (a :: message :: more) (⟨a, message⟩ : Delivery L).this := ⟨Or.inl (by simp)⟩
    have what : Known (a :: message :: more) (⟨a, message⟩ : Delivery L).what := ⟨Or.inl (by simp)⟩
    exact inferInstanceAs (Tends Whole _ (Actor.countdown ⟨a, message⟩))
  holds := by simp
  ends message poised := (poised.retires target isActor number le_rfl message).mono
    (fun _ _ later => ⟨[], _, rfl, by simpa using later⟩) fun _ _ => id

/-! ### Runs -/

omit target isActor [DecidableEq α] in
/-- No timer is due at any reading of the clock. -/
theorem Waits.refresh (waits : Waits o a c known state messages m s.state) (clock : Nat → γ → Moment)
    (attempts : Nat) :
    ∃ reading, World.refresh clock attempts s = .ok () ⟨{ s.state with now := reading }, s.journal⟩ := by
  obtain ⟨b, poised, -⟩ := waits.poised
  obtain ⟨f, kept, -⟩ := poised.kept
  unfold World.refresh
  split
  · exact ⟨_, tick_idle kept (by simp [poised.timers])⟩
  · exact ⟨s.state.now, rfl⟩

/-- One delivery, and what the run goes on with. -/
theorem Waits.turns (waits : Waits o a c known state (v :: rest) m s.state)
    (works : Works host o a c known next state state' sent) (room : (rest ++ sent).length ≤ o.capacity)
    {clock : Nat → γ → Moment} {attempts : Nat} {done : Option Nat → World L α γ → Prop}
    (goesOn : ∀ u : Logged (World L α γ), Waits o a c next state' (rest ++ sent) (m + 1) u.state →
      (runFrom host clock (attempts + 1) left).Ends u done NoRoom) :
    (runFrom host clock attempts (left + 1)).Ends s done NoRoom := by
  obtain ⟨reading, read⟩ := waits.refresh clock attempts
  rw [runFrom]
  refine Task.ends_bind_ok read ?_
  refine ((waits.clocked reading).dispatches (s := ⟨_, s.journal⟩) target isActor works).bind ?_
  rintro - u ⟨rfl, waits⟩
  refine Task.ends_view ?_
  rw [waits.notOver room]
  exact goesOn u waits

/-- A sink takes all messages. -/
theorem Waits.drains (waits : Waits o a c .sink .nil messages m s.state) (room : messages.length ≤ o.capacity)
    (enough : messages.length ≤ left) (clock : Nat → γ → Moment) (attempts : Nat) :
    (runFrom host clock attempts left).Ends s
      (fun r u => r = some (left - messages.length) ∧ Waits o a c .sink .nil [] (m + messages.length) u)
      NoRoom := by
  induction messages generalizing s m left attempts with
  | nil =>
    cases left with
    | zero => exact Task.ends_pure ⟨rfl, waits⟩
    | succ left =>
      obtain ⟨reading, read⟩ := waits.refresh clock attempts
      have empty : s.state.mailFirst.isNil = true := waits.mailbox
      rw [runFrom]
      have idle : dispatch host (⟨{ s.state with now := reading }, s.journal⟩ : Logged (World L α γ)) =
          .ok false ⟨{ s.state with now := reading }, s.journal⟩ := by
        simp [dispatch, Task.bind_apply, empty]
      exact Task.ends_bind_ok read (Task.ends_bind_ok idle (Task.ends_pure ⟨rfl, waits.clocked reading⟩))
  | cons v rest ih =>
    rw [List.length_cons] at room enough
    obtain ⟨left, rfl⟩ : ∃ n, left = n + 1 := ⟨left - 1, by omega⟩
    refine waits.turns target isActor works_sink (by rw [List.append_nil]; omega) fun u waits => ?_
    rw [List.append_nil] at waits
    refine (ih waits (by omega) (by omega) (attempts + 1)).mono ?_ fun _ _ => id
    rintro r w ⟨answer, waits⟩
    rw [List.length_cons, Nat.add_sub_add_right]
    exact ⟨answer, by rwa [Nat.add_right_comm, Nat.add_assoc] at waits⟩

/-- Every delivery leaves as many messages as there were until the number is zero. -/
theorem Waits.runs {n : Nat} (waits : Waits o a c .countdown state (v :: rest) m s.state)
    (number : state.asNumber = .ok n) (small : (n : Int) ≤ Ref.maxNumber L)
    (room : (v :: rest).length ≤ o.capacity) (enough : n + (v :: rest).length ≤ left)
    (clock : Nat → γ → Moment) (attempts : Nat) :
    (runFrom host clock attempts left).Ends s
      (fun r u => r = some (left - (n + (v :: rest).length)) ∧
        Waits o a c .sink .nil [] (m + (n + (v :: rest).length)) u)
      NoRoom := by
  induction n generalizing s m left attempts state v rest with
  | zero =>
    rw [List.length_cons] at room enough
    obtain ⟨left, rfl⟩ : ∃ n, left = n + 1 := ⟨left - 1, by omega⟩
    refine waits.turns target isActor (works_zero target isActor number) (by rw [List.append_nil]; omega)
      fun u waits => ?_
    rw [List.append_nil] at waits
    refine (waits.drains target isActor (by omega) (by omega) clock (attempts + 1)).mono ?_ fun _ _ => id
    rintro r w ⟨answer, waits⟩
    rw [List.length_cons, Nat.zero_add, Nat.add_sub_add_right]
    exact ⟨answer, by rwa [Nat.add_right_comm, Nat.add_assoc] at waits⟩
  | succ n ih =>
    rw [List.length_cons] at room enough
    obtain ⟨left, rfl⟩ : ∃ n, left = n + 1 := ⟨left - 1, by omega⟩
    have low := Ref.minNumber_le_zero L
    obtain ⟨less, named⟩ := Ref.number_ok (by omega : Ref.minNumber L ≤ n) (by omega : (n : Int) ≤ Ref.maxNumber L)
    have size : (rest ++ [less]).length = rest.length + 1 := by simp
    refine waits.turns target isActor
      (works_above target isActor number (by omega) (by rwa [Nat.cast_add_one, Int.add_sub_cancel]))
      (by omega) fun u waits => ?_
    obtain ⟨v', rest', same⟩ := List.exists_cons_of_ne_nil (List.append_ne_nil_of_right_ne_nil rest (by simp) :
      rest ++ [less] ≠ [])
    rw [same] at waits size
    refine (ih waits (Ref.of_number named).2 (by omega) (by omega) (by omega) (attempts + 1)).mono ?_ fun _ _ => id
    rintro r w ⟨answer, waits⟩
    rw [size] at answer waits
    rw [List.length_cons]
    refine ⟨by rw [answer]; congr 1; omega, ?_⟩
    rwa [show m + (n + 1 + (rest.length + 1)) = m + 1 + (n + (rest.length + 1)) by omega]

omit [DecidableEq α] in
theorem Waits.sends (waits : Waits o a c known state sent m s.state) (holds : o.heap.Holds v) : (send a v).Ends s
    (fun _ u => Waits o a c known state (sent ++ [v]) m u) NoRoom := by
  obtain ⟨b, poised, mail⟩ := waits.poised
  obtain ⟨f, kept, -⟩ := poised.kept
  have this : Known [a, v] a := ⟨Or.inl (by simp)⟩
  have what : Known [a, v] v := ⟨Or.inl (by simp)⟩
  have tends : Tends Whole [a, v] (send a v : WorldTask L α γ Unit) := inferInstance
  have within : ∀ r ∈ [a, v], s.state.heap.Encloses r := by
    simpa using ⟨(kept.cell_holds target).encloses kept.stock.sound,
      (kept.stock.stands.2.2 v holds).encloses kept.stock.sound⟩
  refine ((poised.sends target isActor holds).and (waits.enclosed.ends tends within)).mono ?_ fun _ _ => And.left
  rintro - u ⟨⟨l, pool, refs, poised⟩, enclosed, -⟩
  refine ⟨enclosed, ⟨_, poised, by simp [mail, refs]⟩, fun r on => ?_⟩
  rcases List.mem_append.mp on with old | new
  · exact waits.holds r old
  · exact List.mem_singleton.mp new ▸ holds

omit [DecidableEq α] in
theorem Waits.sends_all (waits : Waits o a c known state sent m s.state) (holds : ∀ v ∈ messages, o.heap.Holds v) :
    (messages.forM (send a)).Ends s (fun _ u => Waits o a c known state (sent ++ messages) m u) NoRoom := by
  induction messages generalizing s sent with
  | nil => exact Task.ends_pure (by rwa [List.append_nil])
  | cons v messages ih =>
    obtain ⟨first, others⟩ := List.forall_mem_cons.mp holds
    refine Task.Ends.bind (waits.sends target isActor first) fun _ u waits => ?_
    have ends := ih waits others
    rwa [List.append_assoc, List.singleton_append] at ends

end

/-! ### A new actor -/

variable [DecidableEq α] {trace : List (Moved L α γ)} {p : Point L α γ} {capacity : Nat} {traced : Bool}
  {now : Moment} {guest : γ} {journal : Journal}

/-- A new actor waits for its first message if there was nothing to do before. -/
theorem Course.waits (course : Course Proper (Point.new capacity traced now guest journal) trace p)
    (empty : p.world.mailbox = []) (untimed : p.world.timerList = []) (holds : p.world.heap.Holds state)
    (known : Behavior α) : (createActor known state).Ends p.logged
      (fun a u => a.isActor = true ∧ u.delivered = p.world.delivered ∧ u.capacity = p.world.capacity ∧
        ∃ c, a.target? = some c ∧ Waits u a c known state [] 0 u)
      NoRoom := by
  obtain ⟨b, settled⟩ := course.settled
  have kept := settled.kept
  have this : Known [state] state := ⟨Or.inl (by simp)⟩
  have tends : Tends Whole [state] (createActor known state : WorldTask L α γ (Ref L)) := inferInstance
  have within : ∀ r ∈ [state], p.world.heap.Encloses r := by simpa using holds.encloses kept.stock.sound
  refine ((createActor_ends kept.stock.sound known holds).and (course.enclosed.ends tends within)).mono ?_
    fun _ _ => And.left
  rintro a u ⟨⟨f, table, k, rfl, means, effect⟩, enclosed, -⟩
  obtain ⟨q, c, same, kind, target, -, filled⟩ := effect.born .actor f state rfl
  obtain rfl : a = q := Option.some.inj same
  have new : k.Collectable c := (effect.collectable c).mpr (Or.inr ⟨rfl, rfl, a, rfl, target⟩)
  have later : Kept (keeping k c (f, state)) b { p.world with heap := k } :=
    kept.passing (.acted effect) (by simp [Op.writes, Act.writes]) rfl (fun _ _ => trivial)
      ⟨new, filled, fun _ => id⟩
  have noMail : b.mail = [] := by simpa [kept.mailbox] using empty
  have noTimers : b.timers = [] := by simpa [kept.timerList] using untimed
  refine ⟨by simp [Ref.isActor, kind], rfl, rfl, c, target, enclosed, ⟨b, ?_, by simp [noMail]⟩, by simp⟩
  exact ⟨⟨f, later.retabled table, means⟩, noTimers, rfl, rfl⟩

/-- In a world with nothing to do an actor is made that counts down from `n`, and a number of messages are sent
to it, no more than there is room for. Then a run with enough budget delivers as many messages as were sent
and `n` more. It uses up as much of its budget, and leaves a sink and nothing to do. -/
theorem Course.counts_down (course : Course Proper (Point.new capacity traced now guest journal) trace p)
    (empty : p.world.mailbox = []) (untimed : p.world.timerList = []) {n : Int} (low : 0 ≤ n)
    (high : n ≤ Ref.maxNumber L) :
    ∃ r : Ref L, Ref.number n = .ok r ∧ (createActor .countdown r).Ends p.logged
      (fun a u => ∀ (messages : List (Ref L)) (host : Host L α γ) (clock : Nat → γ → Moment) (budget : Int)
        (j : Journal), messages ≠ [] → messages.length ≤ p.world.capacity → (∀ v ∈ messages, u.heap.Holds v) →
        n + messages.length ≤ budget →
        (do messages.forM (send a); run host clock budget : WorldTask L α γ (Option Nat)).Ends ⟨u, j⟩
          (fun left w => left = some (budget - (n + messages.length)).toNat ∧
            (w.delivered : Int) = p.world.delivered + (n + messages.length) ∧ w.pending = 0 ∧
            w.behaviorAt? a = some .sink ∧ w.stateAt? a = some .nil)
          NoRoom)
      NoRoom := by
  have least := Ref.minNumber_le_zero L
  obtain ⟨r, named⟩ := Ref.number_ok (by omega : Ref.minNumber L ≤ n) high
  obtain ⟨blank, number⟩ := Ref.of_number named
  refine ⟨r, named, (course.waits empty untimed (Heap.plain_of_target? blank).holds .countdown).mono ?_
    fun _ _ => id⟩
  rintro a u ⟨isActor, delivered, capacity, c, target, waits⟩ messages host clock budget j some room holds enough
  obtain ⟨n, rfl⟩ := Int.eq_ofNat_of_zero_le low
  obtain ⟨v, rest, rfl⟩ := List.exists_cons_of_ne_nil some
  refine Task.Ends.bind (waits.sends_all (s := ⟨u, j⟩) target isActor holds) fun _ x waits => ?_
  have room : (v :: rest).length ≤ u.capacity := by rwa [capacity]
  refine Task.ends_view ?_
  rw [waits.notOver room]
  refine (waits.runs target isActor number high room (by omega) clock 0).mono ?_ fun _ _ => id
  rintro left w ⟨answer, waits⟩
  obtain ⟨b, poised, -⟩ := waits.poised
  refine ⟨?_, ?_, waits.pending, poised.behaviorAt? (s := ⟨w, j⟩) target, poised.stateAt? (s := ⟨w, j⟩) target⟩
  · rw [answer]
    congr 1
    omega
  · rw [poised.delivered, delivered]
    push_cast
    omega

/-- From two, with its own reference and the empty list as messages: four messages are delivered. -/
theorem two_counted_down : ∃ (r a : Ref .twoLow) (u w : World .twoLow Empty Unit) (j l : Journal),
    Course Proper quiet [] quiet ∧ Ref.number 2 = .ok r ∧ createActor .countdown r quiet.logged = .ok a ⟨u, j⟩ ∧
      (do [a, .nil].forM (send a); run (fun name => nomatch name) (fun _ _ => .zero) 6 :
        WorldTask .twoLow Empty Unit (Option Nat)) ⟨u, j⟩ = .ok (some 2) ⟨w, l⟩ ∧
      w.delivered = 4 ∧ w.pending = 0 ∧ w.behaviorAt? a = some .sink ∧ w.stateAt? a = some .nil := by
  have course : Course Proper quiet [] quiet := .start
  obtain ⟨r, a, isTwo, target, u, isU, made, fresh, ran⟩ : ∃ r a : Ref .twoLow, Ref.number 2 = .ok r ∧
      a.target? = some 6 ∧ ∃ u, u = stateAfter (createActor .countdown r quiet.logged) ∧
      outcomeOf (createActor .countdown r quiet.logged) = .ok a ∧ u.state.heap.members .fresh = [6] ∧
      outcomeOf ((do [a, .nil].forM (send a); run (fun name => nomatch name) (fun _ _ => .zero) 6 :
        WorldTask .twoLow Empty Unit (Option Nat)) u) = .ok (some 2) := by
    refine ⟨⟨11, by decide⟩, ⟨25, by decide⟩, by decide, by decide, ?_⟩
    simp only [createActor, Heap.actorCell, Heap.cons, Heap.takeFree, List.forM, send, take, spareCell,
      Heap.perm, Heap.takeReserved, Heap.refillEmpty, Heap.refill, Heap.extend_eq_lengthen]
    decide +kernel
  subst isU
  obtain ⟨r', named, makes⟩ := course.counts_down (by decide +kernel) (by decide +kernel) (by decide : (0 : Int) ≤ 2)
    (by decide)
  obtain rfl : r = r' := by simpa [isTwo] using named
  have holds : ∀ v ∈ [a, .nil], (stateAfter (createActor .countdown r quiet.logged)).state.heap.Holds v := by
    simpa using ⟨Heap.holds_of_fresh target (by simp [fresh]), (Heap.plain_of_target? Ref.target?_nil).holds⟩
  have counted := (makes.of_ok (eq_ok_of_outcome made) [a, .nil] (fun name => nomatch name) (fun _ _ => .zero) 6 _
    (by simp) (show 2 ≤ 10 by decide) holds (show (2 : Int) + 2 ≤ 6 by decide)).of_ok (eq_ok_of_outcome ran)
  obtain ⟨-, delivered, pending, sink, state⟩ := counted
  exact ⟨r, a, _, _, _, _, course, named, eq_ok_of_outcome made, eq_ok_of_outcome ran,
    Int.ofNat_inj.mp delivered, pending, sink, state⟩

end World

end Treadmill

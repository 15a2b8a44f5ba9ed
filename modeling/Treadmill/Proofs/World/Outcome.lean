import Mathlib
import Treadmill.Proofs.World.Due
import Treadmill.Proofs.World.Works

/-!
What comes of a run (`Trail.run_outcome`), wherever the moves made so far have led and whatever behaviors do:
how many messages it has delivered, what its answer says about the mailbox, and when it has read the
clock.
-/

namespace Treadmill.World
open Treadmill.Task (Passage Passes)
variable {L : Layout} {α γ : Type} [DecidableEq α] {start p q r : Point L α γ}
  {s u v : Logged (World L α γ)} {trace more more' : List (Moved L α γ)} {m : Move L α γ} {d : Opened L α}
  {host : Host L α γ} {clock : Nat → γ → Moment} {now : Moment} {capacity : Nat} {traced : Bool} {guest : γ}
  {journal : Journal} {answer : Option Nat} {k n left budget : Nat} {f : Fault}

/-! ### Trails -/

/-- Moves one after another, whatever they are given to work on and whatever they come to. -/
inductive Trail (start : Point L α γ) : List (Moved L α γ) → Point L α γ → Prop
  | start : Trail start [] start
  | move {trace : List (Moved L α γ)} {p : Point L α γ} (trail : Trail start trace p) (m : Move L α γ)
      (fits : m.Fits p) : Trail start (trace ++ [p.moved m]) (p.after m)

theorem Course.trail {allows : List (Moved L α γ) → Point L α γ → Move L α γ → Prop}
    (course : Course allows start trace p) : Trail start trace p := by
  induction course with
  | start => exact .start
  | move _ m fits _ _ ih => exact ih.move m fits

theorem Trail.snoc (trail : Trail start trace p) (m : Move L α γ) (next : q = p.after m) (fits : m.Fits p) :
    Trail start (trace ++ [p.moved m]) q :=
  next ▸ trail.move m fits

theorem Trail.single (m : Move L α γ) (next : q = p.after m) (fits : m.Fits p) : Trail p [p.moved m] q :=
  Trail.start.snoc m next fits

theorem Trail.append (one : Trail start trace p) (two : Trail p more q) : Trail start (trace ++ more) q := by
  induction two with
  | start => rwa [List.append_nil]
  | move _ m fits ih => exact List.append_assoc .. ▸ ih.move m fits

theorem Point.along {R : Logged (World L α γ) → Logged (World L α γ) → Prop} [Passage R]
    [opens : Passes R (openLetter : WorldTask L α γ (Opened L α))]
    [closes : ∀ d : Opened L α, Passes R (closeLetter d : WorldTask L α γ Unit)] (p : Point L α γ)
    (m : Move L α γ) (calls : ∀ c, m = .call c → Passes R c.task) : R p.logged (p.after m).logged := by
  cases m with
  | call c => exact (calls c rfl).along p.logged
  | opens =>
    have along := opens.along p.logged
    simp only [Point.after, Move.next]
    cases ran : openLetter p.logged <;> simpa [ran, stateAfter] using along
  | closes =>
    simp only [Point.after, Move.next]
    cases p.opened with
    | none => exact Passage.stay _
    | some d =>
      have along := (closes d).along p.logged
      cases ran : closeLetter d p.logged <;> simpa [ran, stateAfter] using along
  | drops => exact Passage.stay _

/-- No move but a reading of the clock changes the time that a world shows or takes a timer from it. -/
theorem Point.calm (p : Point L α γ) (m : Move L α γ) (other : ∀ t, m ≠ .call (.tick t)) :
    Calm p.logged (p.after m).logged :=
  p.along m fun c same => c.calm fun t isTick => other t (same.trans (congrArg _ isTick))

theorem Call.afloat (c : Call L α γ) : Passes Afloat c.task := by
  cases c with
  | tick => unfold Call.task; infer_instance
  | heap | function | send | sendAfter | aside | addRoot | gatherRoots =>
    exact (Call.calm _ (by simp)).imp Calm.moored

theorem Trail.afloat (trail : Trail start trace p) : Afloat start.logged p.logged := by
  induction trail with
  | start => exact Passage.stay _
  | @move _ p _ m _ ih => exact Passage.join ih (p.along m fun c _ => c.afloat)

/-- Calls that are open to behaviors make a trail. -/
theorem Called.trail (called : Called s u) (opened : Option (Opened L α)) :
    ∃ more, Trail ⟨s, opened⟩ more ⟨u, opened⟩ ∧ ∀ e ∈ more, ∃ c, e.move = .call c ∧ c.isOuter = false := by
  induction called with
  | refl => exact ⟨[], .start, by simp⟩
  | @tail v w _ call ih =>
    obtain ⟨c, inner, rfl⟩ := call
    obtain ⟨more, trail, calls⟩ := ih
    refine ⟨_, trail.move (.call c) fun outer => by simp [inner] at outer, fun e on => ?_⟩
    rcases List.mem_append.mp on with on | on
    · exact calls e on
    · rw [List.mem_singleton.mp on]
      exact ⟨c, rfl, inner⟩

/-! ### The rhythm of a run -/

/-- What a run does in turn: it reads the clock, or it delivers a message. -/
inductive Beat (ι : Type)
  | reading (i : ι)
  | delivery

def Moved.beat? : Moved L α γ → Option (Beat Moment)
  | ⟨.call (.tick reading), _⟩ => some (.reading reading)
  | ⟨.opens, _⟩ => some .delivery
  | _ => none

/-- The time that was read is what the clock shows at the reading of that number. -/
inductive Beat.Shows (clock : Nat → γ → Moment) : Beat Moment → Beat Nat → Prop
  | reading (i : Nat) (guest : γ) : Beat.Shows clock (.reading (clock i guest)) (.reading i)
  | delivery : Beat.Shows clock .delivery .delivery

/-- What comes before attempt number `k` at a delivery, counted from 0. -/
def clockBeats (k : Nat) : List (Beat Nat) := if k % clockStep = 0 then [.reading (k / clockStep)] else []

/-- `n` deliveries from attempt number `k` on, each with what comes before it. -/
def beats (k n : Nat) : List (Beat Nat) := (List.range' k n).flatMap fun j => clockBeats j ++ [.delivery]

/-- What comes before the last attempt, number `k`, if that one finds no message. -/
def lastBeats (k : Nat) : Option Nat → List (Beat Nat)
  | some (_ + 1) => clockBeats k
  | some 0 | none => []

theorem beats_succ (k n : Nat) : beats k (n + 1) = clockBeats k ++ .delivery :: beats (k + 1) n := by
  simp [beats, List.range'_succ]

omit [DecidableEq α] in
theorem Moved.beat?_inner {e : Moved L α γ} (inner : ∃ c, e.move = .call c ∧ c.isOuter = false) :
    e.beat? = none := by
  obtain ⟨move, outcome⟩ := e
  obtain ⟨c, rfl, inner⟩ := inner
  cases c with
  | tick => cases inner
  | heap | function | send | sendAfter | aside | addRoot | gatherRoots => rfl

/-! ### Parts of a run -/

/-- From `s` the moves `more`, which have these beats, lead to `u`, with nothing under delivery before and
after. -/
structure Leg (clock : Nat → γ → Moment) (s : Logged (World L α γ)) (more : List (Moved L α γ))
    (u : Logged (World L α γ)) (rhythm : List (Beat Nat)) : Prop where
  trail : Trail ⟨s, none⟩ more ⟨u, none⟩
  rhythm : List.Forall₂ (Beat.Shows clock) (more.filterMap Moved.beat?) rhythm

theorem Leg.stay (s : Logged (World L α γ)) : Leg clock s [] s [] := ⟨.start, .nil⟩

theorem Leg.join {rhythm rhythm' : List (Beat Nat)} (one : Leg clock s more u rhythm)
    (two : Leg clock u more' v rhythm') : Leg clock s (more ++ more') v (rhythm ++ rhythm') :=
  ⟨one.trail.append two.trail, List.filterMap_append ▸ List.rel_append one.rhythm two.rhythm⟩

theorem tick_leg {i : Nat} (ran : tick (clock i guest) s = .ok () u) :
    ∃ more, Leg clock s more u [.reading i] := by
  have next : (Call.tick (clock i guest) : Call L α γ).task s = .ok none u := by
    rw [Call.task, Task.bind_apply, ran]
    rfl
  have trail := Trail.single (p := ⟨s, none⟩) (q := ⟨u, none⟩) (.call (.tick (clock i guest)))
    (by simp [Point.after, Move.next, next, stateAfter]) fun _ => rfl
  exact ⟨_, trail, .cons (.reading i guest) .nil⟩

instance : Steady (refresh clock k : WorldTask L α γ Unit) := by unfold refresh; infer_instance

theorem refresh_leg (ran : refresh clock k s = .ok () u) : ∃ more, Leg clock s more u (clockBeats k) := by
  unfold refresh at ran
  unfold clockBeats
  split at ran
  next due =>
    rw [if_pos due]
    exact tick_leg ran
  next other =>
    obtain rfl : s = u := by simpa using ran
    rw [if_neg other]
    exact ⟨_, .stay s⟩

omit [DecidableEq α] in
/-- If the mailbox is empty after a reading of the clock, nothing has been added to it. -/
theorem refresh_fills (moored : s.state.heap.Moored) (ran : refresh clock k s = .ok () u)
    (empty : u.state.mailFirst.isNil = true) : u.state.pending = s.state.pending := by
  unfold refresh at ran
  split at ran
  · exact (tick_fills moored _).of_ok ran empty
  · obtain rfl : s = u := by simpa using ran
    rfl

theorem dispatch_ok {any : Bool} (ran : dispatch host s = .ok any u) :
    any = false ∧ u = s ∧ s.state.mailFirst.isNil = true ∨
      any = true ∧ s.state.mailFirst.isNil = false ∧ ∃ d v w, openLetter s = .ok d v ∧
        act host d.behavior d.delivery v = .ok () w ∧ closeLetter d w = .ok () u := by
  rw [dispatch_eq, Task.bind_apply, Task.view_apply] at ran
  dsimp only at ran
  split at ran
  next empty =>
    obtain ⟨rfl, rfl⟩ : false = any ∧ s = u := by simpa using ran
    exact Or.inl ⟨rfl, rfl, empty⟩
  next filled =>
    obtain ⟨d, v, opened, ran⟩ := Task.bind_eq_ok.mp ran
    obtain ⟨⟨⟩, w, acted, ran⟩ := Task.bind_eq_ok.mp ran
    obtain ⟨⟨⟩, x, closed, ran⟩ := Task.bind_eq_ok.mp ran
    obtain ⟨rfl, rfl⟩ : true = any ∧ x = u := by simpa using ran
    exact Or.inr ⟨rfl, by simpa using filled, d, v, w, opened, acted, closed⟩

/-- A delivery is counted, and it is no occasion to read the clock. -/
theorem dispatch_leg (works : ∀ name d, Passes Called (host name d)) (ran : dispatch host s = .ok true u) :
    (∃ more, Leg clock s more u [.delivery]) ∧ u.state.delivered = s.state.delivered + 1 ∧
      u.state.capacity = s.state.capacity := by
  rcases dispatch_ok ran with ⟨none, -⟩ | ⟨-, filled, d, v, w, opened, acted, closed⟩
  · cases none
  have called : Called v w := (act_called works d.behavior d.delivery).of_ok acted
  constructor
  · obtain ⟨calls, inner, quiet⟩ := called.trail (some d)
    have first := Trail.single (p := ⟨s, none⟩) (q := ⟨v, some d⟩) .opens
      (by simp [Point.after, Move.next, opened]) ⟨rfl, filled⟩
    have last := (first.append inner).snoc (q := ⟨u, none⟩) .closes
      (by simp [Point.after, Move.next, closed]) rfl
    have silent : calls.filterMap Moved.beat? = [] :=
      List.filterMap_eq_nil_iff.mpr fun e on => Moved.beat?_inner (quiet e on)
    refine ⟨_, last, ?_⟩
    simpa [silent, Point.moved, Moved.beat?] using Beat.Shows.delivery
  · have setup : v.state.setup = s.state.setup := (Steady.ends inferInstance s).of_ok opened
    have closes := (closeLetter_setup d w).of_ok closed
    obtain ⟨calm, same⟩ := called.calm
    have delivered : v.state.delivered = s.state.delivered := congrArg Setup.delivered setup
    have capacity : v.state.capacity = s.state.capacity := congrArg Setup.capacity setup
    have delivered' : u.state.delivered = w.state.delivered + 1 := congrArg Setup.delivered closes
    have capacity' : u.state.capacity = w.state.capacity := congrArg Setup.capacity closes
    exact ⟨by rw [delivered', same, delivered], by rw [capacity', calm.capacity, capacity]⟩

theorem note_leg (s : Logged (World L α γ)) (e : Event) :
    ∃ more, Leg clock s more ⟨s.state, s.journal.add e⟩ [] := by
  have trail := Trail.single (p := ⟨s, none⟩) (q := ⟨⟨s.state, s.journal.add e⟩, none⟩)
    (.call (.aside s.state.symbols s.state.guest (s.journal.add e))) rfl fun _ => rfl
  exact ⟨_, trail, .nil⟩

/-! ### Runs -/

/-- What comes of a run that has `budget` left before attempt number `k`: from `s` it gets to `u` by the
moves `more`, `n` of which are deliveries. -/
structure Ran (clock : Nat → γ → Moment) (k budget : Nat) (s : Logged (World L α γ)) (answer : Option Nat)
    (u : Logged (World L α γ)) (n : Nat) (more : List (Moved L α γ)) : Prop where
  leg : Leg clock s more u (beats k n ++ lastBeats (k + n) answer)
  delivered : u.state.delivered = s.state.delivered + n
  within : n ≤ budget
  capacity : u.state.capacity = s.state.capacity
  spent : ∀ left, answer = some left → n = budget - left ∧ left ≤ budget
  drained : ∀ left, answer = some left → 0 < left → u.state.mailbox = []
  crammed : answer = none ↔ u.state.capacity < u.state.pending

theorem runFrom_succ_ok (ran : runFrom host clock k (left + 1) s = .ok answer u) :
    ∃ v, refresh clock k s = .ok () v ∧
      (dispatch host v = .ok false u ∧ answer = some (left + 1) ∨
        ∃ w, dispatch host v = .ok true w ∧
          (w.state.isOver = true ∧ answer = none ∧
              u = ⟨w.state, w.journal.add (.overCapacity w.state.pending w.state.capacity)⟩ ∨
            w.state.isOver = false ∧ runFrom host clock (k + 1) left w = .ok answer u)) := by
  rw [runFrom] at ran
  obtain ⟨⟨⟩, v, read, ran⟩ := Task.bind_eq_ok.mp ran
  obtain ⟨any, w, dispatched, ran⟩ := Task.bind_eq_ok.mp ran
  refine ⟨v, read, ?_⟩
  cases any with
  | false =>
    obtain ⟨rfl, rfl⟩ : some (left + 1) = answer ∧ w = u := by simpa using ran
    exact Or.inl ⟨dispatched, rfl⟩
  | true =>
    refine Or.inr ⟨w, dispatched, ?_⟩
    rw [if_neg (by simp), Task.bind_apply, Task.view_apply] at ran
    dsimp only at ran
    split at ran
    next crammed =>
      obtain ⟨rfl, rfl⟩ := EStateM.Result.ok.inj ran
      exact Or.inl ⟨crammed, rfl, rfl⟩
    next fits => exact Or.inr ⟨by simpa using fits, ran⟩

section
variable {w : Logged (World L α γ)} (read : refresh clock k s = .ok () v)
include read

theorem runFrom_idle (idle : dispatch host v = .ok false u) :
    runFrom host clock k (left + 1) s = .ok (some (left + 1)) u := by
  rw [runFrom, Task.bind_apply, read]
  dsimp only
  rw [Task.bind_apply, idle]
  rfl

/-- Where a message has been delivered, the run goes on from there unless the mailbox holds too many. -/
theorem runFrom_delivered (delivered : dispatch host v = .ok true w) : runFrom host clock k (left + 1) s =
    if w.state.isOver then .ok none ⟨w.state, w.journal.add (.overCapacity w.state.pending w.state.capacity)⟩
    else runFrom host clock (k + 1) left w := by
  rw [runFrom, Task.bind_apply, read]
  dsimp only
  rw [Task.bind_apply, delivered]
  dsimp only
  rw [if_neg (by simp), Task.bind_apply, Task.view_apply]
  cases w.state.isOver <;> rfl

end

/-- A run that has spent its budget goes on as before when it gets more. -/
theorem runFrom_add {a b : Nat} (ran : runFrom host clock k a s = .ok (some 0) u) :
    runFrom host clock k (a + b) s = runFrom host clock (k + a) b u := by
  induction a generalizing k s with
  | zero =>
    obtain rfl : s = u := by simpa [runFrom] using ran
    rw [Nat.zero_add, Nat.add_zero]
  | succ a ih =>
    obtain ⟨v, read, ⟨-, none⟩ | ⟨w, dispatched, ⟨-, none, -⟩ | ⟨fits, rest⟩⟩⟩ := runFrom_succ_ok ran
    · simp at none
    · simp at none
    · rw [Nat.add_right_comm, runFrom_delivered read dispatched, fits, if_neg Bool.false_ne_true, ih rest,
        Nat.add_right_comm]
      rfl

omit [DecidableEq α] in
theorem mailbox_of_isNil {w : World L α γ} (empty : w.mailFirst.isNil = true) : w.mailbox = [] := by
  rw [mailbox, mailNodes, Ref.isNil_iff.mp empty, Heap.chain]
  cases w.heap.cells.size <;> simp [Heap.chainFrom]

/-- A reading of the clock, if it is due, and a delivery after it. -/
theorem turn_leg (works : ∀ name d, Passes Called (host name d)) (read : refresh clock k s = .ok () v)
    (dispatched : dispatch host v = .ok true u) :
    (∃ more, Leg clock s more u (clockBeats k ++ [.delivery])) ∧
      u.state.delivered = s.state.delivered + 1 ∧ u.state.capacity = s.state.capacity := by
  obtain ⟨reading, readLeg⟩ := refresh_leg read
  obtain ⟨⟨delivery, deliveryLeg⟩, counted, same⟩ := dispatch_leg works dispatched
  have setup : v.state.setup = s.state.setup := (Steady.ends inferInstance s).of_ok read
  have delivered : v.state.delivered = s.state.delivered := congrArg Setup.delivered setup
  have capacity : v.state.capacity = s.state.capacity := congrArg Setup.capacity setup
  exact ⟨⟨_, readLeg.join deliveryLeg⟩, by rw [counted, delivered], same.trans capacity⟩

theorem Ran.spend (fits : s.state.pending ≤ s.state.capacity) : Ran clock k 0 s (some 0) s 0 [] where
  leg := .stay s
  delivered := rfl
  within := le_refl _
  capacity := rfl
  spent := by simp
  drained := by simp
  crammed := by simpa using fits

theorem Ran.idle (fits : s.state.pending ≤ s.state.capacity) (moored : s.state.heap.Moored)
    (read : refresh clock k s = .ok () u) (empty : u.state.mailFirst.isNil = true) :
    ∃ more, Ran clock k (left + 1) s (some (left + 1)) u 0 more := by
  obtain ⟨reading, leg⟩ := refresh_leg read
  have setup : u.state.setup = s.state.setup := (Steady.ends inferInstance s).of_ok read
  have capacity : u.state.capacity = s.state.capacity := congrArg Setup.capacity setup
  -- timers that fire leave a message to deliver, so none has: the mailbox is as it was
  have pending := refresh_fills moored read empty
  exact ⟨reading,
    { leg
      delivered := congrArg Setup.delivered setup
      within := Nat.zero_le _
      capacity
      spent := by simp
      drained := fun _ _ _ => mailbox_of_isNil empty
      crammed := by simpa [pending, capacity] using fits }⟩

theorem Ran.cram {e : Event} (leg : Leg clock s more u (clockBeats k ++ [.delivery]))
    (delivered : u.state.delivered = s.state.delivered + 1) (capacity : u.state.capacity = s.state.capacity)
    (crammed : u.state.isOver = true) :
    ∃ more, Ran clock k (left + 1) s none ⟨u.state, u.journal.add e⟩ 1 more := by
  obtain ⟨note, noteLeg⟩ := note_leg u e
  exact ⟨more ++ note,
    { leg := by simpa [beats, lastBeats] using leg.join noteLeg
      delivered
      within := by omega
      capacity
      spent := by simp
      drained := by simp
      crammed := by simpa [isOver] using crammed }⟩

theorem Ran.turn (leg : Leg clock s more u (clockBeats k ++ [.delivery]))
    (delivered : u.state.delivered = s.state.delivered + 1) (capacity : u.state.capacity = s.state.capacity)
    (ran : Ran clock (k + 1) left u answer v n more') :
    Ran clock k (left + 1) s answer v (n + 1) (more ++ more') where
  leg := by simpa [beats_succ, Nat.add_assoc, Nat.add_comm 1] using leg.join ran.leg
  delivered := by rw [ran.delivered, delivered, Nat.add_assoc, Nat.add_comm 1]
  within := Nat.succ_le_succ ran.within
  capacity := ran.capacity.trans capacity
  spent rest answered := by
    have spent := ran.spent rest answered
    omega
  drained := ran.drained
  crammed := ran.crammed

theorem runFrom_ran (works : ∀ name d, Passes Called (host name d)) (moored : s.state.heap.Moored)
    (fits : s.state.pending ≤ s.state.capacity) (ran : runFrom host clock k budget s = .ok answer u) :
    ∃ n more, Ran clock k budget s answer u n more := by
  -- on the budget; that the mailbox is within its capacity is what one turn hands on to the next
  induction budget generalizing k s with
  | zero =>
    obtain ⟨rfl, rfl⟩ : some 0 = answer ∧ s = u := by simpa [runFrom] using ran
    exact ⟨0, [], .spend fits⟩
  | succ left ih =>
    obtain ⟨v, read, turn⟩ := runFrom_succ_ok ran
    obtain ⟨dispatched, rfl⟩ | ⟨w, dispatched, turn⟩ := turn
    · rcases dispatch_ok dispatched with ⟨-, rfl, empty⟩ | ⟨any, -⟩
      · exact ⟨0, Ran.idle fits moored read empty⟩
      · cases any
    · obtain ⟨⟨more, leg⟩, delivered, capacity⟩ := turn_leg works read dispatched
      obtain ⟨crammed, rfl, rfl⟩ | ⟨fits', ran⟩ := turn
      · exact ⟨1, Ran.cram leg delivered capacity crammed⟩
      · have moored' : w.state.heap.Moored := leg.trail.afloat moored
        obtain ⟨n, rest, ran⟩ := ih moored' (by simpa [isOver] using fits') ran
        exact ⟨n + 1, more ++ rest, ran.turn leg delivered capacity⟩

/-- A run that gives up has come to a delivery or a reading of the clock that does. -/
theorem runFrom_failed (works : ∀ name d, Passes Called (host name d))
    (failed : runFrom host clock k budget s = .error f u) : ∃ more v, Trail ⟨s, none⟩ more ⟨v, none⟩ ∧
      (dispatch host v = .error f u ∨ ∃ reading, tick reading v = .error f u) := by
  induction budget generalizing k s with
  | zero => cases failed
  | succ left ih =>
    rw [runFrom] at failed
    rcases Task.bind_eq_error.mp failed with unread | ⟨⟨⟩, v, read, failed⟩
    · unfold refresh at unread
      split at unread
      · exact ⟨[], s, .start, Or.inr ⟨_, unread⟩⟩
      · cases unread
    rcases Task.bind_eq_error.mp failed with undelivered | ⟨any, w, dispatched, failed⟩
    · obtain ⟨reading, leg⟩ := refresh_leg read
      exact ⟨reading, v, leg.trail, Or.inl undelivered⟩
    cases any with
    | false => cases failed
    | true =>
      obtain ⟨⟨_, leg⟩, -⟩ := turn_leg works read dispatched
      rw [if_neg (by simp), Task.bind_apply, Task.view_apply] at failed
      dsimp only at failed
      split at failed
      · cases failed
      · obtain ⟨more, v, trail, ended⟩ := ih failed
        exact ⟨_, v, leg.trail.append trail, ended⟩

/-- `u` is `w` after a reading of the clock: it shows the time, and what was due is in the mailbox. -/
structure Refreshed (reading : Moment) (w u : World L α γ) : Prop where
  now : u.now = reading
  timers : u.timerList = w.timerList.filter fun x => reading < x.1
  mailbox : u.mailbox = w.mailbox ++ (w.timerList.filter fun x => !decide (reading < x.1)).map Prod.snd

theorem Course.reads (course : Course Proper (Point.new capacity traced now guest journal) trace p)
    (reading : Moment) : (World.tick reading).Ends p.logged (fun _ u => Refreshed reading p.world u)
      (fun f u => f = .arenaExhausted ∧ u.Full) := by
  obtain ⟨b, settled⟩ := course.settled
  suffices ticked : (World.tick reading).Ends p.logged
      (fun _ u => u.now = reading ∧ (p.after (.call (.tick reading))).world = u ∧
        (p.moved (.call (.tick reading))).outcome = .ok none)
      (fun f u => f = .arenaExhausted ∧ u.Full) by
    refine ticked.mono (fun _ u ⟨clock, next, done⟩ => ?_) fun _ _ => id
    obtain ⟨timers, mailbox⟩ := settled.ticks (Record.ordered now trace)
      (show (p.moved (.call (.tick reading))).outcome ≠ _ by simp [done])
    exact ⟨clock, next ▸ timers, next ▸ mailbox⟩
  have ticked : (World.tick reading).Ends p.logged (fun _ u => u.now = reading)
      (fun f u => f = .arenaExhausted ∧ u.Full) := by
    refine (tick_ends settled.kept reading fun _ full => ⟨rfl, full⟩).mono ?_ fun _ _ => id
    rintro - u ⟨_, _, -, kept⟩
    exact kept.clock
  unfold Task.Ends at ticked ⊢
  cases ran : World.tick reading p.logged with
  | error f u =>
    rw [ran] at ticked
    exact ticked
  | ok _ u =>
    rw [ran] at ticked
    have next : (Call.tick reading : Call L α γ).task p.logged = .ok none u := by
      rw [Call.task, Task.bind_apply, ran]
      rfl
    exact ⟨ticked, by simp [Point.after, Move.next, next, stateAfter, Point.world],
      by simp [Point.moved, Move.next, next, outcomeOf]⟩

/-! ### What comes of a run -/

/-- What comes of a run with a budget of `budget` at `p`, where `trace` has led from `start`. -/
structure Outcome (host : Host L α γ) (clock : Nat → γ → Moment) (budget : Int) (start : Point L α γ)
    (trace : List (Moved L α γ)) (p : Point L α γ) : Prop where
  /-- A mailbox that holds more than its capacity ends a run before it has begun. -/
  refused : p.world.capacity < p.world.pending → run host clock budget p.logged = .ok none p.logged
  ran : p.world.pending ≤ p.world.capacity → ∀ answer u, run host clock budget p.logged = .ok answer u →
    ∃ n more, Ran clock 0 budget.toNat p.logged answer u n more
  /-- A run gives up only where a delivery or a reading of the clock does. -/
  failed : ∀ f u, run host clock budget p.logged = .error f u → ∃ more v, Trail p more ⟨v, none⟩ ∧
    (dispatch host v = .error f u ∨ ∃ reading, tick reading v = .error f u)
  /-- A reading of the clock moves what is due, and gives up only where there is no room. -/
  reads : ∀ more q reading, Course Proper start (trace ++ more) q → (tick reading).Ends q.logged
    (fun _ u => Refreshed reading q.world u) (fun f u => f = .arenaExhausted ∧ u.Full)
  /-- Nothing else changes the time or takes a timer. -/
  still : ∀ (q : Point L α γ) (m : Move L α γ), (∀ t, m ≠ .call (.tick t)) → Calm q.logged (q.after m).logged

theorem run_of_fits (fits : s.state.pending ≤ s.state.capacity) (budget : Int) :
    run host clock budget s = runFrom host clock 0 budget.toNat s := by
  have fits : ¬s.state.isOver = true := by simpa [isOver] using fits
  rw [run, Task.bind_apply, Task.view_apply]
  exact congrFun (if_neg fits) s

theorem run_of_crammed (crammed : s.state.capacity < s.state.pending) (budget : Int) :
    run host clock budget s = .ok none s := by
  have crammed : s.state.isOver = true := by simpa [isOver] using crammed
  rw [run, Task.bind_apply, Task.view_apply]
  exact congrFun (if_pos crammed) s

/-- What comes of a run at any time, whatever the behaviors do. -/
theorem Trail.run_outcome (trail : Trail (Point.new capacity traced now guest journal) trace p)
    (idle : p.opened = none) (works : ∀ name d, Passes Called (host name d)) (clock : Nat → γ → Moment)
    (budget : Int) : Outcome host clock budget (Point.new capacity traced now guest journal) trace p where
  refused crammed := run_of_crammed crammed budget
  ran fits answer u done := by
    rw [run_of_fits fits] at done
    exact runFrom_ran works (trail.afloat (Heap.moored_empty traced)) fits done
  failed f u gone := by
    obtain ⟨s, opened⟩ := p
    obtain rfl : opened = none := idle
    rcases Nat.lt_or_ge s.state.capacity s.state.pending with crammed | fits
    · rw [run_of_crammed crammed] at gone
      cases gone
    · rw [run_of_fits fits] at gone
      exact runFrom_failed works gone
  reads _ _ reading course := course.reads reading
  still := Point.calm

/-- Two messages, one of them delayed, are delivered, and there is budget left for three more. -/
theorem outcome_two_letters : ∃ (host : Host .twoLow Empty Unit) (clock : Nat → Unit → Moment)
    (trace : List (Moved .twoLow Empty Unit)) (p : Point .twoLow Empty Unit),
      outcomeOf (run host clock 5 p.logged) = .ok (some 3) ∧ Outcome host clock 5 quiet trace p := by
  let f : Ref .twoLow := ⟨6, by decide⟩
  let a : Ref .twoLow := ⟨1045, by decide⟩
  have inner : ∀ {c : Call .twoLow Empty Unit} {p : Point .twoLow Empty Unit}, c.isOuter = false →
      Move.Fits (.call c) p := fun inner outer => by simp [inner] at outer
  have begun : Trail quiet [] quiet := .start
  have made := (begun.move (.call (.function .sink)) (inner rfl)).move (.call (.heap (.act (.perm f .nil))))
    (inner rfl)
  have trail := (made.move (.call (.send a .nil)) (inner rfl)).move (.call (.sendAfter 5 a .nil)) (inner rfl)
  refine ⟨fun name _ => name.elim, fun i _ => ⟨0, 5 + i⟩, _, _, ?_,
    trail.run_outcome rfl (fun name _ => name.elim) _ 5⟩
  decide +kernel

end Treadmill.World

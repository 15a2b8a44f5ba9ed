import Mathlib
import Treadmill.Proofs.Actor.Opening
import Treadmill.Proofs.World.Naming

/-!
The ticker counts exactly (`startTicker_counts`), whatever its owner does between deliveries: however it divides
them into runs, however late it reads the clock and whenever it collects, there is one line for each second that
is counted, and then the ticker and its counter retire.
-/

namespace Treadmill.World
open Heap (plain_of_collectable)
open Actor (Plot Tells)
variable {L : Layout} {α γ : Type} {k : Cast L} {p q : Plot} {c c' : Chart L} {b b' : Books L}
  {points : List (World L α γ)} {s u v : Logged (World L α γ)} {a : Ref L} {x : Part} {count : Int}

/-! ### Histories -/

/-- At the point `w`, which comes after `before`, the actor is a sink with nothing to remember, and it has been
there up to then. -/
structure Sunk (before : List (World L α γ)) (w : World L α γ) (a : Ref L) : Prop where
  plain : ∀ v ∈ before ++ [w], v.heap.Plain a
  behaves : w.behaviorAt? a = some .sink
  holds : w.stateAt? a = some .nil

/-- The actor has become a sink at one of these points. If there is another point after that one, it has been
reclaimed by then. -/
def Retired (points : List (World L α γ)) (a : Ref L) : Prop :=
  ∃ before w after, points = before ++ w :: after ∧ Sunk before w a ∧ ∀ u ∈ after.head?, ¬u.heap.Plain a

/-- It has been reclaimed since. -/
def Gone (points : List (World L α γ)) (a : Ref L) : Prop :=
  ∃ before w u after, points = before ++ w :: u :: after ∧ Sunk before w a ∧ ¬u.heap.Plain a

theorem Gone.retired (gone : Gone points a) : Retired points a := by
  obtain ⟨before, w, u, after, rfl, sunk, reclaimed⟩ := gone
  exact ⟨before, w, u :: after, rfl, sunk, by simpa using reclaimed⟩

theorem Gone.append (gone : Gone points a) (more : List (World L α γ)) : Gone (points ++ more) a := by
  obtain ⟨before, w, u, after, rfl, sunk, reclaimed⟩ := gone
  exact ⟨before, w, u, after ++ more, by simp, sunk, reclaimed⟩

theorem Cast.plain_iff (k : Cast L) (h : Heap L) (x : Part) : h.Plain (k.actor x) ↔ h.Collectable (k.cell x) :=
  ⟨fun plain => plain _ (k.names x), plain_of_collectable (k.names x)⟩

/-- It has not been reclaimed at any of these points. -/
def Lasting (k : Cast L) (points : List (World L α γ)) (x : Part) : Prop :=
  ∀ w ∈ points, w.heap.Collectable (k.cell x)

/-- The last of these points is as the plot has it, and neither of the two has been reclaimed before it retired. -/
structure Story (k : Cast L) (count : Int) (points : List (World L α γ)) (p : Plot) (c : Chart L) (b : Books L)
    (s : Logged (World L α γ)) : Prop where
  ready : Ready k (Lasting k points) count p c b s
  last : points.getLast? = some s.state
  fates : ∀ x, Lasting k points x ∨ Gone points (k.actor x)

theorem lasting_append (k : Cast L) (points : List (World L α γ)) (w : World L α γ) :
    Lasting k (points ++ [w]) = fun x => Lasting k points x ∧ w.heap.Collectable (k.cell x) :=
  funext fun x => by simp [Lasting, or_imp, forall_and]

/-- Whoever has retired is a sink at the last point, unless it has been reclaimed before. -/
theorem Story.sunk (story : Story k count points p c b s) (lasting : Lasting k points x) (ended : Over p x) :
    ∃ before, points = before ++ [s.state] ∧ Sunk before s.state (k.actor x) := by
  obtain ⟨before, same⟩ := List.getLast?_eq_some_iff.mp story.last
  have serving := story.ready.staged.retired lasting ended
  obtain ⟨behaves, holds⟩ := serving.visible story.ready.charted (story.ready.staged.own x lasting).1
  exact ⟨before, same, fun v on => (k.plain_iff _ x).mpr (lasting v (same ▸ on)), behaves, holds⟩

theorem Story.retired (story : Story k count points p c b s) (ended : Over p x) : Retired points (k.actor x) := by
  rcases story.fates x with lasting | gone
  · obtain ⟨before, same, sunk⟩ := story.sunk lasting ended
    exact ⟨before, s.state, [], same, sunk, by simp⟩
  · exact gone.retired

/-- One of the two is not reclaimed before it has retired. -/
theorem Moves.ended {there : Part → Prop} (moves : Moves k there count p q c b u) (is : there x)
    (reclaimed : ¬u.state.heap.Collectable (k.cell x)) : Over p x := by
  rcases moves.spares with all | before
  · exact absurd (all x is) reclaimed
  -- The counter has counted to the end where the ticker has stopped.
  have stopped : q.running = false := by
    by_contra running
    exact reclaimed (moves.ready.staged.both (by simpa using running) x).2
  refine before x ?_
  cases x with
  | ticker => exact stopped
  | counter =>
    by_contra left
    obtain ⟨n, isLeft⟩ := Option.ne_none_iff_exists'.mp left
    simpa [stopped] using (moves.ready.sane.counting n isLeft).1

/-- The story goes on. -/
theorem Story.next (story : Story k count points p c b s) (moves : Moves k (Lasting k points) count p q c' b' u) :
    Story k count (points ++ [u.state]) q c' b' u where
  ready := by
    rw [lasting_append]
    exact moves.ready
  last := by simp
  fates x := by
    rcases story.fates x with lasting | gone
    · by_cases on : u.state.heap.Collectable (k.cell x)
      · left
        rw [lasting_append]
        exact ⟨lasting, on⟩
      · obtain ⟨before, same, sunk⟩ := story.sunk lasting (moves.ended lasting on)
        have reclaimed : ¬u.state.heap.Plain (k.actor x) := fun plain => on ((k.plain_iff _ x).mp plain)
        exact Or.inr ⟨before, s.state, u.state, [], by simp [same], sunk, reclaimed⟩
    · exact Or.inr (gone.append _)

/-- Nothing happens for a while. -/
theorem Story.stay (story : Story k count points p c b s) (n : Nat) :
    Story k count (points ++ List.replicate n s.state) p c b s := by
  induction n with
  | zero => simpa using story
  | succ n ih =>
    have longer := ih.next (ih.ready.moves p)
    rwa [List.append_assoc, ← List.replicate_succ'] at longer

theorem Story.lull (story : Story k count (points ++ [s.state]) p c b s) (n : Nat) :
    Story k count (points ++ List.replicate (n + 1) s.state) p c b s := by
  have longer := story.stay n
  rwa [List.append_assoc, List.singleton_append, ← List.replicate_succ] at longer

/-- What is noted in the journal is no line. -/
theorem Story.noted {j : Journal} (story : Story k count points p c b s) (quiet : j.lines = s.journal.lines) :
    Story k count points p c b ⟨s.state, j⟩ where
  ready := { story.ready with lines := quiet.trans story.ready.lines }
  last := story.last
  fates := story.fates

theorem Story.start (ready : Ready k (fun _ => True) count p c b s) : Story k count [s.state] p c b s where
  ready := by
    have same : Lasting k [s.state] = fun _ => True :=
      funext fun x => by simpa [Lasting] using (ready.staged.own x trivial).1
    rwa [same]
  last := rfl
  fates x := Or.inl fun w on => List.mem_singleton.mp on ▸ (ready.staged.own x trivial).1

/-! ### Runs -/

variable {clock : Nat → γ → Moment} {guest : γ} {attempts left budget : Nat}

/-- The clock has been read for this attempt, or it is to be read and does not run backwards. -/
def Timely (clock : Nat → γ → Moment) (guest : γ) (attempts : Nat) (now : Moment) : Prop :=
  if attempts % clockStep = 0 then ¬clock (attempts / clockStep) guest < now
  else now = clock (attempts / clockStep) guest

theorem timely_succ (forward : ∀ n, ¬clock (n + 1) guest < clock n guest) :
    Timely clock guest (attempts + 1) (clock (attempts / clockStep) guest) := by
  unfold Timely clockStep
  split
  next due =>
    have next : (attempts + 1) / 256 = attempts / 256 + 1 := by omega
    rw [next]
    exact forward _
  next other =>
    have same : (attempts + 1) / 256 = attempts / 256 := by omega
    rw [same]

/-- The clock is read if it is time to. -/
theorem refresh_finishes {there : Part → Prop} (ready : Ready k there count p c b s)
    (timely : Timely clock s.state.guest attempts b.now) : (refresh clock attempts).Finishes s
      (fun _ u => (∃ q b', Ready k there count q c b' u ∧ (∀ x, Over q x ↔ Over p x) ∧
        b'.now = clock (attempts / clockStep) s.state.guest) ∧ u.state.guest = s.state.guest)
      fun f u => NoRoom f u.state ∧ Tells count u.journal.lines := by
  unfold Timely at timely
  unfold refresh
  split
  next due =>
    rw [if_pos due] at timely
    exact Task.finishes_view (tick_finishes ready timely)
  next other =>
    rw [if_neg other] at timely
    exact Task.finishes_of_ok rfl ⟨⟨p, b, ready, fun _ => Iff.rfl, timely⟩, rfl⟩

variable [DecidableEq α] {host : Host L α γ}

/-- The worlds that a run leaves behind if it has a budget of one, of two and so on up to its own. -/
def runPoints (host : Host L α γ) (clock : Nat → γ → Moment) (attempts budget : Nat) (s : Logged (World L α γ)) :
    List (World L α γ) :=
  (List.range budget).map fun n => (stateAfter (runFrom host clock attempts (n + 1) s)).state

theorem runPoints_const (ends : ∀ n, ∃ answer, runFrom host clock attempts (n + 1) s = .ok answer u) (budget : Nat) :
    runPoints host clock attempts budget s = List.replicate budget u.state := by
  have same : ∀ n ∈ List.range budget, (stateAfter (runFrom host clock attempts (n + 1) s)).state = u.state := by
    intro n _
    obtain ⟨answer, ran⟩ := ends n
    rw [ran, stateAfter]
  rw [runPoints, List.map_congr_left same, List.map_const', List.length_range]

theorem runPoints_delivered (read : refresh clock attempts s = .ok () u) (delivered : dispatch host u = .ok true v)
    (fits : v.state.isOver = false) :
    runPoints host clock attempts (left + 1) s = v.state :: runPoints host clock (attempts + 1) left v := by
  have goes : ∀ n, runFrom host clock attempts (n + 1) s = runFrom host clock (attempts + 1) n v := fun n => by
    rw [runFrom_delivered read delivered, fits, if_neg Bool.false_ne_true]
  rw [runPoints, List.range_succ_eq_map, List.map_cons, List.map_map]
  simp only [goes, runPoints]
  rfl

/-- The first letter, if there is one, is delivered after the clock has been read if that is due. -/
theorem Story.turns (host : Host L α γ) (story : Story k count points p c b s)
    (timely : Timely clock s.state.guest attempts b.now) :
    (refresh clock attempts).Finishes s
      (fun _ u => u.state.guest = s.state.guest ∧ (dispatch host).Finishes u
        (fun _ v => (∃ q c' b', Story k count (points ++ [v.state]) q c' b' v ∧
          b'.now = clock (attempts / clockStep) s.state.guest) ∧ v.state.guest = s.state.guest)
        fun f v => Stuck (clock (attempts / clockStep) s.state.guest) f v.state ∧ Tells count v.journal.lines)
      fun f u => NoRoom f u.state ∧ Tells count u.journal.lines := by
  refine (refresh_finishes story.ready timely).mono ?_ fun _ _ => id
  rintro - u ⟨⟨q, b', ready, same, isNow⟩, guest⟩
  refine ⟨guest, ?_⟩
  rw [← isNow]
  cases shape : q.mail with
  | nil =>
    have moves := ready.moves p
    exact Task.finishes_of_ok (dispatch_idle host ready shape) ⟨⟨q, c, b', story.next moves, rfl⟩, guest⟩
  | cons n rest =>
    refine (dispatch_finishes host ready shape).mono ?_ fun _ _ => id
    rintro _ v ⟨-, ⟨q', c', b'', moves, same'⟩, guest'⟩
    have moves' : Moves k (Lasting k points) count p q' c' b'' v :=
      ⟨moves.ready, moves.spares.imp_right fun before x ended => (same x).mp (before x ended)⟩
    exact ⟨⟨q', c', b'', story.next moves', same'⟩, guest'.trans guest⟩

/-- However many letters a run delivers, the story goes on. -/
theorem Story.runs (story : Story k count points p c b s) (timely : Timely clock guest attempts b.now)
    (forward : ∀ n, ¬clock (n + 1) guest < clock n guest) (same : s.state.guest = guest) (budget : Nat) :
    (runFrom host clock attempts budget).Finishes s
      (fun _ u => ∃ q c' b', Story k count (points ++ runPoints host clock attempts budget s) q c' b' u)
      fun f u => (NoRoom f u.state ∨ ∃ n, ¬(clock n guest).IsUsual) ∧ Tells count u.journal.lines := by
  induction budget generalizing attempts points p c b s with
  | zero => exact Task.finishes_of_ok rfl ⟨p, c, b, by simpa [runPoints] using story⟩
  | succ left ih =>
    subst same
    rw [runFrom]
    refine ((story.turns host timely).ran.mono (fun _ _ => id) fun f u failed => ⟨Or.inl failed.1, failed.2⟩).bind ?_
    rintro ⟨⟩ u ⟨read, guest', dispatches⟩
    refine (dispatches.ran.mono (fun _ _ => id) fun f u failed => ?unusual).bind ?_
    case unusual => exact ⟨failed.1.imp_right fun unusual => ⟨_, unusual⟩, failed.2⟩
    rintro any v ⟨done, ⟨q, c', b', later, isNow⟩, guest''⟩
    cases any with
    | false =>
      rw [runPoints_const fun n => ⟨_, runFrom_idle read done⟩]
      exact Task.finishes_of_ok rfl ⟨q, c', b', later.lull left⟩
    | true =>
      rw [if_neg (by simp)]
      refine Task.finishes_view ?_
      cases crammed : v.state.isOver with
      | true =>
        rw [runPoints_const fun n => ⟨_, (runFrom_delivered read done).trans (if_pos crammed)⟩]
        refine Task.finishes_of_ok rfl ⟨q, c', b', (later.lull left).noted ?_⟩
        rw [Journal.lines_add]
        exact List.append_nil _
      | false =>
        rw [if_neg Bool.false_ne_true, runPoints_delivered read done crammed, List.append_cons]
        exact ih later (isNow ▸ timely_succ forward) guest''

/-! ### Whatever the owner does -/

/-- What the owner of a world may have it do between deliveries. -/
inductive Chore (γ : Type)
  | tick (reading : Moment)
  | run (clock : Nat → γ → Moment) (budget : Int)
  | forceCollect
  | startCollect

namespace Chore

def task (host : Host L α γ) : Chore γ → WorldTask L α γ Unit
  | tick reading => World.tick reading
  | run clock budget => do let _ ← World.run host clock budget
  | forceCollect => World.forceCollect
  | startCollect => do let _ ← World.startCollect

omit [DecidableEq α] in
/-- The clock does not run backwards. -/
def Fits (w : World L α γ) : Chore γ → Prop
  | tick reading => ¬reading < w.now
  | run clock _ => ¬clock 0 w.guest < w.now ∧ ∀ n, ¬clock (n + 1) w.guest < clock n w.guest
  | forceCollect | startCollect => True

/-- The clock keeps to its usual range. -/
def Usual (guest : γ) : Chore γ → Prop
  | run clock _ => ∀ n, (clock n guest).IsUsual
  | tick _ | forceCollect | startCollect => True

/-- The worlds that are seen on the way: those that a run leaves behind if it has a budget of one, of two and so on
up to its own, or the one that comes of the chore. -/
def worlds (host : Host L α γ) (s : Logged (World L α γ)) : Chore γ → List (World L α γ)
  | run clock budget =>
    (List.range budget.toNat).map fun (n : Nat) => (stateAfter (World.run host clock (n + 1) s)).state
  | chore => [(stateAfter (chore.task host s)).state]

end Chore

/-- From `s` one chore after another leads to `u`, by way of these points. -/
inductive Session (host : Host L α γ) (s : Logged (World L α γ)) : List (World L α γ) → Logged (World L α γ) → Prop
  | start : Session host s [s.state] s
  | next {points : List (World L α γ)} {u v : Logged (World L α γ)} (session : Session host s points u)
      (chore : Chore γ) (fits : chore.Fits u.state) (ran : chore.task host u = .ok () v) :
      Session host s (points ++ chore.worlds host u) v

/-- The only reasons for a chore to go wrong, which does not spoil what was printed. -/
def Excused (count : Int) (guest : γ) (chore : Chore γ) (f : Fault) (u : Logged (World L α γ)) : Prop :=
  (NoRoom f u.state ∨ ¬chore.Usual guest) ∧ Tells count u.journal.lines

/-- The points of a run from attempt number 0. -/
theorem run_worlds (fits : s.state.pending ≤ s.state.capacity) (budget : Int) :
    (Chore.run clock budget).worlds host s = runPoints host clock 0 budget.toNat s := by
  rw [Chore.worlds, runPoints]
  refine List.map_congr_left fun n _ => ?_
  rw [run_of_fits fits]
  rfl

omit [DecidableEq α] in
/-- One more point of the story. -/
theorem Story.once {t : WorldTask L α γ Unit} {failed : Fault → Logged (World L α γ) → Prop}
    (story : Story k count points p c b s)
    (moves : t.Finishes s (fun _ u => ∃ q c' b', Moves k (Lasting k points) count p q c' b' u) failed) :
    t.Finishes s (fun _ u => ∃ q c' b', Story k count (points ++ [(stateAfter (t s)).state]) q c' b' u) failed := by
  refine moves.ran.mono ?_ fun _ _ => id
  rintro a u ⟨ran, q, c', b', moves⟩
  rw [ran]
  exact ⟨q, c', b', story.next moves⟩

/-- A run takes the story further, be it that it is refused. -/
theorem Story.run_finishes (story : Story k count points p c b s) {budget : Int}
    (fits : (Chore.run clock budget).Fits s.state) : (run host clock budget).Finishes s
      (fun _ u => ∃ q c' b', Story k count (points ++ (Chore.run clock budget).worlds host s) q c' b' u)
      (Excused count s.state.guest (.run clock budget)) := by
  have isNow : s.state.now = b.now := story.ready.charted.kept.clock
  rcases Nat.lt_or_ge s.state.capacity s.state.pending with crammed | roomy
  · have same : (Chore.run clock budget).worlds host s = List.replicate budget.toNat s.state := by
      have each : ∀ n ∈ List.range budget.toNat, (stateAfter (run host clock (n + 1) s)).state = s.state := by
        intro n _
        rw [run_of_crammed crammed, stateAfter]
      rw [Chore.worlds, List.map_congr_left each, List.map_const', List.length_range]
    rw [same]
    exact Task.finishes_of_ok (run_of_crammed crammed budget) ⟨p, c, b, story.stay _⟩
  · rw [run_worlds roomy]
    have timely : Timely clock s.state.guest 0 b.now := isNow ▸ fits.1
    refine ((story.runs timely fits.2 rfl budget.toNat).congr (run_of_fits roomy budget)).mono (fun _ _ => id) ?_
    rintro f u ⟨short | ⟨n, unusual⟩, tells⟩
    · exact ⟨Or.inl short, tells⟩
    · exact ⟨Or.inr fun usual => unusual (usual n), tells⟩

/-- Whatever is done, the story goes on. -/
theorem Story.continues (story : Story k count points p c b s) (chore : Chore γ) (fits : chore.Fits s.state) :
    (chore.task host).Finishes s
      (fun _ u => ∃ q c' b', Story k count (points ++ chore.worlds host s) q c' b' u)
      (Excused count s.state.guest chore) := by
  have isNow : s.state.now = b.now := story.ready.charted.kept.clock
  have short : ∀ f (u : Logged (World L α γ)), NoRoom f u.state ∧ Tells count u.journal.lines →
      Excused count s.state.guest chore f u := fun f u failed => ⟨Or.inl failed.1, failed.2⟩
  cases chore with
  | tick reading =>
    have late : ¬reading < b.now := isNow ▸ fits
    refine story.once ((tick_finishes story.ready late).mono ?_ short)
    rintro - u ⟨⟨q, b', ready, -⟩, -⟩
    exact ⟨q, c, b', ready.moves p⟩
  | run clock budget =>
    refine (story.run_finishes fits).bind ?_
    rintro - u story'
    exact Task.finishes_of_ok rfl story'
  | forceCollect =>
    have collects := forceCollect_finishes story.ready
    exact story.once (collects.mono (fun _ u moves => ⟨p, c, b, moves⟩) fun _ _ => False.elim)
  | startCollect =>
    refine story.once (((startCollect_finishes story.ready).mono (fun _ _ => id) short).bind ?_)
    rintro - u moves
    exact Task.finishes_of_ok rfl moves

theorem Session.story (session : Session host s points u) (story : Story k count [s.state] p c b s) :
    ∃ q c' b', Story k count points q c' b' u := by
  induction session with
  | start => exact ⟨p, c, b, story⟩
  | next _ chore fits ran ih =>
    obtain ⟨q, c', b', story'⟩ := ih
    exact (story'.continues chore fits).of_ok ran

omit [DecidableEq α] in
/-- Once there are no messages, every second that was to be counted has been printed, the two have retired, and no
cell is taken from the pool. -/
theorem Story.finished (story : Story k count points p c b s) (empty : s.state.pending = 0)
    (idle : s.state.delayed = 0) : (s.journal.lines.length : Int) = max count 0 + 1 ∧
      (∀ x, Retired points (k.actor x)) ∧ s.state.poolUsed = 0 := by
  obtain ⟨charted, staged, sane, resting, lines⟩ := story.ready
  have noMail : b.mail = [] := List.length_eq_zero_iff.mp (charted.kept.pending.symm.trans empty)
  have noTimers : b.timers = [] := List.length_eq_zero_iff.mp (charted.kept.delayed.symm.trans idle)
  have noLetters : p.mail = [] := List.length_eq_zero_iff.mp (by rw [staged.mail.length_eq, noMail]; rfl)
  have notWaiting : p.waiting = false := by
    have timers := staged.timers
    rw [noTimers] at timers
    cases waiting : p.waiting with
    | false => rfl
    | true =>
      rw [waiting] at timers
      cases timers
  obtain ⟨stopped, none, total⟩ := sane.finished noLetters notWaiting
  refine ⟨by rwa [lines, List.length_map], fun x => story.retired ?_, ?_⟩
  · cases x with
    | ticker => exact stopped
    | counter => exact none
  · rw [charted.kept.used]
    simp [Books.taken, noMail, noTimers, resting.held, resting.hand, resting.lost]

/-! ### The count is exact -/

/-- What can be said of all that is done once `ticker` has been started at `s`, and `counter` with it. -/
structure Counts (host : Host L α γ) (count : Int) (ticker counter : Ref L) (s : Logged (World L α γ)) : Prop where
  /-- The lines that have been printed show rising seconds, and no more of them than there is to count. -/
  tells : ∀ points u, Session host s points u → Tells count u.journal.lines
  /-- Once there are no messages left, all of them have been printed, and the two have retired. -/
  finished : ∀ points u, Session host s points u → u.state.pending = 0 → u.state.delayed = 0 →
    (u.journal.lines.length : Int) = max count 0 + 1 ∧ Retired points ticker ∧ Retired points counter ∧
      u.state.poolUsed = 0
  /-- Nothing goes wrong without an excuse. -/
  goes : ∀ points u (chore : Chore γ), Session host s points u → chore.Fits u.state →
    (chore.task host).Finishes u (fun _ _ => True) (Excused count u.state.guest chore)

/-- A ticker that is started in a new world counts exactly, whatever the owner does between deliveries. -/
theorem startTicker_counts (host : Host L α γ) (capacity : Nat) (traced : Bool) (now : Moment) (guest : γ)
    (threshold : Option Level) (ranged : Ref.minNumber L ≤ count ∧ count ≤ Ref.maxNumber L) :
    (Actor.startTicker count).Finishes (World.create capacity traced now guest threshold : Logged (World L α γ))
      (fun ticker s => ∃ counter, Started ticker counter s ∧ Counts host count ticker counter s)
      fun f s => Stuck now f s.state ∧ s.journal.lines = [] := by
  obtain ⟨r, isNumber⟩ := Ref.number_ok ranged.1 ranged.2
  refine (startTicker_finishes isNumber).mono ?_ fun _ _ => id
  rintro ticker s ⟨k, c, b, rfl, started, ready⟩
  have begun := Story.start ready
  refine ⟨k.actor .counter, started, fun points u session => ?_, fun points u session empty idle => ?_,
    fun points u chore session fits => ?_⟩
  · obtain ⟨_, _, _, story⟩ := session.story begun
    exact story.ready.tells
  · obtain ⟨_, _, _, story⟩ := session.story begun
    obtain ⟨total, retired, returned⟩ := story.finished empty idle
    exact ⟨total, retired .ticker, retired .counter, returned⟩
  · obtain ⟨_, _, _, story⟩ := session.story begun
    exact (story.continues chore fits).mono (fun _ _ _ => trivial) fun _ _ => id

/-- The names of the ticker get their numbers first. -/
theorem startTicker_unnamed {ticker : Ref L}
    (ran : Actor.makeTicker (.atom 0) (.atom 1) (.atom 2) count s = .ok ticker u) :
    ∃ table, Actor.startTicker count (renamed .empty s) = .ok ticker (renamed table u) := by
  refine ⟨["count", "sec", "time"].foldl Symbols.enter .empty, ?_⟩
  rw [Actor.startTicker_eq]
  refine atom_bind_new (n := 0) (by simp) (by simp) (by decide) ?_
  refine atom_bind_new (n := 1) (by simp [Symbols.find?_enter]) (by simp) (by decide) ?_
  refine atom_bind_new (n := 2) (by simp [Symbols.find?_enter]) (by simp) (by decide) ?_
  exact Nameless.ok ran _

/-- A ticker that is to count three seconds, and one more. -/
theorem startTicker_counts_three : ∃ (ticker counter : Ref .twoLow) (s : Logged (World .twoLow Empty Unit)),
    Actor.startTicker 3 (World.create 100 false .zero () (some .info)) = .ok ticker s ∧ Started ticker counter s ∧
      Counts (fun name _ => name.elim) 3 ticker counter s := by
  have starts : (match Actor.makeTicker (.atom 0) (.atom 1) (.atom 2) 3
      (World.create 100 false .zero () (some .info) : Logged (World .twoLow Empty Unit)) with
      | .ok _ _ => true
      | .error _ _ => false) = true := by decide +kernel
  cases made : Actor.makeTicker (.atom 0) (.atom 1) (.atom 2) 3
      (World.create 100 false .zero () (some .info) : Logged (World .twoLow Empty Unit)) with
  | error f u => simp [made] at starts
  | ok ticker u =>
    obtain ⟨table, begun⟩ := startTicker_unnamed made
    obtain ⟨counter, started, counts⟩ :=
      (startTicker_counts (fun name _ => name.elim) 100 false .zero () (some .info) (by decide)).of_ok begun
    exact ⟨ticker, counter, _, begun, started, counts⟩

end Treadmill.World

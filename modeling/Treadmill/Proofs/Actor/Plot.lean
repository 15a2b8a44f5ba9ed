import Mathlib

/-!
The ticker, its counter and the messages between them, apart from the cells that they stand in (`Plot`).
One delivery after another keeps the count exact (`Plot.Sane.delivered`): every second that is printed, on its
way to a printer or on its way to the counter stands once in a rising row, and as long as the ticker runs there
is one message that wakes it up.
-/

namespace Treadmill.Actor

/-- What a message is about. -/
inductive Notice
  /-- Wakes the ticker up. -/
  | tick
  /-- Tells the counter of a second. -/
  | second (s : Int)
  /-- Has a second printed. -/
  | line (s : Int)
  /-- Stops the ticker. -/
  | stop
  /-- Carries a collection on. -/
  | trace
deriving DecidableEq

namespace Notice

@[simp] def second? : Notice → Option Int
  | second s => some s
  | tick | line _ | stop | trace => none

@[simp] def line? : Notice → Option Int
  | line s => some s
  | tick | second _ | stop | trace => none

end Notice

/-- What the ticker and its counter have come to. -/
structure Plot where
  mail : List Notice
  /-- Whether the message that wakes the ticker up is among the timers. -/
  waiting : Bool
  /-- The second in that message. -/
  shown : Int
  /-- The second that the ticker remembers. -/
  last : Option Int
  running : Bool
  /-- What the counter has left to count, until it retires. -/
  left : Option Int
  lines : List Int

namespace Plot
variable {p q : Plot} {n : Notice} {rest : List Notice} {count now later : Int} {again : Bool}

/-- The lines on their way. -/
def queued (p : Plot) : List Int := p.mail.filterMap Notice.line?

/-- The seconds that have been printed, and those that are on their way to a printer or to the counter. -/
def told (p : Plot) : List Int := p.lines ++ p.queued ++ p.mail.filterMap Notice.second?

/-- What comes of a delivery at the second `now`. Whoever carries a collection on sends itself another
message if it is to do so `again`. -/
def deliver (now : Int) (again : Bool) (p : Plot) : Notice → Plot
  | .tick =>
    if p.running then
      { p with
        mail := p.mail ++ if p.last = some p.shown then [] else [.second p.shown]
        waiting := true
        shown := now
        last := some p.shown }
    else p
  | .second s =>
    match p.left with
    | none => p
    | some n =>
      if n ≤ 0 then { p with mail := p.mail ++ [.line s, .stop], left := none }
      else { p with mail := p.mail ++ [.line s], left := some (n - 1) }
  | .line s => { p with lines := p.lines ++ [s] }
  | .stop => { p with running := false }
  | .trace => { p with mail := p.mail ++ if again then [.trace] else [] }

/-- A ticker that has been started at the second `now` and whose counter is to count `count`. -/
def start (count now : Int) : Plot := ⟨[.tick], false, now, none, true, some count, []⟩

/-- What holds at the second `now` of a ticker whose counter was to count `count`. -/
structure Sane (count now : Int) (p : Plot) : Prop where
  rising : p.told.Pairwise (· < ·)
  behind : ∀ s ∈ p.told, ∃ l, p.last = some l ∧ s ≤ l
  ahead : ∀ l, p.last = some l → l ≤ p.shown
  clock : p.shown ≤ now
  awake : p.running = true → p.mail.count .tick + p.waiting.toNat = 1
  counting : ∀ n, p.left = some n → p.running = true ∧ p.mail.count .stop = 0 ∧
    (p.lines.length + p.queued.length : Int) + max n 0 = max count 0
  counted : p.left = none → p.mail.count .stop = p.running.toNat ∧
    (p.lines.length + p.queued.length : Int) = max count 0 + 1

theorem sane_start (count now : Int) : (start count now).Sane count now where
  rising := by simp [start, told, queued, List.filterMap_cons]
  behind := by simp [start, told, queued, List.filterMap_cons]
  ahead := by simp [start]
  clock := le_rfl
  awake := by simp [start]
  counting := by simp [start, queued, List.filterMap_cons]
  counted := by simp [start]

theorem Sane.clocked (sane : p.Sane count now) (forward : now ≤ later) : p.Sane count later :=
  { sane with clock := sane.clock.trans forward }

/-- The message that wakes the ticker up is due. -/
theorem Sane.fired (sane : p.Sane count now) (waiting : p.waiting = true) :
    Sane count now { p with mail := p.mail ++ [.tick], waiting := false } where
  rising := by simpa [told, queued, List.filterMap_cons] using sane.rising
  behind := by simpa [told, queued, List.filterMap_cons] using sane.behind
  ahead := sane.ahead
  clock := sane.clock
  awake running := by simpa [waiting] using sane.awake running
  counting n isLeft := by simpa [queued, List.filterMap_cons] using sane.counting n isLeft
  counted none := by simpa [queued, List.filterMap_cons] using sane.counted none

/-- Messages that carry a collection on change nothing. -/
theorem Sane.traced (sane : p.Sane count now) (again : Bool) : (p.deliver now again .trace).Sane count now where
  rising := by cases again <;> simpa [deliver, told, queued, List.filterMap_cons] using sane.rising
  behind := by cases again <;> simpa [deliver, told, queued, List.filterMap_cons] using sane.behind
  ahead := sane.ahead
  clock := sane.clock
  awake running := by cases again <;> simpa [deliver] using sane.awake running
  counting n isLeft := by cases again <;> simpa [deliver, queued, List.filterMap_cons] using sane.counting n isLeft
  counted none := by cases again <;> simpa [deliver, queued, List.filterMap_cons] using sane.counted none

/-! ### Deliveries -/

/-- The ticker remembers the second in its message, and tells the counter of it if it is another one. -/
theorem Sane.ticked (sane : Sane count now { p with mail := .tick :: rest }) :
    (deliver now again { p with mail := rest } .tick).Sane count now := by
  obtain ⟨mail, waiting, shown, last, running, left, lines⟩ := p
  obtain ⟨rising, behind, ahead, clock, awake, counting, counted⟩ := sane
  cases running with
  | false =>
    exact
      { rising := by simpa [deliver, told, queued, List.filterMap_cons] using rising
        behind := by simpa [deliver, told, queued, List.filterMap_cons] using behind
        ahead := ahead
        clock := clock
        awake := by simp [deliver]
        counting := by simpa [deliver, queued, List.filterMap_cons] using counting
        counted := by simpa [deliver, queued, List.filterMap_cons] using counted }
  | true =>
    have none : rest.count .tick = 0 := by
      have one := awake rfl
      rw [List.count_cons_self] at one
      omega
    by_cases noticed : last = some shown
    · exact
        { rising := by simpa [deliver, noticed, told, queued, List.filterMap_cons] using rising
          behind := by simpa [deliver, noticed, told, queued, List.filterMap_cons] using behind
          ahead := by simpa [deliver] using clock
          clock := le_rfl
          awake := by simp [deliver, noticed, none]
          counting := by simpa [deliver, noticed, queued, List.filterMap_cons] using counting
          counted := by simpa [deliver, noticed, queued, List.filterMap_cons] using counted }
    -- Whatever has been told is less than the second that is told now.
    have earlier : ∀ s ∈ Plot.told ⟨.tick :: rest, waiting, shown, last, true, left, lines⟩, s < shown := by
      intro s on
      obtain ⟨l, isLast, most⟩ := behind s on
      have least : l ≤ shown := ahead l isLast
      exact most.trans_lt (least.lt_of_ne fun same => noticed (same ▸ isLast))
    have told : (deliver now again ⟨rest, waiting, shown, last, true, left, lines⟩ .tick).told =
        Plot.told ⟨.tick :: rest, waiting, shown, last, true, left, lines⟩ ++ [shown] := by
      simp [deliver, noticed, Plot.told, queued, List.filterMap_cons]
    refine
      { rising := ?_
        behind := fun s on => ⟨shown, rfl, ?_⟩
        ahead := by simpa [deliver] using clock
        clock := le_rfl
        awake := by simp [deliver, noticed, none]
        counting := by simpa [deliver, noticed, queued, List.filterMap_cons] using counting
        counted := by simpa [deliver, noticed, queued, List.filterMap_cons] using counted }
    · rw [told, List.pairwise_append]
      exact ⟨rising, List.pairwise_singleton _ _, fun s on _ isShown => List.mem_singleton.mp isShown ▸ earlier s on⟩
    · rw [told, List.mem_append, List.mem_singleton] at on
      exact on.elim (fun on => (earlier s on).le) le_of_eq

/-- The counter has a second printed, and after the last one it stops the ticker. -/
theorem Sane.seconded {s : Int} (sane : Sane count now { p with mail := .second s :: rest }) :
    (deliver now again { p with mail := rest } (.second s)).Sane count now := by
  obtain ⟨mail, waiting, shown, last, running, left, lines⟩ := p
  obtain ⟨rising, behind, ahead, clock, awake, counting, counted⟩ := sane
  cases left with
  | none =>
    -- What comes after the last second is of no account.
    have fewer : List.Sublist (Plot.told ⟨rest, waiting, shown, last, running, none, lines⟩)
        (Plot.told ⟨.second s :: rest, waiting, shown, last, running, none, lines⟩) := by
      simp [told, queued, List.filterMap_cons]
    exact
      { rising := rising.sublist fewer
        behind := fun t on => behind t (fewer.subset on)
        ahead := ahead
        clock := clock
        awake := by simpa [deliver] using awake
        counting := by simp [deliver]
        counted := by simpa [deliver, queued, List.filterMap_cons] using counted }
  | some n =>
    obtain ⟨isRunning, noStop, total⟩ := counting n rfl
    replace noStop : rest.count .stop = 0 := by simpa using noStop
    replace total : (lines.length + (rest.filterMap Notice.line?).length : Int) + max n 0 = max count 0 := by
      simpa [queued, List.filterMap_cons] using total
    by_cases atEnd : n ≤ 0
    · exact
        { rising := by simpa [deliver, atEnd, told, queued, List.filterMap_cons] using rising
          behind := by simpa [deliver, atEnd, told, queued, List.filterMap_cons] using behind
          ahead := by simpa [deliver, atEnd] using ahead
          clock := by simpa [deliver, atEnd] using clock
          awake := by simpa [deliver, atEnd] using awake
          counting := by simp [deliver, atEnd]
          counted := fun _ => by
            have isRunning : running = true := isRunning
            simp only [deliver, if_pos atEnd, queued, List.filterMap_append, List.filterMap_cons, List.filterMap_nil,
              Notice.line?, List.length_append, List.length_singleton, List.count_append, noStop, isRunning]
            refine ⟨rfl, ?_⟩
            push_cast
            omega }
    · exact
        { rising := by simpa [deliver, atEnd, told, queued, List.filterMap_cons] using rising
          behind := by simpa [deliver, atEnd, told, queued, List.filterMap_cons] using behind
          ahead := by simpa [deliver, atEnd] using ahead
          clock := by simpa [deliver, atEnd] using clock
          awake := by simpa [deliver, atEnd] using awake
          counting := fun m isLeft => by
            obtain rfl : n - 1 = m := by simpa [deliver, atEnd] using isLeft
            refine ⟨by simpa [deliver, atEnd] using isRunning, by simpa [deliver, atEnd] using noStop, ?_⟩
            simp only [deliver, if_neg atEnd, queued, List.filterMap_append, List.filterMap_cons, List.filterMap_nil,
              Notice.line?, List.length_append, List.length_singleton]
            push_cast
            omega
          counted := by simp [deliver, atEnd] }

theorem Sane.printed {s : Int} (sane : Sane count now { p with mail := .line s :: rest }) :
    (deliver now again { p with mail := rest } (.line s)).Sane count now where
  rising := by simpa [deliver, told, queued, List.filterMap_cons] using sane.rising
  behind := by simpa [deliver, told, queued, List.filterMap_cons] using sane.behind
  ahead := sane.ahead
  clock := sane.clock
  awake running := by simpa [deliver] using sane.awake running
  counting n isLeft := by
    simpa [deliver, queued, List.filterMap_cons, add_assoc, add_comm, add_left_comm] using sane.counting n isLeft
  counted none := by
    simpa [deliver, queued, List.filterMap_cons, add_assoc, add_comm, add_left_comm] using sane.counted none

theorem Sane.stopped (sane : Sane count now { p with mail := .stop :: rest }) :
    (deliver now again { p with mail := rest } .stop).Sane count now where
  rising := by simpa [deliver, told, queued, List.filterMap_cons] using sane.rising
  behind := by simpa [deliver, told, queued, List.filterMap_cons] using sane.behind
  ahead := sane.ahead
  clock := sane.clock
  awake := by simp [deliver]
  counting n isLeft := by simpa using (sane.counting n isLeft).2.1
  counted none := by
    obtain ⟨one, printed⟩ := sane.counted none
    have most := Bool.toNat_le p.running
    refine ⟨?_, by simpa [deliver, queued, List.filterMap_cons] using printed⟩
    simp only [List.count_cons_self] at one
    simp only [deliver, Bool.toNat_false]
    omega

theorem Sane.untraced (sane : Sane count now { p with mail := .trace :: rest }) :
    Sane count now { p with mail := rest } where
  rising := by simpa [told, queued, List.filterMap_cons] using sane.rising
  behind := by simpa [told, queued, List.filterMap_cons] using sane.behind
  ahead := sane.ahead
  clock := sane.clock
  awake := by simpa using sane.awake
  counting := by simpa [queued, List.filterMap_cons] using sane.counting
  counted := by simpa [queued, List.filterMap_cons] using sane.counted

/-- Whatever is delivered, the count stays exact. -/
theorem Sane.delivered (sane : p.Sane count now) (shape : p.mail = n :: rest) (again : Bool) :
    (deliver now again { p with mail := rest } n).Sane count now := by
  have sane : Sane count now { p with mail := n :: rest } := shape ▸ sane
  cases n with
  | tick => exact sane.ticked
  | second s => exact sane.seconded
  | line s => exact sane.printed
  | stop => exact sane.stopped
  | trace => exact sane.untraced.traced again

/-- No more is printed than there is to count. -/
theorem Sane.lines_le (sane : p.Sane count now) : (p.lines.length : Int) ≤ max count 0 + 1 := by
  cases left : p.left with
  | none =>
    have := (sane.counted left).2
    omega
  | some n =>
    have := (sane.counting n left).2.2
    omega

/-- Once there are no messages the counter has counted to the end, and the ticker has stopped. -/
theorem Sane.finished (sane : p.Sane count now) (empty : p.mail = []) (idle : p.waiting = false) :
    p.running = false ∧ p.left = none ∧ (p.lines.length : Int) = max count 0 + 1 := by
  have stopped : p.running = false := by
    by_contra running
    simpa [empty, idle] using sane.awake (by simpa using running)
  have done : p.left = none := by
    by_contra some
    obtain ⟨n, left⟩ := Option.ne_none_iff_exists'.mp some
    simpa [stopped] using (sane.counting n left).1
  exact ⟨stopped, done, by simpa [queued, empty] using (sane.counted done).2⟩

end Plot

end Treadmill.Actor

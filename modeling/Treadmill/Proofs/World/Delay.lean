import Mathlib
import Treadmill.Proofs.World.Order

/-!
A delayed message is sent as a whole or not at all (`Course.delays`). With the clock in its usual range
the due time of whatever is not refused at once can be kept in a cell.
-/

namespace Treadmill

/-- A clock that shows a moment in normal form, less than `2 ^ 59` seconds from the beginning. -/
structure Moment.IsUsual (t : Moment) : Prop where
  regular : t.IsNormal
  begun : 0 ≤ t.s
  early : t.s < 2 ^ 59

/-- The range of a 64-bit signed register. -/
def IsSigned (n : Int) : Prop := -2 ^ 63 ≤ n ∧ n < 2 ^ 63

namespace Moment
variable {t : Moment} {delay : Int}

/-- Shifting fails only where the microseconds already leave their register. -/
theorem shift_overflow (beyond : 2 ^ 63 ≤ t.us + delay) : t.shift delay = .error .addOverflow := by
  have outside : ¬(-2 ^ 63 ≤ t.us + delay ∧ t.us + delay < 2 ^ 63) := by omega
  rw [shift, addSigned, if_neg outside]
  rfl

/-- So many microseconds make up less than `2 ^ 59` seconds: no carry leaves the narrowest range. -/
theorem IsUsual.shift_ok (usual : t.IsUsual) (signed : IsSigned delay) (within : t.us + delay < 2 ^ 63) :
    ∃ due, t.shift delay = .ok due ∧ -2 ^ 60 ≤ due.s ∧ due.s < 2 ^ 60 := by
  obtain ⟨⟨low, high⟩, begun, early⟩ := usual
  unfold IsSigned at signed
  have least : -2 ^ 59 ≤ (t.us + delay) / secondUs := by
    unfold secondUs
    omega
  have most : (t.us + delay) / secondUs < 2 ^ 59 := by
    unfold secondUs
    omega
  have inside : -2 ^ 63 ≤ t.us + delay ∧ t.us + delay < 2 ^ 63 := by omega
  have carried : -2 ^ 63 ≤ t.s + (t.us + delay) / secondUs ∧ t.s + (t.us + delay) / secondUs < 2 ^ 63 := by
    omega
  refine ⟨⟨t.s + (t.us + delay) / secondUs, (t.us + delay) % secondUs⟩, ?_, ?_, ?_⟩
  · have summed : addSigned t.us delay = .ok (t.us + delay) := if_pos inside
    have seconds : addSigned t.s ((t.us + delay) / secondUs) = .ok (t.s + (t.us + delay) / secondUs) :=
      if_pos carried
    rw [shift, summed]
    change normal t.s (t.us + delay) = _
    rw [normal, seconds]
    rfl
  · dsimp only
    omega
  · dsimp only
    omega

end Moment

/-- Every layout has room for numbers of 61 bits. -/
theorem Ref.number_range_of_narrow (L : Layout) {n : Int} (low : -2 ^ 60 ≤ n) (high : n < 2 ^ 60) :
    minNumber L ≤ n ∧ n ≤ maxNumber L := by
  cases L <;> simp only [minNumber, maxNumber, Layout.fieldBits] <;> omega

namespace World
variable {L : Layout} {α γ : Type} [DecidableEq α] {p : Point L α γ} {trace : List (Moved L α γ)}
  {target message : Ref L} {delay : Int} {now : Moment} {capacity : Nat} {traced : Bool} {guest : γ}
  {journal : Journal} {care : Care L} {r : Record L} {b : Books L} {opened : Option (Opened L α)}

/-- What comes of sending a delayed message from `p`. -/
structure Delays (p : Point L α γ) (delay : Int) (target message : Ref L) : Prop where
  /-- What is no actor gets none, -/
  refused : target.isActor = false → World.sendAfter delay target message p.logged =
    .error (.misuse .send target.value) p.logged
  /-- nor is there one that is due when no clock can show it: -/
  overflows : target.isActor = true → 2 ^ 63 ≤ p.world.now.us + delay →
    World.sendAfter delay target message p.logged = .error .addOverflow p.logged
  /-- any other due time is made of two numbers that a cell can hold, -/
  due : p.world.now.us + delay < 2 ^ 63 → ∃ due s us, p.world.now.shift delay = .ok due ∧
    (Ref.number due.s : Except Fault (Ref L)) = .ok s ∧ (Ref.number due.us : Except Fault (Ref L)) = .ok us
  /-- and the message takes its place among the timers, if there is room for its cells. -/
  sent : target.isActor = true → p.world.now.us + delay < 2 ^ 63 →
    (World.sendAfter delay target message).Ends p.logged
      (fun _ u => Moved.Shifts p.world u ⟨.call (.sendAfter delay target message), .ok none⟩ ∧
        u.delayed = p.world.delayed + 1)
      fun f u => f = .arenaExhausted ∧ u.Full

omit [DecidableEq α] in
theorem sendAfter_refused (s : Logged (World L α γ)) (delay : Int) (message : Ref L)
    (other : target.isActor = false) :
    World.sendAfter delay target message s = .error (.misuse .send target.value) s := by
  rw [World.sendAfter, other]
  rfl

omit [DecidableEq α] in
theorem sendAfter_overflow {s : Logged (World L α γ)} {f : Fault} (message : Ref L)
    (isActor : target.isActor = true) (failed : s.state.now.shift delay = .error f) :
    World.sendAfter delay target message s = .error f s := by
  rw [World.sendAfter, isActor, Task.require_true, pure_bind, Task.bind_apply, Task.view_apply]
  simp only [failed, Task.bind_apply, Task.ofExcept_error]

theorem Settled.sendAfter_delays (settled : Settled care r b p.world p.opened) (usual : p.world.now.IsUsual)
    (signed : IsSigned delay) (admitsTarget : care.Admits p.world.heap target)
    (admitsMessage : care.Admits p.world.heap message) : Delays p delay target message where
  refused := sendAfter_refused p.logged delay message
  overflows isActor beyond := sendAfter_overflow message isActor (Moment.shift_overflow beyond)
  due within := by
    obtain ⟨due, shifted, low, high⟩ := usual.shift_ok signed within
    obtain ⟨least, most⟩ := Ref.number_range_of_narrow L low high
    obtain ⟨s, seconds⟩ := Ref.number_ok least most
    obtain ⟨us, micros⟩ := Ref.number_micros_ok (L := L) (Moment.of_shift shifted).1.1
      (Moment.of_shift shifted).1.2
    exact ⟨due, s, us, shifted, seconds, micros⟩
  sent isActor within := by
    obtain ⟨due, shifted, low, high⟩ := usual.shift_ok signed within
    have range := Ref.number_range_of_narrow L low high
    have settles := settled.call (.sendAfter delay target message) (by simp) fun v on => by
      rcases List.mem_pair.mp on with rfl | rfl
      · exact admitsTarget
      · exact admitsMessage
    simp only [Point.moved, Point.after, Point.world, Move.next, Call.task, Task.bind_apply] at settles
    unfold Task.Ends
    cases ran : World.sendAfter delay target message p.logged with
    | error f u =>
      rw [ran] at settles
      rcases settles with ⟨exhausted, full⟩ | ⟨verdict, -⟩
      · exact ⟨Except.error.inj exhausted, full⟩
      · have shifted : p.logged.state.now.shift delay = .ok due := shifted
        simp [Move.Verdict, isActor, shifted, range, outcomeOf] at verdict
    | ok a u =>
      rw [ran] at settles
      obtain ⟨verdict, b', settled'⟩ := settles.enough (by simp [outcomeOf])
      have shows := settled.shows
      have shows' := settled'.shows
      have shifts := shows.shifts shows' verdict (by simp)
      have placed := shifts
      obtain ⟨-, due', front, back, -, before, grown⟩ := placed
      have delayed : u.state.delayed = u.state.timerList.length := shows'.delayed
      have grown : u.state.timerList = front ++ (due', target, message) :: back := grown
      refine ⟨shifts, ?_⟩
      rw [delayed, grown, shows.delayed, before]
      simp only [List.length_append, List.length_cons]
      omega

/-- At any time of a course a delayed message is refused, and nothing has changed then, or sent. -/
theorem Course.delays
    (course : Course Proper (Point.new capacity traced now guest journal) trace p)
    (usual : p.world.now.IsUsual) (signed : IsSigned delay) (holdsTarget : p.world.heap.Holds target)
    (holdsMessage : p.world.heap.Holds message) : Delays p delay target message := by
  obtain ⟨b, settled⟩ := course.settled
  exact settled.sendAfter_delays usual signed holdsTarget holdsMessage

/-- From a clock that shows a few microseconds the longest delay overflows, and the longest one back in
time does not. -/
theorem errand_delays : ∃ trace p, ∃ a : Ref .twoLow, Course Proper quiet trace p ∧ a.isActor = true ∧
    2 ^ 63 ≤ p.world.now.us + (2 ^ 63 - 1) ∧ p.world.now.us + -2 ^ 63 < 2 ^ 63 ∧
    Delays p (2 ^ 63 - 1) a .nil ∧ Delays p (-2 ^ 63) a .nil := by
  obtain ⟨trace, p, course, ⟨-, -, clock, a, isActor, holds, -⟩, -⟩ := errand
  have usual : p.world.now.IsUsual := by
    rw [clock]
    exact ⟨⟨by decide, by decide⟩, by decide, by decide⟩
  have nil : p.world.heap.Holds .nil := fun i target => by simp at target
  refine ⟨trace, p, a, course, isActor, by rw [clock]; decide, by rw [clock]; decide,
    course.delays usual ⟨by decide, by decide⟩ holds nil, course.delays usual ⟨by decide, by decide⟩ holds nil⟩

end World

end Treadmill

import Mathlib
import Treadmill.Data.Show

/-!
Faults that reading a value cannot end with. A count that is lowered below zero and an arena with no
room left are nothing that a value could be to blame for.
-/

namespace Treadmill
variable {L : Layout}

/-- Whether a fault says that a count was to be lowered below zero, or that there is no room left. -/
def Fault.isGrave : Fault → Bool
  | .subtractOverflow | .arenaExhausted => true
  | _ => false

theorem Ref.asFunc_error {r : Ref L} {f : Fault} (failed : r.asFunc = .error f) :
    f.isGrave = false := by
  unfold asFunc expect at failed
  split at failed
  · simp [bind, Except.bind, pure, Except.pure] at failed
  · obtain rfl := Except.error.inj failed
    rfl

theorem Ref.func_error {i : Nat} {f : Fault} (failed : (func i : Except Fault (Ref L)) = .error f) :
    f = .funcRange i := by
  unfold func at failed
  split at failed
  · cases failed
  · exact (Except.error.inj failed).symm

namespace Writing
variable {a b w : Writing} {f : Fault}

theorem fault?_of_toExcept (failed : w.toExcept = .error f) : w.fault? = some f := by
  obtain ⟨text, cut⟩ := w
  cases cut with
  | none => cases failed
  | some g => exact congrArg some (Except.error.inj failed)

theorem fault?_then (failed : (a >> b).fault? = some f) :
    a.fault? = some f ∨ b.fault? = some f := by
  obtain ⟨text, cut⟩ := a
  cases cut with
  | none => exact Or.inr failed
  | some g => exact Or.inl failed

/-- A writing that was not cut short by a grave fault. -/
def Sober (w : Writing) : Prop := ∀ f, w.fault? = some f → f.isGrave = false

theorem sober_whole (text : String) : (whole text).Sober := by simp [Sober, whole]

theorem Sober.followed (first : a.Sober) (second : b.Sober) : (a >> b).Sober := fun f failed =>
  (fault?_then failed).elim (first f) (second f)

end Writing

namespace Data
variable (h : Heap L)

theorem peek_sober {r : Ref L} {f : Fault} (failed : peek h r = .error f) : f.isGrave = false := by
  unfold peek at failed
  cases named : r.cell with
  | error g =>
    rw [named] at failed
    obtain rfl := Except.error.inj failed
    unfold Ref.cell at named
    split at named
    · cases named
    · cases named
    · obtain rfl := Except.error.inj named
      rfl
  | ok i =>
    simp only [named, bind, Except.bind] at failed
    split at failed
    · cases failed
    · obtain rfl := Except.error.inj failed
      rfl

theorem showItems_sober {item : Ref L → Writing} (sober : ∀ r, (item r).Sober) (n : Nat)
    (r : Ref L) : (showItems h item n r).Sober := by
  have tail : ∀ {d : Ref L} {more : Writing}, more.Sober →
      (if d.isNil then Writing.whole "" else if !d.isPair then .whole " . " >> item d
        else more).Sober := by
    intro d more here
    split
    · exact Writing.sober_whole _
    · split
      · exact (Writing.sober_whole _).followed (sober d)
      · exact here
  induction n generalizing r with
  | zero =>
    rw [showItems]
    cases found : peek h r with
    | error f =>
      rintro g failed
      obtain rfl := Option.some.inj failed
      exact peek_sober h found
    | ok c => exact (sober c.1).followed (tail (Writing.sober_whole _))
  | succ n ih =>
    rw [showItems]
    cases found : peek h r with
    | error f =>
      rintro g failed
      obtain rfl := Option.some.inj failed
      exact peek_sober h found
    | ok c => exact (sober c.1).followed (tail ((Writing.sober_whole _).followed (ih c.2)))

/-- Writing out a value never ends with a grave fault. -/
theorem showFrom_sober (names : Symbols) (n : Nat) (r : Ref L) :
    (showFrom h names n r).Sober := by
  induction n generalizing r with
  | zero => exact Writing.sober_whole _
  | succ n ih =>
    rw [showFrom]
    split
    · exact (Writing.sober_whole _).followed ((showItems_sober h ih _ r).followed
        (Writing.sober_whole _))
    · exact Writing.sober_whole _

end Data

end Treadmill

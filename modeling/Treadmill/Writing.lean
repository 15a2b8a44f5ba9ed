import Treadmill.Fault

/-!
# Writings

A writing is text that a fault may have cut short. One writing follows another only if the first
one is whole, so the text of a cut writing is all that was written before the fault.
-/

namespace Treadmill

/-- Text, and the fault that cut it short, if one did. -/
structure Writing where
  text : String
  fault? : Option Fault
deriving DecidableEq

namespace Writing

def whole (text : String) : Writing := ⟨text, none⟩

/-- A fault before anything is written. -/
def cut (f : Fault) : Writing := ⟨"", some f⟩

/-- The first writing and, if that is whole, the second one after it. -/
def followedBy (a : Writing) (b : Unit → Writing) : Writing :=
  match a.fault? with
  | some _ => a
  | none =>
    let w := b ()
    ⟨a.text ++ w.text, w.fault?⟩

instance : AndThen Writing := ⟨followedBy⟩

/-- What is written once a value is known. -/
def after {α : Type} (value : Except Fault α) (k : α → Writing) : Writing :=
  match value with
  | .ok a => k a
  | .error f => cut f

/-- The text of a whole writing, or the fault that cut it short. -/
def toExcept (w : Writing) : Except Fault String :=
  match w.fault? with
  | some f => .error f
  | none => .ok w.text

@[simp] theorem text_whole (text : String) : (whole text).text = text := rfl

theorem eq_whole {w : Writing} (intact : w.fault? = none) : w = whole w.text := by
  cases w
  exact congrArg (mk _) intact

@[simp] theorem toExcept_whole (text : String) : (whole text).toExcept = .ok text := rfl

@[simp] theorem toExcept_cut (f : Fault) : (cut f).toExcept = .error f := rfl

@[simp] theorem whole_then (a : String) (w : Writing) :
    (whole a >> w) = ⟨a ++ w.text, w.fault?⟩ := rfl

@[simp] theorem whole_then_whole (a b : String) : (whole a >> whole b) = whole (a ++ b) := rfl

/-- Nothing is written after a fault. -/
theorem then_of_fault {a : Writing} (h : a.fault? ≠ none) (b : Writing) : (a >> b) = a := by
  obtain ⟨t, f⟩ := a
  cases f
  · exact absurd rfl h
  · rfl

/-- A sequence is whole just when both of its parts are. -/
theorem fault?_then_eq_none_iff (a b : Writing) :
    (a >> b).fault? = none ↔ a.fault? = none ∧ b.fault? = none := by
  obtain ⟨t, f⟩ := a
  cases f
  · exact ⟨fun h => ⟨rfl, h⟩, fun h => h.2⟩
  · exact ⟨fun h => (nomatch h), fun h => (nomatch h.1)⟩

end Writing

end Treadmill

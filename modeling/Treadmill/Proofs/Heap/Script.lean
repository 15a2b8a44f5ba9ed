import Mathlib
import Treadmill.Proofs.Heap.Chain
import Treadmill.Proofs.Heap.Run

/-!
Scripts of operations. A script is fitting if each operand names a collectable cell, or no cell, when its
turn comes; then it leads from a sound heap to a sound heap. Whether a script is fitting can be decided.
-/

namespace Treadmill
open Heap
variable {L : Layout} {s : Logged (Heap L)} {ops : List (Op L)}

namespace Heap

instance (h : Heap L) (i : Nat) : Decidable (h.Collectable i) :=
  inferInstanceAs (Decidable (i ∈ h.members .fresh ∨ i ∈ h.members .aged ∨ i ∈ h.members .scan))

instance (h : Heap L) (v : Ref L) : Decidable (h.Plain v) :=
  inferInstanceAs (Decidable (∀ i ∈ v.target?, h.Collectable i))

instance (r : Ref L) (i : Nat) : Decidable (r.Points i) :=
  inferInstanceAs (Decidable (r.isPair = true ∧ r.target? = some i))

instance Leads.decide (h : Heap L) (q : Ref L) : (cells : List Nat) → (r : Ref L) → Decidable (h.Leads r cells q)
  | [], r => inferInstanceAs (Decidable (r = q))
  | i :: cells, r =>
    have := Leads.decide h q cells (h.contents i).2
    inferInstanceAs (Decidable (r.Points i ∧ h.Leads (h.contents i).2 cells q))

/-- A heap without cells, and no one who listens. -/
def blank (L : Layout) : Logged (Heap L) := ⟨Heap.empty false, ⟨none, #[]⟩⟩

end Heap

/-- Where the operations lead, one after the other. -/
def afterAll (s : Logged (Heap L)) : List (Op L) → Logged (Heap L)
  | [] => s
  | op :: ops => afterAll (stateAfter (op.task s)) ops

def Fitting (s : Logged (Heap L)) : List (Op L) → Prop
  | [] => True
  | op :: ops => (∀ v ∈ op.operands, s.state.Plain v) ∧ Fitting (stateAfter (op.task s)) ops

instance Fitting.decide (s : Logged (Heap L)) : (ops : List (Op L)) → Decidable (Fitting s ops)
  | [] => inferInstanceAs (Decidable True)
  | op :: ops =>
    have := Fitting.decide (stateAfter (op.task s)) ops
    inferInstanceAs (Decidable ((∀ v ∈ op.operands, s.state.Plain v) ∧ Fitting (stateAfter (op.task s)) ops))

theorem Fitting.sound (fitting : Fitting s ops) (sound : s.state.Sound) : (afterAll s ops).state.Sound := by
  induction ops generalizing s with
  | nil => exact sound
  | cons op ops ih =>
    obtain ⟨plain, fitting⟩ := fitting
    apply ih fitting
    exact (op.step sound fun v on => (plain v on).holds).sound sound

theorem Fitting.sound_blank {ops : List (Op L)} (fitting : Fitting (blank L) ops) :
    (afterAll (blank L) ops).state.Sound :=
  fitting.sound (sound_empty false)

end Treadmill

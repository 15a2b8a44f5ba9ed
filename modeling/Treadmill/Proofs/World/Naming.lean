import Mathlib
import Treadmill.Proofs.Symbols
import Treadmill.Proofs.World.Conduct

/-!
Names are all that a world looks up in its table, so most tasks run alike whatever the table says
(`Nameless`). What such a task comes to in a world without names holds of every world that differs from it
in its names alone.
-/

namespace Treadmill
variable {L : Layout} {α γ β δ : Type}

namespace World
variable {s u : Logged (World L α γ)} {t : WorldTask L α γ β}
  {k : β → WorldTask L α γ δ} {table : Symbols} {name : String} {a : β} {f : Fault}

/-- The world with another table of names. -/
def renamed (table : Symbols) (s : Logged (World L α γ)) : Logged (World L α γ) :=
  ⟨{ s.state with symbols := table }, s.journal⟩

/-- A name that is new gets the next number. -/
theorem atom_new {n : Nat} (new : table.find? name = none) (count : table.size = n) (room : n < 2 ^ 32) :
    atom name (renamed table s) = .ok (.atom (UInt32.ofNat n)) (renamed (table.enter name) s) := by
  have interned : (renamed table s).state.symbols.intern name = .ok (UInt32.ofNat n, table.enter name) := by
    rw [Symbols.intern_eq, renamed, new, count]
    exact if_pos room
  rw [atom_apply, interned]
  rfl

theorem atom_bind_new {k : Ref L → WorldTask L α γ δ} {n : Nat} {b : δ} (new : table.find? name = none)
    (count : table.size = n) (room : n < 2 ^ 32)
    (rest : k (.atom (UInt32.ofNat n)) (renamed (table.enter name) s) = .ok b u) :
    (atom name >>= k) (renamed table s) = .ok b u :=
  Task.bind_eq_ok.mpr ⟨_, _, atom_new new count room, rest⟩

/-- The task neither reads nor changes the table of names. -/
class Nameless (t : WorldTask L α γ β) : Prop where
  alike : ∀ s table, t (renamed table s) = match t s with
    | .ok a u => .ok a (renamed table u)
    | .error f u => .error f (renamed table u)

namespace Nameless

theorem ok [nameless : Nameless t] (ran : t s = .ok a u) (table : Symbols) :
    t (renamed table s) = .ok a (renamed table u) := by
  rw [nameless.alike, ran]

theorem after (first : Nameless t) (rest : ∀ a, Nameless (k a)) : Nameless (t >>= k) where
  alike s table := by
    rw [Task.bind_apply, Task.bind_apply, first.alike]
    cases t s with
    | ok a u => exact (rest a).alike u table
    | error f u => rfl

instance bind [Nameless t] [∀ a, Nameless (k a)] : Nameless (t >>= k) := after ‹_› ‹_›

instance pure (a : β) : Nameless (Pure.pure a : WorldTask L α γ β) := ⟨fun _ _ => rfl⟩

instance ofExcept (e : Except Fault β) : Nameless (Task.ofExcept e : WorldTask L α γ β) :=
  ⟨fun _ _ => by cases e <;> rfl⟩

instance require (c : Bool) (f : Fault) : Nameless (Task.require c f : WorldTask L α γ Unit) :=
  ⟨fun _ _ => by cases c <;> rfl⟩

instance ite {c : Prop} [Decidable c] {t u : WorldTask L α γ β} [Nameless t] [Nameless u] :
    Nameless (if c then t else u) := by
  split <;> infer_instance

instance onHeap (t : HeapTask L β) : Nameless (World.onHeap t : WorldTask L α γ β) where
  alike s table := by
    cases ran : t ⟨s.state.heap, s.journal⟩ with
    | ok a u =>
      rw [onHeap_ok ran]
      exact onHeap_ok (s := renamed table s) ran
    | error f u =>
      rw [onHeap_error ran]
      exact onHeap_error (s := renamed table s) ran

instance lift (t : HeapTask L β) : Nameless (liftM t : WorldTask L α γ β) := onHeap t

section
variable {r first rest entry node target message : Ref L} {b : Behavior α}

instance : Nameless (Task.view (·.now) : WorldTask L α γ Moment) := ⟨fun _ _ => rfl⟩

instance : Nameless (Task.view (·.pool) : WorldTask L α γ (Ref L)) := ⟨fun _ _ => rfl⟩

instance : Nameless (Task.view (·.mailFirst) : WorldTask L α γ (Ref L)) := ⟨fun _ _ => rfl⟩

instance : Nameless (Task.view (·.mailLast) : WorldTask L α γ (Ref L)) := ⟨fun _ _ => rfl⟩

instance : Nameless (Task.alter countTaken : WorldTask L α γ Unit) := ⟨fun _ _ => rfl⟩

instance : Nameless (Task.alter fun w : World L α γ => { w with pool := r }) := ⟨fun _ _ => rfl⟩

instance : Nameless (Task.alter fun w : World L α γ => { w with mailFirst := r }) := ⟨fun _ _ => rfl⟩

instance : Nameless (Task.alter fun w : World L α γ => { w with mailLast := r, pending := w.pending + 1 }) :=
  ⟨fun _ _ => rfl⟩

instance : Nameless (Task.alter fun w : World L α γ => { w with behaviors := w.behaviors.push b }) :=
  ⟨fun _ _ => rfl⟩

instance : Nameless (take first rest : WorldTask L α γ (Ref L)) := by
  unfold take spareCell reuse; infer_instance

instance : Nameless (enqueue entry : WorldTask L α γ Unit) := by unfold enqueue linkMail; infer_instance

instance : Nameless (send target message : WorldTask L α γ Unit) := by unfold send; infer_instance

instance [DecidableEq α] : Nameless (function b : WorldTask L α γ (Ref L)) where
  alike s table := by
    unfold function
    rw [Task.bind_apply, Task.bind_apply]
    dsimp only [Task.view_apply, renamed]
    cases s.state.behaviors.idxOf? b <;> exact Nameless.alike s table

instance [DecidableEq α] : Nameless (createActor b r : WorldTask L α γ (Ref L)) := by
  unfold createActor; infer_instance

end

end Nameless

end World

/-! ### What the samples do under their names -/

namespace Actor
open World (Nameless)
variable [DecidableEq α]

/-- A greeter that signs with `signature`. -/
def makeGreeter (textKey signature : Ref L) : WorldTask L α γ (Ref L) := do
  World.createActor .hello (← Data.mapPut .nil textKey signature)

/-- The two messages that a new greeter gets. -/
def greetTwice (nameKey addrKey world greeter : Ref L) : WorldTask L α γ Unit := do
  World.send greeter (← Data.mapPut .nil nameKey world)
  let answer ← Task.ofExcept (Ref.number 42)
  let message ← Data.mapPut .nil nameKey answer
  World.send greeter (← Data.mapPut message addrKey greeter)

/-- A counter, a ticker that tells it of the seconds, and the ticker's first message. -/
def makeTicker (countKey secKey timeKey : Ref L) (count : Int) : WorldTask L α γ (Ref L) := do
  let number ← Task.ofExcept (Ref.number count)
  let counter ← World.createActor .eachSecond (← Data.mapPut .nil countKey number)
  let ticker ← World.createActor .ticker (← Data.mapPut .nil secKey counter)
  let now ← Task.ofExcept (Ref.number (← Task.view (·.now)).s)
  World.send ticker (← Data.mapPut .nil timeKey now)
  return ticker

theorem sayHello_eq : (sayHello : WorldTask L α γ (Ref L)) = (do
    let textKey ← World.atom "text"
    let nameKey ← World.atom "name"
    let addrKey ← World.atom "addr"
    let signature ← World.atom "Actor"
    let greeter ← makeGreeter textKey signature
    let world ← World.atom "World!"
    greetTwice nameKey addrKey world greeter
    return greeter) := by
  simp only [sayHello, makeGreeter, greetTwice, bind_assoc]

theorem startTicker_eq (count : Int) : (startTicker count : WorldTask L α γ (Ref L)) = (do
    let countKey ← World.atom "count"
    let secKey ← World.atom "sec"
    let timeKey ← World.atom "time"
    makeTicker countKey secKey timeKey count) := rfl

variable {k₁ k₂ k₃ r : Ref L} {n : Int}

instance : Nameless (makeGreeter k₁ r : WorldTask L α γ (Ref L)) := by unfold makeGreeter; infer_instance

instance : Nameless (greetTwice k₁ k₂ k₃ r : WorldTask L α γ Unit) := by unfold greetTwice; infer_instance

instance : Nameless (makeTicker k₁ k₂ k₃ n : WorldTask L α γ (Ref L)) := by
  unfold makeTicker
  iterate 2 refine Nameless.after inferInstance fun _ => ?_
  infer_instance

end Actor

end Treadmill

import Treadmill.Event

/-!
# Tasks

A task works on a state, keeps a journal of events, and may give up with a fault. What it did
before the fault stays done.
-/

namespace Treadmill

/-- Events in the order in which they came. Log lines below the threshold are not kept; without a
threshold no log line is. Text for standard output always is. -/
structure Journal where
  threshold : Option Level
  events : Array Event

namespace Journal

def admits (j : Journal) (l : Level) : Bool :=
  match j.threshold with
  | none => false
  | some t => l.rank ≤ t.rank

def keeps (j : Journal) (e : Event) : Bool :=
  match e.level? with
  | none => true
  | some l => j.admits l

def add (j : Journal) (e : Event) : Journal :=
  if j.keeps e then { j with events := j.events.push e } else j

end Journal

/-- A state together with the journal of what has happened to it. -/
structure Logged (σ : Type) where
  state : σ
  journal : Journal

abbrev Task (σ : Type) := EStateM Fault (Logged σ)

namespace Task
variable {σ τ α : Type}

/-- Reads the state. -/
def view (f : σ → α) : Task σ α := fun s =>
  let a := f s.state
  .ok a s

/-- Changes the state. -/
def alter (f : σ → σ) : Task σ Unit := fun s =>
  let ⟨state, journal⟩ := s
  .ok () ⟨f state, journal⟩

/-- Changes the state and answers with a value. -/
def change (f : σ → α × σ) : Task σ α := fun s =>
  let ⟨state, journal⟩ := s
  let (a, state) := f state
  .ok a ⟨state, journal⟩

/-- Changes the state and answers with a value, or gives up and leaves the state as it is. -/
def attempt (f : σ → Except Fault (α × σ)) : Task σ α := fun s =>
  match f s.state with
  | .ok (a, state) => .ok a ⟨state, s.journal⟩
  | .error e => .error e s

/-- Gives up with a fault, or goes on with a value. -/
def ofExcept (e : Except Fault α) : Task σ α := fun s =>
  match e with
  | .ok a => .ok a s
  | .error f => .error f s

/-- Gives up unless the condition holds. -/
def require (c : Bool) (f : Fault) : Task σ Unit := fun s =>
  if c then .ok () s else .error f s

/-- Does a task only if the condition holds. -/
def when (c : Bool) (t : Task σ Unit) : Task σ Unit := fun s =>
  if c then t s else .ok () s

def note (e : Event) : Task σ Unit := fun s =>
  let ⟨state, journal⟩ := s
  .ok () ⟨state, journal.add e⟩

/-- Whether log lines of this level are kept. -/
def admits (l : Level) : Task σ Bool := fun s =>
  let b := s.journal.admits l
  .ok b s

/-- Notes a log line that takes work to put together; the work is done only for a line that is
kept. -/
def noteFrom (l : Level) (t : Task σ Event) : Task σ Unit := do
  if ← admits l then note (← t)

/-- Runs a task on a part of the state, which is taken out for the time and put back afterwards,
also after a fault. -/
def onPart (take : σ → τ) (put : τ → σ → σ) (vacant : τ) (t : Task τ α) : Task σ α := fun s =>
  let ⟨state, journal⟩ := s
  let part := take state
  let state := put vacant state
  match t ⟨part, journal⟩ with
  | .ok a ⟨part, journal⟩ => .ok a ⟨put part state, journal⟩
  | .error f ⟨part, journal⟩ => .error f ⟨put part state, journal⟩

/-! ### Running -/

@[simp] theorem pure_apply (a : α) (s : Logged σ) : (pure a : Task σ α) s = .ok a s := rfl

@[simp] theorem throw_apply (f : Fault) (s : Logged σ) :
    (throw f : Task σ α) s = .error f s := rfl

theorem bind_apply {β : Type} (t : Task σ α) (k : α → Task σ β) (s : Logged σ) :
    (t >>= k) s = match t s with
      | .ok a s => k a s
      | .error f s => .error f s := by
  simp only [bind, EStateM.bind]
  cases t s <;> rfl

theorem bind_of_ok {β : Type} {t : Task σ α} {k : α → Task σ β} {a : α} {s u : Logged σ}
    (ran : t s = .ok a u) : (t >>= k) s = k a u := by
  rw [bind_apply, ran]

theorem bind_eq_ok {β : Type} {t : Task σ α} {k : α → Task σ β} {b : β} {s s' : Logged σ} :
    (t >>= k) s = .ok b s' ↔ ∃ a u, t s = .ok a u ∧ k a u = .ok b s' := by
  rw [bind_apply]
  cases t s <;> simp [and_assoc]

theorem bind_eq_error {β : Type} {t : Task σ α} {k : α → Task σ β} {f : Fault}
    {s s' : Logged σ} :
    (t >>= k) s = .error f s' ↔
      t s = .error f s' ∨ ∃ a u, t s = .ok a u ∧ k a u = .error f s' := by
  rw [bind_apply]
  cases t s <;> simp [and_assoc]

@[simp] theorem when_true (t : Task σ Unit) : when true t = t := rfl

@[simp] theorem when_false (t : Task σ Unit) : when false t = pure () := rfl

@[simp] theorem view_apply (f : σ → α) (s : Logged σ) :
    (view f : Task σ α) s = .ok (f s.state) s := rfl

@[simp] theorem alter_apply (f : σ → σ) (s : Logged σ) :
    alter f s = .ok () ⟨f s.state, s.journal⟩ := rfl

@[simp] theorem change_apply (f : σ → α × σ) (s : Logged σ) :
    change f s = .ok (f s.state).1 ⟨(f s.state).2, s.journal⟩ := rfl

@[simp] theorem ofExcept_ok (a : α) (s : Logged σ) : (ofExcept (.ok a) : Task σ α) s = .ok a s :=
  rfl

@[simp] theorem ofExcept_error (f : Fault) (s : Logged σ) :
    (ofExcept (.error f) : Task σ α) s = .error f s := rfl

@[simp] theorem require_true (f : Fault) : (require true f : Task σ Unit) = pure () := rfl

@[simp] theorem require_false (f : Fault) : (require false f : Task σ Unit) = throw f := rfl

@[simp] theorem note_apply (e : Event) (s : Logged σ) :
    note e s = .ok () ⟨s.state, s.journal.add e⟩ := rfl

end Task

end Treadmill

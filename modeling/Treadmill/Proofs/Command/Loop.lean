import Mathlib
import Treadmill.Main
import Treadmill.Proofs.World.Conduct
import Treadmill.Proofs.World.Naming
import Treadmill.Proofs.World.Outcome

/-!
The command's loop. Wherever it has come to, a turn that is followed by another one at once has spent its
budget on as many deliveries, and one that is followed by a rest has left no message pending
(`Reached.makes_progress`).
-/

namespace Treadmill

namespace Command
open World (Continues Dialog Handles Point Ran modest)
open Treadmill.Task (Tends)
variable {L : Layout} {γ : Type} {o : Options} {host : Host L Empty γ} {clock : Nat → γ → Moment}
  {s u v : Logged (World L Empty γ)} {next : Next} {left : Option Nat}

/-- The states in which the loop finds its world: after the start, and after each turn but the last. What
is in the journal may be printed in between. -/
inductive Reached (o : Options) (host : Host L Empty γ) : Logged (World L Empty γ) → Prop
  | begin {traced : Bool} {now : Moment} {guest : γ} {s : Logged (World L Empty γ)}
      (begun : start o (World.create o.capacity traced now guest (threshold o)) = .ok () s) : Reached o host s
  | again {clock : Nat → γ → Moment} {s u : Logged (World L Empty γ)} {next : Next}
      (reached : Reached o host s) (ran : turn o host clock s = .ok next u) (goes : next ≠ .finish) : Reached o host u
  | print {s : Logged (World L Empty γ)} (reached : Reached o host s) :
      Reached o host ⟨s.state, { s.journal with events := #[] }⟩

section
variable {J : Logged (World L Empty γ) → List (Ref L) → Prop} [Handles J] {known : List (Ref L)}

instance (n : Int) : Tends J known (startSample n : WorldTask L Empty γ Unit) := by
  unfold startSample
  iterate 5 refine Tends.after inferInstance fun _ => ?_
  infer_instance

instance : Tends J known (start o : WorldTask L Empty γ Unit) := by unfold start; infer_instance

end

section
variable {along : List (World.Moved L Empty γ) → Point L Empty γ → Prop} {trace : List (World.Moved L Empty γ)}
  {p start : Point L Empty γ}

theorem continues_discard {β : Type} {t : WorldTask L Empty γ β} (continues : Continues along trace p t) :
    Continues along trace p (discard t) := by
  unfold Continues
  have same : discard t p.logged = match t p.logged with
      | .ok _ s => .ok () s
      | .error f s => .error f s := by
    change EStateM.map (Function.const β ()) t p.logged = _
    unfold EStateM.map
    cases t p.logged <;> rfl
  rw [same]
  cases ran : t p.logged with
  | ok a s => exact Or.inr (continues.of_ok ran)
  | error f s =>
    unfold Continues at continues
    rw [ran] at continues
    exact continues.imp (fun exhausted => congrArg _ (Except.error.inj exhausted)) id

theorem settle_continues (dialog : Dialog modest start trace ⟨s, none⟩) (left : Option Nat) :
    Continues (Dialog modest start) trace ⟨s, none⟩ (settle o left) := by
  have noted : ∀ (e : Event) (next : Next), Continues (Dialog modest start) trace ⟨s, none⟩
      (do Task.note e; return next) := fun e next =>
    (Dialog.runs.note dialog e).bind fun _ _ _ _ dialog => .still dialog rfl
  rw [settle]
  refine Continues.view ?_
  split
  · exact Continues.view (noted _ _)
  split
  · exact noted _ _
  refine Continues.view ?_
  split
  · exact .still dialog rfl
  refine Continues.view ?_
  refine Continues.bind ?_ fun _ _ _ _ dialog => .still dialog rfl
  generalize (o.collect && !_) = collects
  cases collects with
  | false =>
    rw [Task.when_false]
    exact .still dialog rfl
  | true =>
    rw [Task.when_true]
    exact continues_discard (dialog.serves (o := .startCollect) rfl (by simp [World.Service.operands])
      (fun _ => none) rfl)

end

section
variable {capacity : Nat} {traced : Bool} {now : Moment} {guest : γ} {journal : Journal}
  {trace : List (World.Moved L Empty γ)}

theorem run_continues
    (dialog : Dialog modest (Point.new capacity traced now guest journal) trace ⟨s, none⟩) (budget : Int) :
    Continues (Dialog modest (Point.new capacity traced now guest journal)) trace ⟨s, none⟩
      (World.run host clock budget) :=
  (dialog.goesOn World.within_modest).runs rfl host clock budget fun _ _ _ name => nomatch name

theorem turn_continues
    (dialog : Dialog modest (Point.new capacity traced now guest journal) trace ⟨s, none⟩) :
    Continues (Dialog modest (Point.new capacity traced now guest journal)) trace ⟨s, none⟩
      (turn o host clock) :=
  (run_continues dialog o.budget).bind fun left _ _ _ dialog => settle_continues dialog left

end

/-- The loop keeps to a modest dialog. -/
theorem Reached.dialog (reached : Reached o host s) :
    ∃ (capacity : Nat) (traced : Bool) (now : Moment) (guest : γ) (journal : Journal)
      (trace : List (World.Moved L Empty γ)),
      Dialog modest (Point.new capacity traced now guest journal) trace ⟨s, none⟩ := by
  induction reached with
  | @begin traced now guest s begun =>
    have new : Dialog modest (Point.new (L := L) (α := Empty) o.capacity traced now guest
      (Journal.add ⟨threshold o, #[]⟩ (.worldMade o.capacity))) [] _ := .start
    obtain ⟨trace, dialog⟩ :=
      (World.within_modest.continues new (fun _ => inferInstance) (List.forall_mem_nil _)).of_ok begun
    exact ⟨_, _, _, _, _, _, dialog⟩
  | again reached ran goes ih =>
    obtain ⟨_, _, _, _, _, trace, dialog⟩ := ih
    obtain ⟨more, dialog⟩ := (turn_continues dialog).of_ok ran
    exact ⟨_, _, _, _, _, _, dialog⟩
  | @print s reached ih =>
    obtain ⟨_, _, _, _, _, trace, dialog⟩ := ih
    have fits : World.Move.Fits (.call (.aside s.state.symbols s.state.guest { s.journal with events := #[] }))
      (⟨s, none⟩ : Point L Empty γ) := fun outer => by cases outer
    exact ⟨_, _, _, _, _, _, Dialog.runs _ _ _ dialog rfl fits
      (by simp [Point.moved, World.Move.next, World.Call.task, outcomeOf])⟩

/-! ### The sample -/

/-- The sample, once its names have got their numbers. -/
def sampleUnder (seconds : Int) : WorldTask L Empty γ Unit := do
  let greeter ← Actor.makeGreeter (.atom 0) (.atom 3)
  Actor.greetTwice (.atom 1) (.atom 2) (.atom 4) greeter
  let n ← Task.ofExcept (Ref.number seconds)
  let countdown ← World.createActor .countdown n
  World.send countdown .nil
  let _ ← Actor.makeTicker (.atom 5) (.atom 6) (.atom 7) seconds

theorem startSample_unnamed {seconds : Int} (ran : sampleUnder seconds s = .ok () u) :
    ∃ table, startSample seconds (World.renamed .empty s) = .ok () (World.renamed table u) := by
  obtain ⟨greeter, s₁, made, ran⟩ := Task.bind_eq_ok.mp ran
  obtain ⟨_, s₂, greeted, ran⟩ := Task.bind_eq_ok.mp ran
  obtain ⟨n, s₃, isNumber, ran⟩ := Task.bind_eq_ok.mp ran
  obtain ⟨countdown, s₄, counts, ran⟩ := Task.bind_eq_ok.mp ran
  obtain ⟨_, s₅, sent, ran⟩ := Task.bind_eq_ok.mp ran
  obtain ⟨ticker, s₆, ticks, ran⟩ := Task.bind_eq_ok.mp ran
  obtain rfl : s₆ = u := by simpa using ran
  refine ⟨["text", "name", "addr", "Actor", "World!", "count", "sec", "time"].foldl Symbols.enter .empty, ?_⟩
  rw [startSample, Actor.sayHello_eq, Actor.startTicker_eq]
  simp only [bind_assoc, pure_bind]
  refine World.atom_bind_new (n := 0) (by simp) (by simp) (by decide) ?_
  refine World.atom_bind_new (n := 1) (by simp [Symbols.find?_enter]) (by simp) (by decide) ?_
  refine World.atom_bind_new (n := 2) (by simp [Symbols.find?_enter]) (by simp) (by decide) ?_
  refine World.atom_bind_new (n := 3) (by simp [Symbols.find?_enter]) (by simp) (by decide) ?_
  refine Task.bind_eq_ok.mpr ⟨_, _, World.Nameless.ok made _, ?_⟩
  refine World.atom_bind_new (n := 4) (by simp [Symbols.find?_enter]) (by simp) (by decide) ?_
  refine Task.bind_eq_ok.mpr ⟨_, _, World.Nameless.ok greeted _, ?_⟩
  refine Task.bind_eq_ok.mpr ⟨_, _, World.Nameless.ok isNumber _, ?_⟩
  refine Task.bind_eq_ok.mpr ⟨_, _, World.Nameless.ok counts _, ?_⟩
  refine Task.bind_eq_ok.mpr ⟨_, _, World.Nameless.ok sent _, ?_⟩
  refine World.atom_bind_new (n := 5) (by simp [Symbols.find?_enter]) (by simp) (by decide) ?_
  refine World.atom_bind_new (n := 6) (by simp [Symbols.find?_enter]) (by simp) (by decide) ?_
  refine World.atom_bind_new (n := 7) (by simp [Symbols.find?_enter]) (by simp) (by decide) ?_
  exact Task.bind_eq_ok.mpr ⟨_, _, World.Nameless.ok ticks _, rfl⟩

/-- What the arguments `-s -b 0` ask for. -/
def sampleWithoutBudget : Options := { sample := true, budget := 0 }

/-- The sample starts in a new world, and its messages wait. -/
theorem sample_reached : ∃ s : CommandWorld, Reached sampleWithoutBudget noHost s ∧
    0 < s.state.pending ∧ s.state.pending ≤ s.state.capacity := by
  have waits : (match sampleUnder 5 (World.create 100 false .zero () (some .info) : CommandWorld) with
      | .ok _ u => decide (0 < u.state.pending ∧ u.state.pending ≤ u.state.capacity)
      | .error _ _ => false) = true := by decide +kernel
  cases ran : sampleUnder 5 (World.create 100 false .zero () (some .info) : CommandWorld) with
  | error f u => simp [ran] at waits
  | ok _ u =>
    obtain ⟨table, begun⟩ := startSample_unnamed ran
    exact ⟨World.renamed table u, .begin begun, by simpa [ran] using! waits⟩

/-! ### Turns -/

/-- What has gone before the answer of `settle`. -/
theorem settle_ok (ran : settle o left v = .ok next u) :
    next = .finish ∨
      next = .again ∧ left ≠ none ∧ 0 < v.state.pending ∧
        u = ⟨v.state, v.journal.add (.stillPending v.state.pending)⟩ ∨
      next = .rest ∧ left ≠ none ∧ v.state.pending = 0 ∧ 0 < v.state.delayed := by
  rw [settle, Task.bind_apply, Task.view_apply] at ran
  dsimp only at ran
  split at ran
  · obtain ⟨rfl, -⟩ := EStateM.Result.ok.inj ran
    exact Or.inl rfl
  next answered =>
    have answered : left ≠ none := by simpa using answered
    split at ran
    next filled =>
      obtain ⟨rfl, rfl⟩ := EStateM.Result.ok.inj ran
      exact Or.inr (Or.inl ⟨rfl, answered, filled, rfl⟩)
    next empty =>
      rw [Task.bind_apply, Task.view_apply] at ran
      dsimp only at ran
      split at ran
      · obtain ⟨rfl, -⟩ := EStateM.Result.ok.inj ran
        exact Or.inl rfl
      next waiting =>
        obtain ⟨_, _, -, ran⟩ := Task.bind_eq_ok.mp ran
        obtain ⟨_, _, -, ran⟩ := Task.bind_eq_ok.mp ran
        obtain ⟨rfl, -⟩ := EStateM.Result.ok.inj ran
        exact Or.inr (Or.inr ⟨rfl, answered, by omega, by omega⟩)

/-- A turn without a budget that finds messages delivers none of them. -/
theorem turn_of_spent (spent : o.budget ≤ 0) (filled : 0 < s.state.pending)
    (fits : s.state.pending ≤ s.state.capacity) (host : Host L Empty γ) (clock : Nat → γ → Moment) :
    turn o host clock s = .ok .again ⟨s.state, s.journal.add (.stillPending s.state.pending)⟩ := by
  have none : o.budget.toNat = 0 := by omega
  have done : World.run host clock o.budget s = .ok (some 0) s := by
    rw [World.run_of_fits fits, none]
    rfl
  refine Task.bind_eq_ok.mpr ⟨_, _, done, ?_⟩
  rw [settle, Task.bind_apply, Task.view_apply]
  dsimp only [Option.isNone_some]
  rw [if_neg (by simp), if_pos filled]
  rfl

/-- The turn has delivered a message, or it has found none pending and is followed by a rest. -/
def Progresses (o : Options) (host : Host L Empty γ) (clock : Nat → γ → Moment) (s : Logged (World L Empty γ))
    (next : Next) (u : Logged (World L Empty γ)) : Prop :=
  s.state.delivered < u.state.delivered ∨
    next = .rest ∧ ∃ left v, World.run host clock o.budget s = .ok left v ∧ v.state.pending = 0

/-- What comes of a turn at `s` that leads to `u`. -/
structure Turned (o : Options) (host : Host L Empty γ) (clock : Nat → γ → Moment) (s : Logged (World L Empty γ))
    (next : Next) (u : Logged (World L Empty γ)) : Prop where
  /-- Messages are left, and the budget has been spent on others. -/
  again : next = .again → 0 < u.state.pending ∧ u.state.delivered = s.state.delivered + o.budget.toNat
  /-- No message is left, and a timer is waiting. -/
  rest : next = .rest → ∃ left v, World.run host clock o.budget s = .ok left v ∧ v.state.pending = 0 ∧
    0 < v.state.delayed
  progresses : next ≠ .finish → (Progresses o host clock s next u ↔ (next = .again → 0 < o.budget))
  /-- Without a budget the loop goes round and round a mailbox that holds any messages. -/
  spins : o.budget ≤ 0 → 0 < s.state.pending → s.state.pending ≤ s.state.capacity →
    next = .again ∧ u = ⟨s.state, s.journal.add (.stillPending s.state.pending)⟩

/-- What comes of the run that a turn begins with, if it does not end the loop. -/
theorem Reached.ran (reached : Reached o host s) (done : World.run host clock o.budget s = .ok left v)
    (answered : left ≠ none) : v.state.pending = v.state.mailbox.length ∧
      ∃ n more, Ran clock 0 o.budget.toNat s left v n more := by
  obtain ⟨_, traced, _, _, _, trace, dialog⟩ := reached.dialog
  obtain ⟨more, later⟩ := (run_continues dialog o.budget).of_ok done
  obtain ⟨b, settled⟩ := (later.course World.within_modest).careful
  have count : v.state.pending = v.state.mailbox.length := by
    have letters := congrArg List.length settled.kept.mailbox
    rw [List.length_map] at letters
    exact settled.kept.pending.trans letters.symm
  refine ⟨count, ?_⟩
  rcases Nat.lt_or_ge s.state.capacity s.state.pending with crammed | fits
  · rw [World.run_of_crammed crammed] at done
    obtain ⟨rfl, -⟩ := EStateM.Result.ok.inj done
    exact absurd rfl answered
  · rw [World.run_of_fits fits] at done
    have afloat := (dialog.course World.within_modest).trail.afloat (Heap.moored_empty traced)
    exact World.runFrom_ran (fun name => nomatch name) afloat fits done

/-- A turn that is followed by another one at once has delivered as many messages as its budget allows; one
that is followed by a rest has left none pending. -/
theorem Reached.makes_progress (reached : Reached o host s) (ran : turn o host clock s = .ok next u) :
    Turned o host clock s next u := by
  obtain ⟨left, v, done, settled⟩ := Task.bind_eq_ok.mp ran
  have again : next = .again → 0 < u.state.pending ∧ u.state.delivered = s.state.delivered + o.budget.toNat := by
    rintro rfl
    obtain ends | ⟨-, answered, filled, rfl⟩ | ⟨rests, -⟩ := settle_ok settled
    · cases ends
    · obtain ⟨count, n, more, ran⟩ := reached.ran done answered
      obtain ⟨rest, rfl⟩ := Option.ne_none_iff_exists'.mp answered
      -- budget that is left over would have emptied the mailbox
      have spent : rest = 0 := by
        by_contra some
        rw [count, ran.drained rest rfl (by omega)] at filled
        cases filled
      obtain ⟨all, -⟩ := ran.spent rest rfl
      exact ⟨filled, by rw [ran.delivered, all, spent, Nat.sub_zero]⟩
    · cases rests
  have rest : next = .rest → ∃ left v, World.run host clock o.budget s = .ok left v ∧ v.state.pending = 0 ∧
      0 < v.state.delayed := by
    rintro rfl
    obtain ends | ⟨again, -⟩ | ⟨-, -, empty, waiting⟩ := settle_ok settled
    · cases ends
    · cases again
    · exact ⟨left, v, done, empty, waiting⟩
  refine { again, rest, progresses := fun goes => ?_, spins := fun spent filled fits => ?_ }
  · cases next with
    | finish => exact absurd rfl goes
    | rest =>
      obtain ⟨left, v, done, empty, -⟩ := rest rfl
      exact ⟨fun _ other => (by cases other), fun _ => Or.inr ⟨rfl, left, v, done, empty⟩⟩
    | again =>
      have delivered := (again rfl).2
      simp only [Progresses, reduceCtorEq, false_and, or_false, true_imp_iff]
      omega
  · rw [turn_of_spent spent filled fits] at ran
    obtain ⟨rfl, rfl⟩ := EStateM.Result.ok.inj ran
    exact ⟨rfl, rfl⟩

/-- A loop that has begun and goes on without a budget. -/
theorem turned_without_budget : ∃ s u : CommandWorld, Reached sampleWithoutBudget noHost s ∧
    turn sampleWithoutBudget noHost (fun _ _ => .zero) s = .ok .again u ∧
    Turned sampleWithoutBudget noHost (fun _ _ => .zero) s .again u := by
  obtain ⟨s, reached, filled, fits⟩ := sample_reached
  have ran := turn_of_spent (o := sampleWithoutBudget) (by decide) filled fits noHost fun _ _ => .zero
  exact ⟨s, _, reached, ran, reached.makes_progress ran⟩

/-- The loop that the arguments `-s -b 0` ask for goes on without a delivery while messages are pending. -/
theorem turn_spins : Options.read {} ["-s", "-b", "0"] = .run sampleWithoutBudget ∧
    ∃ s u : CommandWorld, Reached sampleWithoutBudget noHost s ∧
      turn sampleWithoutBudget noHost (fun _ _ => .zero) s = .ok .again u ∧
      ¬Progresses sampleWithoutBudget noHost (fun _ _ => .zero) s .again u := by
  obtain ⟨s, reached, filled, fits⟩ := sample_reached
  have ran := turn_of_spent (o := sampleWithoutBudget) (by decide) filled fits noHost fun _ _ => .zero
  exact ⟨by decide +kernel, s, _, reached, ran, by simp [Progresses]⟩

end Command

end Treadmill

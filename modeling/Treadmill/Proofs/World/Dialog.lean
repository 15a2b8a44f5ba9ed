import Mathlib
import Treadmill.Proofs.World.Execution
import Treadmill.Proofs.World.Handling

/-!
Dialogs with a world. Besides single moves its user asks for what the world does in one go: to make an actor,
to give the actor of a delivery another behavior, to collect, to begin a collection (`Service`). Each of them
comes to a few calls (`Service.plan_task`). So a dialog is a course, whatever the manner in which the world
is used (`Dialog.course`), and a run is part of a dialog.
-/

namespace Treadmill.World
variable {L : Layout} {α γ : Type} {start p q : Point L α γ} {trace : List (Moved L α γ)} {known : List (Ref L)}
  {s : Logged (World L α γ)} {r v : Ref L} {b : Behavior α} {state : Ref L}

/-! ### Plans -/

/-- Calls that are made one after another until one fails, each with the answers to those before it. -/
inductive Plan (L : Layout) (α γ : Type)
  | done (answer : Option (Ref L))
  | call (c : Call L α γ) (next : Option (Ref L) → Plan L α γ)

namespace Plan
variable [DecidableEq α]

def task : Plan L α γ → WorldTask L α γ (Option (Ref L))
  | done answer => return answer
  | call c next => do (next (← c.task)).task

/-- The moves that a plan comes to at `p`. -/
def moves : Plan L α γ → Point L α γ → List (Moved L α γ)
  | done _, _ => []
  | call c next, p =>
    p.moved (.call c) :: match (p.moved (.call c)).outcome with
      | .ok answer => (next answer).moves (p.after (.call c))
      | .error _ => []

end Plan

/-! ### Services -/

/-- What a world does for its user in one go. -/
inductive Service (L : Layout) (α : Type)
  | createActor (b : Behavior α) (state : Ref L)
  | becomeActor (actor : Ref L) (b : Behavior α) (state : Ref L)
  | forceCollect
  | startCollect

namespace Service

def operands : Service L α → List (Ref L)
  | createActor _ state => [state]
  | becomeActor actor _ state => [actor, state]
  | forceCollect | startCollect => []

/-- The behavior of a delivery may turn its own actor into another one. Between deliveries the world may be
asked to collect. -/
def Fits : Service L α → Point L α γ → Prop
  | createActor .., _ => True
  | becomeActor actor .., p => ∃ d, p.opened = some d ∧ d.delivery.this = actor
  | forceCollect, p | startCollect, p => p.opened = none

section
variable [DecidableEq α]

def task : Service L α → WorldTask L α γ (Option (Ref L))
  | createActor b state => do return some (← World.createActor b state)
  | becomeActor actor b state => do World.becomeActor actor b state; return none
  | forceCollect => do World.forceCollect; return none
  | startCollect => do let _ ← World.startCollect; return none

omit [DecidableEq α] in
/-- What a collection has to keep, if that is found. -/
def found (s : Logged (World L α γ)) : List (Ref L) := (outcomeOf (gatherRoots s)).toOption.getD []

/-- The calls that a service comes to at `p`. -/
def plan : Service L α → Point L α γ → Plan L α γ
  | createActor b state, _ =>
    .call (.function b) fun f => .call (.heap (.act (.actorCell (f.getD .nil) state))) .done
  | becomeActor actor b state, _ =>
    .call (.function b) fun f => .call (.heap (.act (.setActor actor (f.getD .nil) state))) .done
  | forceCollect, p => .call .gatherRoots fun _ => .call (.heap (.fullCollect (found p.logged))) .done
  | startCollect, p =>
    .call .gatherRoots fun _ =>
      if p.logged.state.heap.collecting then
        .call (.aside p.world.symbols p.world.guest (p.logged.journal.add .cycleRefused)) .done
      else
        .call (.heap (.beginCollect (found p.logged))) fun _ =>
          .call (.function .trace) fun f =>
            .call (.heap (.act (.actorCell (f.getD .nil) .nil))) fun a =>
              .call (.send (a.getD .nil) .nil) .done

omit [DecidableEq α] in
theorem found_eq {roots : List (Ref L)} (gathered : gatherRoots s = .ok roots s) : found s = roots := by
  rw [found, gathered]
  rfl

/-- A service does what its calls do. -/
theorem plan_task (o : Service L α) {roots : List (Ref L)} (gathered : gatherRoots p.logged = .ok roots p.logged) :
    (o.plan p).task p.logged = o.task p.logged := by
  cases o with
  | createActor b state =>
    simp only [plan, Plan.task, Call.task, Op.task, Act.task, task, World.createActor, onHeap_bind, bind_assoc,
      pure_bind, Option.getD_some]
    rfl
  | becomeActor actor b state =>
    simp only [plan, Plan.task, Call.task, Op.task, Act.task, task, World.becomeActor, onHeap_bind, bind_assoc,
      pure_bind, Option.getD_some]
    rfl
  | forceCollect =>
    simp only [plan, Plan.task, Call.task, Op.task, task, World.forceCollect, onHeap_bind, bind_assoc, pure_bind]
    rw [Task.bind_of_ok gathered, Task.bind_of_ok gathered, found_eq gathered]
    rfl
  | startCollect =>
    simp only [plan, Plan.task, Call.task, task, World.startCollect, startCollectFrom, bind_assoc, pure_bind]
    rw [Task.bind_of_ok gathered, Task.bind_of_ok gathered, found_eq gathered,
      Task.bind_apply (Task.view fun w : World L α γ => w.heap.collecting), Task.view_apply]
    cases collecting : p.logged.state.heap.collecting with
    | true => rfl
    | false =>
      simp only [Bool.false_eq_true, if_false, Plan.task, Call.task, Op.task, Act.task, World.createActor,
        onHeap_bind, bind_assoc, pure_bind, Option.getD_some]
      rfl

end

end Service

/-! ### Dialogs -/

/-- Whether a user may make the move by itself: it makes no permanent cell and begins no collection. -/
def Move.isFree : Move L α γ → Bool
  | call (.heap (.act a)) => !a.lasting
  | call (.heap .age) | call (.heap (.beginCollect _)) | call (.heap (.fullCollect _)) => false
  | call (.heap .traceStep) | call (.heap .sweep) | call _ | opens | closes | drops => true

/-- Whether a move makes an actor or writes one. -/
def Move.formsActor : Move L α γ → Bool
  | call (.heap (.act (.actorCell ..))) | call (.heap (.act (.setActor ..))) => true
  | _ => false

/-- How a world is used: with which references, and whether actors are made and written by single moves too. -/
structure Manner (L : Layout) (α γ : Type) where
  uses : List (Moved L α γ) → Point L α γ → Ref L → Prop
  formsActors : Bool

/-- The moves that are made in this manner. -/
def Manner.makes (manner : Manner L α γ) (m : Move L α γ) : Bool :=
  m.isFree && (manner.formsActors || !m.formsActor)

section
variable [DecidableEq α]

/-- Where a service leads. -/
def Point.served (p : Point L α γ) (o : Service L α) : Point L α γ := ⟨stateAfter (o.task p.logged), p.opened⟩

@[simp] theorem opened_served (p : Point L α γ) (o : Service L α) : (p.served o).opened = p.opened := rfl

@[simp] theorem opened_call (p : Point L α γ) (c : Call L α γ) : (p.after (.call c)).opened = p.opened := rfl

/-- What is asked of a world in this manner from `start` on, in any order: moves, and services with the moves
that they come to. A dialog ends when the arena is exhausted. -/
inductive Dialog (manner : Manner L α γ) (start : Point L α γ) : List (Moved L α γ) → Point L α γ → Prop
  | start : Dialog manner start [] start
  | move {trace : List (Moved L α γ)} {p : Point L α γ} (dialog : Dialog manner start trace p)
      (m : Move L α γ) (fits : m.Fits p) (makes : manner.makes m = true) (given : ∀ v ∈ m.given, manner.uses trace p v)
      (enough : (p.moved m).outcome ≠ .error .arenaExhausted) :
      Dialog manner start (trace ++ [p.moved m]) (p.after m)
  | serve {trace : List (Moved L α γ)} {p : Point L α γ} (dialog : Dialog manner start trace p)
      (o : Service L α) (fits : o.Fits p) (given : ∀ v ∈ o.operands, manner.uses trace p v)
      (enough : outcomeOf (o.task p.logged) ≠ .error .arenaExhausted) :
      Dialog manner start (trace ++ (o.plan p).moves p) (p.served o)

variable {manner : Manner L α γ} {allows : List (Moved L α γ) → Point L α γ → Move L α γ → Prop} {plan : Plan L α γ}
  {c : Call L α γ} {next : Option (Ref L) → Plan L α γ} {answer : Option (Ref L)} {host : Host L α γ}
  {m : Move L α γ}

/-- What a run does of itself is part of a dialog. -/
theorem Dialog.runs : Runs (Dialog manner start) := by
  intro trace p m dialog own fits enough
  refine dialog.move m fits ?_ ?_ enough
  · cases m with
    | call c =>
      cases c with
      | aside | tick => simp [Manner.makes, Move.isFree, Move.formsActor]
      | heap | function | send | sendAfter | addRoot | gatherRoots => cases own
    | opens | closes | drops => simp [Manner.makes, Move.isFree, Move.formsActor]
  · cases m with
    | call c =>
      cases c with
      | aside | tick => simp [Move.given, Call.operands]
      | heap | function | send | sendAfter | addRoot | gatherRoots => cases own
    | opens | closes | drops => simp [Move.given]

/-! ### Dialogs along courses -/

/-- Whether a call leaves in use what is in use. -/
def Call.isCalm : Call L α γ → Bool
  | heap (.act _) | function _ | send .. | sendAfter .. | aside .. => true
  | heap .age | heap (.beginCollect _) | heap .traceStep | heap .sweep | heap (.fullCollect _)
  | addRoot _ | gatherRoots | tick _ => false

/-- What is done in this manner is allowed along a course. -/
structure Manner.Within (manner : Manner L α γ) (allows : List (Moved L α γ) → Point L α γ → Move L α γ → Prop)
    (start : Point L α γ) : Prop where
  blank : ∀ {trace p v}, Course allows start trace p → v.target? = none → manner.uses trace p v
  /-- What a collection has to keep may be used. -/
  gathers : ∀ {trace p}, Course allows start trace p → ∃ roots, gatherRoots p.logged = .ok roots p.logged ∧
    (∀ d, p.opened = some d → ∀ v ∈ Actor.given d.delivery, v ∈ roots) ∧ ∀ v ∈ roots, manner.uses trace p v
  keeps : ∀ {trace p c answer s v}, Course allows start trace p → Move.Fits (.call c) p → allows trace p (.call c) →
    c.isCalm = true → c.task p.logged = .ok answer s → manner.uses trace p v →
    manner.uses (trace ++ [p.moved (.call c)]) ⟨s, p.opened⟩ v
  answers : ∀ {trace p c r s}, Course allows start trace p → Move.Fits (.call c) p → allows trace p (.call c) →
    c.task p.logged = .ok (some r) s → manner.uses (trace ++ [p.moved (.call c)]) ⟨s, p.opened⟩ r
  move : ∀ {trace p m}, Course allows start trace p → m.Fits p → manner.makes m = true →
    (∀ v ∈ m.given, manner.uses trace p v) → allows trace p m
  collects : ∀ {trace p roots op}, Course allows start trace p → p.opened = none →
    gatherRoots p.logged = .ok roots p.logged → op = .beginCollect roots ∨ op = .fullCollect roots →
    allows trace p (.call (.heap op))
  /-- An actor is made, or the actor of a delivery is written, with a function reference that was answered. -/
  forms : ∀ {trace p b f s act}, Course allows start trace p → World.function b p.logged = .ok f s →
    (∀ v ∈ act.operands, manner.uses (trace ++ [p.moved (.call (.function b))]) ⟨s, p.opened⟩ v) →
    ((∃ st, act = .actorCell f st) ∨ ∃ d st, p.opened = some d ∧ act = .setActor d.delivery.this f st) →
    allows (trace ++ [p.moved (.call (.function b))]) ⟨s, p.opened⟩ (.call (.heap (.act act)))

/-- Where a trace has led, with these references at hand. -/
structure Manner.At (manner : Manner L α γ) (allows : List (Moved L α γ) → Point L α γ → Move L α γ → Prop)
    (start : Point L α γ) (known : List (Ref L)) (trace : List (Moved L α γ)) (p : Point L α γ) : Prop where
  course : Course allows start trace p
  used : ∀ v ∈ known, manner.uses trace p v

/-- A plan goes on along a course, and leaves at hand what was so. -/
def Plan.Leads (manner : Manner L α γ) (allows : List (Moved L α γ) → Point L α γ → Move L α γ → Prop)
    (start : Point L α γ) (known : List (Ref L)) (trace : List (Moved L α γ)) (p : Point L α γ) (plan : Plan L α γ) :
    Prop :=
  match plan.task p.logged with
  | .ok answer s => manner.At allows start (answer.toList ++ known) (trace ++ plan.moves p) ⟨s, p.opened⟩
  | .error f s => f = .arenaExhausted ∨ Course allows start (trace ++ plan.moves p) ⟨s, p.opened⟩

theorem Manner.At.done (at_ : manner.At allows start known trace p) (used : ∀ v ∈ answer, manner.uses trace p v) :
    Plan.Leads manner allows start known trace p (.done answer) := by
  refine ⟨by simpa [Plan.moves] using at_.course, fun v on => ?_⟩
  rw [Plan.moves, List.append_nil]
  rcases List.mem_append.mp on with new | old
  · exact used v (by simpa using new)
  · exact at_.used v old

theorem Plan.leads_call (course : Course allows start trace p) (fits : Move.Fits (.call c) p)
    (allowed : allows trace p (.call c))
    (rest : ∀ answer s, c.task p.logged = .ok answer s →
      Course allows start (trace ++ [p.moved (.call c)]) ⟨s, p.opened⟩ →
      Leads manner allows start known (trace ++ [p.moved (.call c)]) ⟨s, p.opened⟩ (next answer)) :
    Leads manner allows start known trace p (.call c next) := by
  have along := course.move (.call c) fits allowed
  unfold Leads
  rw [task, Task.bind_apply, moves]
  simp only [Point.moved, Point.after, Move.next] at along rest ⊢
  cases ran : c.task p.logged with
  | error f s =>
    simp only [ran, outcomeOf, stateAfter] at along ⊢
    exact or_iff_not_imp_left.mpr fun enough => along fun same => enough (Except.error.inj same)
  | ok answer s =>
    simp only [ran, outcomeOf, stateAfter] at along rest ⊢
    have led := rest answer s rfl (along (by simp))
    unfold Leads at led
    dsimp only at led ⊢
    cases ran' : (next answer).task s with
    | error f u =>
      rw [ran'] at led
      simpa using led
    | ok a u =>
      rw [ran'] at led
      simpa using led

theorem Plan.Leads.mono {more : List (Ref L)} (leads : Leads manner allows start more trace p plan)
    (less : known ⊆ more) : Leads manner allows start known trace p plan := by
  unfold Leads at leads ⊢
  cases ran : plan.task p.logged with
  | error f s => rwa [ran] at leads
  | ok answer s =>
    rw [ran] at leads
    refine ⟨leads.course, fun v on => leads.used v ?_⟩
    rcases List.mem_append.mp on with new | old
    · exact List.mem_append_left _ new
    · exact List.mem_append_right _ (less old)

namespace Manner.Within
variable (within : manner.Within allows start)
include within

/-- A call that leaves in use what is so. -/
theorem call {more : List (Ref L)} (at_ : manner.At allows start more trace p) (calm : c.isCalm = true)
    (fits : Move.Fits (.call c) p) (allowed : allows trace p (.call c))
    (rest : ∀ answer s, c.task p.logged = .ok answer s →
      manner.At allows start (answer.toList ++ more) (trace ++ [p.moved (.call c)]) ⟨s, p.opened⟩ →
      Plan.Leads manner allows start known (trace ++ [p.moved (.call c)]) ⟨s, p.opened⟩ (next answer)) :
    Plan.Leads manner allows start known trace p (.call c next) :=
  Plan.leads_call at_.course fits allowed fun answer s ran course => rest answer s ran ⟨course, fun v on => by
    rcases List.mem_append.mp on with new | old
    · obtain rfl : answer = some v := by simpa using new
      exact within.answers at_.course fits allowed ran
    · exact within.keeps at_.course fits allowed calm ran (at_.used v old)⟩

/-- A function reference, and what makes or writes an actor with it. -/
theorem formed (act : Ref L → Act L) (at_ : manner.At allows start known trace p)
    (operands : ∀ f, ∀ v ∈ (act f).operands, v = f ∨ v ∈ known ∨ v.target? = none)
    (shape : ∀ f, (∃ st, act f = .actorCell f st) ∨ ∃ d st, p.opened = some d ∧ act f = .setActor d.delivery.this f st)
    (rest : ∀ answer s trace, manner.At allows start (answer.toList ++ known) trace ⟨s, p.opened⟩ →
      Plan.Leads manner allows start known trace ⟨s, p.opened⟩ (next answer)) :
    Plan.Leads manner allows start known trace p
      (.call (.function b) fun f => .call (.heap (.act (act (f.getD .nil)))) next) := by
  refine within.call at_ rfl (fun outer => by cases outer)
    (within.move at_.course (fun outer => by cases outer) (by simp [makes, Move.isFree, Move.formsActor])
      (by simp [Move.given, Call.operands])) fun answer s ran later => ?_
  obtain ⟨f, u, answered, same⟩ := Task.bind_eq_ok.mp ran
  obtain ⟨rfl, rfl⟩ : some f = answer ∧ u = s := by simpa using same
  have used : ∀ v ∈ (act f).operands,
      manner.uses (trace ++ [p.moved (.call (.function b))]) ⟨u, p.opened⟩ v := fun v on => by
    rcases operands f v on with rfl | known | none
    · exact later.used v (by simp)
    · exact later.used v (by simp [known])
    · exact within.blank later.course none
  refine within.call later rfl (fun outer => by cases outer) (within.forms at_.course answered used (shape f))
    fun answer s ran ends => rest answer s _ ⟨ends.course, fun v on => ends.used v ?_⟩
  rcases List.mem_append.mp on with new | old
  · exact List.mem_append_left _ new
  · simp [old]

theorem creates (at_ : manner.At allows start known trace p) (used : manner.uses trace p state) :
    Plan.Leads manner allows start known trace p ((Service.createActor b state).plan p) := by
  have more : manner.At allows start (state :: known) trace p :=
    ⟨at_.course, List.forall_mem_cons.mpr ⟨used, at_.used⟩⟩
  refine Plan.Leads.mono (within.formed (.actorCell · state) more (fun f v on => ?_)
    (fun f => Or.inl ⟨state, rfl⟩) fun answer s trace ends => ?_) (List.subset_cons_self _ _)
  · simpa [Act.operands, or_assoc] using Or.inl (List.mem_pair.mp on)
  · refine Manner.At.done ⟨ends.course, fun v on => ends.used v (by simp [on])⟩ fun v on => ends.used v ?_
    simpa using Or.inl on

theorem becomes {d : Opened L α} (at_ : manner.At allows start known trace p) (opened : p.opened = some d)
    (self : manner.uses trace p d.delivery.this) (used : manner.uses trace p state) :
    Plan.Leads manner allows start known trace p ((Service.becomeActor d.delivery.this b state).plan p) := by
  have more : manner.At allows start (d.delivery.this :: state :: known) trace p :=
    ⟨at_.course, List.forall_mem_cons.mpr ⟨self, List.forall_mem_cons.mpr ⟨used, at_.used⟩⟩⟩
  refine Plan.Leads.mono (within.formed (.setActor d.delivery.this · state) more (fun f v on => ?_)
    (fun f => Or.inr ⟨d, state, opened, rfl⟩) fun answer s trace ends => ?_) (by simp)
  · simp only [Act.operands, List.mem_cons, List.not_mem_nil, or_false] at on
    rcases on with rfl | rfl | rfl <;> simp
  · refine Manner.At.done ⟨ends.course, fun v on => ends.used v (by simp [on])⟩ fun v on => ends.used v ?_
    simpa using Or.inl on

/-- The roots are found before anything is collected. -/
theorem gathered (course : Course allows start trace p) (idle : p.opened = none)
    (rest : ∀ roots trace, gatherRoots p.logged = .ok roots p.logged → Course allows start trace p →
      Plan.Leads manner allows start [] trace p (next none)) :
    Plan.Leads manner allows start [] trace p (.call .gatherRoots next) := by
  obtain ⟨roots, found, -⟩ := within.gathers course
  have allowed := within.move (m := .call .gatherRoots) course (fun _ => idle)
    (by simp [makes, Move.isFree, Move.formsActor]) (by simp [Move.given, Call.operands])
  refine Plan.leads_call course (fun _ => idle) allowed fun answer s ran later => ?_
  obtain ⟨_, u, answered, same⟩ := Task.bind_eq_ok.mp ran
  rw [found] at answered
  obtain ⟨rfl, rfl⟩ : none = answer ∧ u = s := by simpa using same
  obtain rfl : p.logged = u := (EStateM.Result.ok.inj answered).2
  exact rest roots _ found later

theorem last (course : Course allows start trace p) (fits : Move.Fits (.call c) p)
    (allowed : allows trace p (.call c)) : Plan.Leads manner allows start [] trace p (.call c .done) :=
  Plan.leads_call course fits allowed fun answer s ran later => .done ⟨later, by simp⟩ fun v on => by
    obtain rfl : answer = some v := on
    exact within.answers course fits allowed ran

/-- What a service comes to goes on along a course. -/
theorem serves (course : Course allows start trace p) {o : Service L α} (fits : o.Fits p)
    (given : ∀ v ∈ o.operands, manner.uses trace p v) : Plan.Leads manner allows start [] trace p (o.plan p) := by
  have at_ : manner.At allows start [] trace p := ⟨course, by simp⟩
  cases o with
  | createActor b state => exact within.creates at_ (given state (by simp [Service.operands]))
  | becomeActor actor b state =>
    obtain ⟨d, opened, rfl⟩ := fits
    exact within.becomes at_ opened (given _ (by simp [Service.operands])) (given _ (by simp [Service.operands]))
  | forceCollect =>
    refine within.gathered course fits fun roots trace found course => ?_
    rw [Service.found_eq found]
    exact within.last course (fun outer => by cases outer) (within.collects course fits found (Or.inr rfl))
  | startCollect =>
    refine within.gathered course fits fun roots trace found course => ?_
    rw [Service.found_eq found]
    split
    · exact within.last course (fun outer => by cases outer) (within.move course (fun outer => by cases outer)
        (by simp [makes, Move.isFree, Move.formsActor]) (by simp [Move.given, Call.operands]))
    · refine Plan.leads_call course (fun outer => by cases outer) (within.collects course fits found (Or.inl rfl))
        fun answer s ran course => ?_
      refine within.formed (.actorCell · .nil) ⟨course, by simp⟩ (fun f v on => ?_)
        (fun f => Or.inl ⟨.nil, rfl⟩) fun a u trace later => ?_
      · rcases List.mem_pair.mp on with rfl | rfl
        · exact Or.inl rfl
        · exact Or.inr (Or.inr Ref.target?_nil)
      · refine within.last later.course (fun outer => by cases outer) (within.move later.course
          (fun outer => by cases outer) (by simp [makes, Move.isFree, Move.formsActor]) fun v on => ?_)
        rcases List.mem_pair.mp on with rfl | rfl
        · cases a with
          | none => exact within.blank later.course Ref.target?_nil
          | some r => exact later.used r (by simp)
        · exact within.blank later.course Ref.target?_nil

end Manner.Within

/-- A dialog is a course with the same trace. -/
theorem Dialog.course (within : manner.Within allows start) (dialog : Dialog manner start trace p) :
    Course allows start trace p := by
  induction dialog with
  | start => exact .start
  | move dialog m fits makes given enough ih => exact ih.move m fits (within.move ih fits makes given) enough
  | @serve trace p dialog o fits given enough ih =>
    obtain ⟨roots, found, -⟩ := within.gathers ih
    have leads := within.serves ih fits given
    unfold Plan.Leads at leads
    unfold Point.served
    rw [Service.plan_task o found] at leads
    cases ran : o.task p.logged with
    | ok answer s =>
      rw [ran] at leads
      exact leads.course
    | error f s =>
      rw [ran] at leads enough
      exact leads.resolve_left fun exhausted => enough (congrArg _ exhausted)

end

end Treadmill.World

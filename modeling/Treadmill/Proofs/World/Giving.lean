import Mathlib
import Treadmill.Proofs.World.Conduct
import Treadmill.Proofs.World.Eager
import Treadmill.Proofs.World.Isolation

/-!
Dialogs of a fair user. It works with the references that it was answered, and asks for the actors that it
wants and for their behaviors (`fair`). Such a dialog is a fair course, so actors are kept apart in it; and
what is known of an actor is the behavior that was last asked for (`Dialog.isolated`).
-/

namespace Treadmill
variable {L : Layout} {α γ : Type}

/-! ### Entries -/

namespace Lore
variable {l : Lore L α} {d : Deed L} {k : Heap L} {e : Issue L α} {n : Nat} {r : Ref L}
  {given : Option (Behavior α)}

/-- The entry `e` has kept its place, and its behavior unless its cell was swept. -/
def Recalls (l : Lore L α) (n : Nat) (e : Issue L α) : Prop :=
  ∃ e', l.issues[n]? = some e' ∧ e'.ref = e.ref ∧ e'.asActor = e.asActor ∧
    (e'.swept = false → e.swept = false ∧ e'.given = e.given)

theorem gives_other (other : ∀ f st, d.op ≠ .act (.setActor r f st)) : l.gives r d given = given := by
  unfold gives
  split
  · refine if_neg ?_
    rintro rfl
    exact other _ _ rfl
  · rfl

theorem Recalls.record (recalls : l.Recalls n e) (other : ∀ f st, d.op ≠ .act (.setActor e.ref f st)) :
    (l.record d k).Recalls n e := by
  obtain ⟨e', here, ref, asActor, still⟩ := recalls
  obtain ⟨inside, same⟩ := List.getElem?_eq_some_iff.mp here
  refine ⟨l.update d k e', ?_, by simpa, by simpa, fun unswept => ?_⟩
  · simp [Lore.record, List.getElem?_append_left, inside, same]
  · have before := (update_unswept.mp unswept).1
    obtain ⟨first, same⟩ := still before
    rw [given_update before, ref, gives_other other]
    exact ⟨first, same⟩

end Lore

namespace World
variable [DecidableEq α] {allows : List (Moved L α γ) → Point L α γ → Move L α γ → Prop} {start p q : Point L α γ}
  {trace more : List (Moved L α γ)} {m : Move L α γ} {c : Call L α γ} {l : Lore L α} {now : Moment} {capacity : Nat}
  {traced : Bool} {guest : γ} {journal : Journal} {d : Opened L α} {e : Issue L α} {n : Nat} {v f a r state : Ref L}
  {b : Behavior α} {s u : Logged (World L α γ)} {answer : Option (Ref L)} {o : Service L α}

theorem Course.recalls_after (course : Course allows start trace p) (recalls : (loreOf start trace).Recalls n e)
    (other : ∀ f st, m ≠ .call (.heap (.act (.setActor e.ref f st)))) :
    (loreOf start (trace ++ [p.moved m])).Recalls n e := by
  rw [course.lore]
  by_cases isHeap : ∃ op, m = .call (.heap op)
  · obtain ⟨op, rfl⟩ := isHeap
    exact recalls.record fun f st same => other f st (congrArg _ (congrArg _ same))
  · unfold Lore.Recalls
    rw [Lore.after_other _ _ _ fun op same => isHeap ⟨op, same⟩]
    exact recalls

/-- Moves that do not write the actor leave its entry as it is. -/
theorem Course.recalls (later : Course allows start (trace ++ more) q)
    (here : (loreOf start trace).issues[n]? = some e)
    (other : ∀ x ∈ more, ∀ f st, x.move ≠ .call (.heap (.act (.setActor e.ref f st)))) :
    (loreOf start (trace ++ more)).Recalls n e := by
  induction more using List.reverseRecOn generalizing q with
  | nil =>
    rw [List.append_nil]
    exact ⟨e, here, rfl, rfl, fun unswept => ⟨unswept, rfl⟩⟩
  | append_singleton more x ih =>
    rw [← List.append_assoc] at later ⊢
    obtain ⟨p', m, course, -, -, -, rfl, -⟩ := later.of_concat
    exact course.recalls_after (ih course fun y on => other y (by simp [on])) (other (p'.moved m) (by simp))

/-! ### What is asked for -/

/-- What holds of every call that a plan may come to. -/
def Plan.All (P : Call L α γ → Prop) : Plan L α γ → Prop
  | done _ => True
  | call c next => P c ∧ ∀ answer, (next answer).All P

theorem Plan.All.moves {P : Call L α γ → Prop} {plan : Plan L α γ} (all : plan.All P) :
    ∀ x ∈ plan.moves p, ∃ c, x.move = .call c ∧ P c := by
  induction plan generalizing p with
  | done => simp [Plan.moves]
  | call c next ih =>
    intro x on
    rw [Plan.moves] at on
    rcases List.mem_cons.mp on with rfl | on
    · exact ⟨c, rfl, all.1⟩
    · split at on
      · exact ih _ (all.2 _) x on
      · cases on

omit [DecidableEq α] in
/-- Only what is asked to turn the actor into another one writes it. -/
theorem Service.plan_writes (other : ∀ b st, o ≠ .becomeActor a b st) :
    (o.plan p).All fun c => ∀ f st, c ≠ .heap (.act (.setActor a f st)) := by
  cases o with
  | createActor | forceCollect => simp [plan, Plan.All]
  | becomeActor actor b st =>
    have different : actor ≠ a := fun same => other b st (same ▸ rfl)
    simp [plan, Plan.All, different]
  | startCollect =>
    refine ⟨by simp, fun _ => ?_⟩
    split <;> simp [Plan.All]

/-- What is known once the service has gone through. -/
def Service.Gives (o : Service L α) (answer : Option (Ref L)) (l : Lore L α) : Prop :=
  match o with
  | createActor b _ => ∃ r, answer = some r ∧ Lore.Gives l r b
  | becomeActor actor b _ => Lore.Gives l actor b
  | forceCollect | startCollect => True

theorem Plan.moves_of_ok {next : Option (Ref L) → Plan L α γ} (ran : c.task p.logged = .ok answer s) :
    (Plan.call c next).moves p = p.moved (.call c) :: (next answer).moves ⟨s, p.opened⟩ := by
  simp [Plan.moves, Point.moved, Point.after, Move.next, ran, outcomeOf, stateAfter]

theorem Course.lore_of_ok (course : Course allows start trace p) (ran : c.task p.logged = .ok answer s) :
    loreOf start (trace ++ [p.moved (.call c)]) =
      (loreOf start trace).after s.state.heap ⟨.call c, .ok answer⟩ := by
  rw [course.lore]
  simp [Point.moved, Point.after, Point.world, Move.next, ran, outcomeOf, stateAfter]

theorem Call.function_of_ok (ran : World.function b s = .ok f u) :
    (Call.function b : Call L α γ).task s = .ok (some f) u :=
  Task.bind_eq_ok.mpr ⟨f, u, ran, rfl⟩

/-- A function reference is known with its behavior. -/
theorem Course.lore_of_function (course : Course allows start trace p) (ran : World.function b p.logged = .ok f s) :
    loreOf start (trace ++ [p.moved (.call (.function b))]) =
      { loreOf start trace with names := (f, b) :: (loreOf start trace).names } := by
  rw [course.lore_of_ok (Call.function_of_ok ran)]
  rfl

/-! ### Fair dialogs -/

/-- Every reference used names no cell or was answered, and actors are made and written by services only. -/
def fair (start : Point L α γ) : Manner L α γ := ⟨fun trace _ v => (loreOf start trace).Allows v, false⟩

/-- What may be used before a calm call may be used after it. -/
theorem Aware.keeps (aware : Aware now start trace p) (course : Course allows start trace p)
    (fair : Fair start trace p (.call c)) (calm : c.isCalm = true) (allowed : (loreOf start trace).Allows v) :
    (loreOf start (trace ++ [p.moved (.call c)])).Allows v := by
  refine Or.imp_right (fun live => ?_) allowed
  by_cases isHeap : ∃ op, c = .heap op
  · obtain ⟨op, rfl⟩ := isHeap
    obtain ⟨b, settled⟩ := aware.settled
    have kin := settled.kept.stock.stands.2
    have sound := settled.kept.stock.sound
    cases op with
    | act a =>
      have plain : ∀ v ∈ (Op.act a).operands, p.world.heap.Plain v := fun v on =>
        (fair.allowed v on).elim Heap.plain_of_target? (kin.refs v)
      have step := (Op.act a).step (s := ⟨p.world.heap, p.logged.journal⟩) sound fun v on => (plain v on).holds
      rw [course.lore, Lore.after_heap]
      refine Lore.mem_live_record.mpr (Or.inl ⟨live, fun i target => (step.sound sound).not_free ?_⟩)
      have on := kin.refs v live i target
      generalize (stateAfter ((Op.act a).task ⟨p.world.heap, p.logged.journal⟩)).state = k at step ⊢
      generalize outcomeOf ((Op.act a).task ⟨p.world.heap, p.logged.journal⟩) = o at step
      cases step with
      | refused => exact on
      | acted effect => exact (effect.collectable i).mpr (Or.inl on)
    | age | beginCollect | traceStep | sweep | fullCollect => cases calm
  · rw [course.lore, Lore.live, Lore.after_other _ _ _ fun op same => isHeap ⟨op, Move.call.inj same⟩]
    exact live

theorem within_fair (isNew : start = Point.new capacity traced now guest journal) :
    (fair start).Within (Fair start) start where
  blank _ none := Or.inl none
  gathers course := by
    obtain ⟨b, settled⟩ := (course.aware isNew).settled
    obtain ⟨delivering, gathered, told, listed, -⟩ := settled.gathered (s := _)
    exact ⟨_, gathered, fun d opened v on => by simpa [told d opened, Actor.given] using Or.inr on,
      fun v on => (settled.kept.stock.kept v (listed v on)).2⟩
  keeps course _ fair calm _ used := (course.aware isNew).keeps course fair calm used
  answers course fits fair ran := by
    refine (course.aware isNew).answers course fits fair ?_
    simp [Point.moved, Move.next, ran, outcomeOf]
  move course fits makes given := by
    obtain ⟨free, bare⟩ : _ ∧ Move.formsActor _ = false := by simpa [Manner.makes, fair] using makes
    refine ⟨given, Move.leavesCollecting free, ?_, ?_⟩
    · rintro f st rfl
      cases bare
    · rintro a f st rfl
      cases bare
  collects course idle found isOp := by
    obtain ⟨b, settled⟩ := (course.aware isNew).settled
    obtain ⟨delivering, gathered, -, listed, -⟩ := settled.gathered (s := _)
    rw [gathered, EStateM.Result.ok.injEq] at found
    obtain ⟨rfl, -⟩ := found
    rcases isOp with rfl | rfl <;>
      exact ⟨fun v on => (settled.kept.stock.kept v (listed v on)).2, ⟨idle, _, gathered, fun v on => on⟩,
        by simp, by simp⟩
  forms course answered used shape := by
    have known := congrArg Lore.names (course.lore_of_function answered)
    rcases shape with ⟨st, rfl⟩ | ⟨d, st, opened, rfl⟩
    · refine ⟨used, rfl, fun f' st' same => ?_, by simp⟩
      obtain ⟨rfl, -⟩ : _ = f' ∧ st = st' := by simpa using same
      simp [known]
    · refine ⟨used, rfl, by simp, fun a f' st' same => ?_⟩
      obtain ⟨rfl, rfl, -⟩ : d.delivery.this = a ∧ _ = f' ∧ st = st' := by simpa using same
      exact ⟨by simp [known], d, opened, rfl⟩

/-! ### What is given -/

/-- A function reference, and what makes or writes an actor with it. -/
def Plan.forming (b : Behavior α) (act : Ref L → Act L) : Plan L α γ :=
  .call (.function b) fun f => .call (.heap (.act (act (f.getD .nil)))) .done

/-- An actor is made, or the one of a delivery is written, with a function reference that is answered first. -/
theorem Course.formed (act : Ref L → Act L) (course : Course (Fair start) start trace p)
    (isNew : start = Point.new capacity traced now guest journal) {u : Logged (World L α γ)}
    (answered : World.function b p.logged = .ok f s)
    (used : ∀ v ∈ (act f).operands, v = f ∨ (loreOf start trace).Allows v)
    (shape : (∃ st, act f = .actorCell f st) ∨ ∃ d st, p.opened = some d ∧ act f = .setActor d.delivery.this f st)
    (ran : (Call.heap (.act (act f)) : Call L α γ).task s = .ok answer u) :
    Course (Fair start) start (trace ++ (Plan.forming b act).moves p) ⟨u, p.opened⟩ ∧
      loreOf start (trace ++ (Plan.forming b act).moves p) =
        Lore.record { loreOf start trace with names := (f, b) :: (loreOf start trace).names }
          ⟨.act (act f), .ok answer⟩ u.state.heap := by
  have within := within_fair isNew
  have done : (Call.function b : Call L α γ).task p.logged = .ok (some f) s := Call.function_of_ok answered
  have first : Course (Fair start) start (trace ++ [p.moved (.call (.function b))]) ⟨s, p.opened⟩ :=
    course.snoc _ (by simp [Point.after, Move.next, done, stateAfter])
      (by rw [Point.moved, Move.next, done]; rfl) (fun outer => by cases outer)
      (within.move course (fun outer => by cases outer) rfl (by simp [Move.given, Call.operands]))
  have known := course.lore_of_function answered
  have allowed : ∀ v ∈ (act f).operands,
      (loreOf start (trace ++ [p.moved (.call (.function b))])).Allows v := by
    intro v on
    rw [known]
    refine (used v on).elim ?_ id
    rintro rfl
    exact Or.inl (Ref.target?_of_isFunc ((function_ends b).of_ok answered).1.isFunc)
  have second := first.snoc (q := ⟨u, p.opened⟩) (.call (.heap (.act (act f))))
    (by simp [Point.after, Move.next, ran, stateAfter])
    (by rw [Point.moved, Move.next, ran]; rfl) (fun outer => by cases outer)
    (within.forms course answered allowed shape)
  have after := first.lore_of_ok ran
  rw [known] at after
  rw [List.append_assoc] at second after
  rw [Plan.forming, Plan.moves_of_ok done, Option.getD_some, Plan.moves_of_ok ran, Plan.moves]
  exact ⟨second, after⟩

/-- A service that goes through has given what it was asked to give. -/
theorem Course.gives (course : Course (Fair start) start trace p)
    (isNew : start = Point.new capacity traced now guest journal) (fits : o.Fits p)
    (used : ∀ v ∈ o.operands, (loreOf start trace).Allows v) (ran : o.task p.logged = .ok answer s) :
    o.Gives answer (loreOf start (trace ++ (o.plan p).moves p)) := by
  cases o with
  | createActor b state =>
    obtain ⟨r, u, made, same⟩ := Task.bind_eq_ok.mp ran
    obtain ⟨rfl, rfl⟩ : some r = answer ∧ u = s := by simpa using same
    obtain ⟨f, t, answered, made⟩ := Task.bind_eq_ok.mp made
    have done : (Call.heap (.act (.actorCell f state)) : Call L α γ).task t = .ok (some r) u := by
      rw [Call.task, Op.task, Act.task, onHeap_bind]
      exact Task.bind_eq_ok.mpr ⟨r, u, made, rfl⟩
    obtain ⟨-, lore⟩ := course.formed (.actorCell · state) isNew answered (fun v on => by
      rcases List.mem_pair.mp on with rfl | rfl
      · exact Or.inl rfl
      · exact Or.inr (used v (by simp [Service.operands]))) (Or.inl ⟨state, rfl⟩) done
    refine ⟨r, rfl, ?_⟩
    change Lore.Gives (loreOf start (trace ++ (Plan.forming b (.actorCell · state)).moves p)) r b
    rw [lore]
    exact ⟨⟨r, true, some b, false⟩, by simp [Lore.record, Lore.issued], rfl, rfl, rfl, rfl⟩
  | becomeActor actor b state =>
    obtain ⟨d, opened, rfl⟩ := fits
    obtain ⟨_, u, written, same⟩ := Task.bind_eq_ok.mp ran
    obtain ⟨rfl, rfl⟩ : none = answer ∧ u = s := by simpa using same
    obtain ⟨f, t, answered, written⟩ := Task.bind_eq_ok.mp written
    have done : (Call.heap (.act (.setActor d.delivery.this f state)) : Call L α γ).task t = .ok none u := by
      rw [Call.task, Op.task, Act.task, onHeap_bind]
      exact Task.bind_eq_ok.mpr ⟨(), u, written, rfl⟩
    obtain ⟨later, lore⟩ := course.formed (.setActor d.delivery.this · state) isNew answered
      (fun v on => by
      simp only [Act.operands, List.mem_cons, List.not_mem_nil, or_false] at on
      rcases on with rfl | rfl | rfl
      · exact Or.inr (used _ (by simp [Service.operands]))
      · exact Or.inl rfl
      · exact Or.inr (used _ (by simp [Service.operands]))) (Or.inr ⟨d, state, opened, rfl⟩) done
    -- its entry is one of before, written by this deed
    obtain ⟨c, ⟨e', on, unswept, asActor, ref, given⟩, -⟩ := (later.apart isNew).current d opened
    refine ⟨e', on, unswept, asActor, ref, ?_⟩
    rw [lore] at on
    obtain ⟨e, -, rfl⟩ : ∃ e ∈ (loreOf start trace).issues, _ = e' := by
      simpa [Lore.record, Lore.issued] using on
    rw [Lore.ref_update] at ref
    rw [Lore.given_update (Lore.update_unswept.mp unswept).1, ref]
    simp [Lore.gives]
  | forceCollect | startCollect => trivial

/-- Behaviors are given by what is asked for, and by nothing else. -/
structure Entrusted (start : Point L α γ) (trace : List (Moved L α γ)) (p : Point L α γ) : Prop where
  /-- The behavior of a new actor, or the new one of an actor, is the one last given for it. -/
  gives : ∀ (o : Service L α) answer s, o.Fits p → (∀ v ∈ o.operands, (loreOf start trace).Allows v) →
    o.task p.logged = .ok answer s → o.Gives answer (loreOf start (trace ++ (o.plan p).moves p))
  /-- To the other actors nothing is given. -/
  serves : ∀ o : Service L α, o.Fits p → (∀ v ∈ o.operands, (loreOf start trace).Allows v) →
    outcomeOf (o.task p.logged) ≠ .error .arenaExhausted → ∀ (n : Nat) e,
      (loreOf start trace).issues[n]? = some e → (∀ b st, o ≠ .becomeActor e.ref b st) →
        (loreOf start (trace ++ (o.plan p).moves p)).Recalls n e
  moves : ∀ m : Move L α γ, (fair start).makes m = true → ∀ (n : Nat) e, (loreOf start trace).issues[n]? = some e →
    (loreOf start (trace ++ [p.moved m])).Recalls n e

/-- Whatever a fair user asks of a world, by itself or within a delivery, and whenever it asks for collections:
actors are kept apart, and each has the behavior that was last asked for. -/
theorem Dialog.isolated (dialog : Dialog (fair start) start trace p)
    (isNew : start = Point.new capacity traced now guest journal) :
    Isolated start trace p ∧ Entrusted start trace p ∧ GoesOn (fair start) start trace p := by
  have within := within_fair isNew
  have course := dialog.course within
  refine ⟨course.apart isNew, ⟨fun o answer s fits used ran => course.gives isNew fits used ran,
    fun o fits used enough n e here other => ?_, fun m makes n e here => ?_⟩, dialog.goesOn within⟩
  · refine ((dialog.serve o fits used enough).course within).recalls here fun x on f st same => ?_
    obtain ⟨c, isCall, spares⟩ := (Service.plan_writes other).moves x on
    exact spares f st (Move.call.inj (isCall.symm.trans same))
  · refine course.recalls_after ⟨e, here, rfl, rfl, fun unswept => ⟨unswept, rfl⟩⟩ ?_
    rintro f st rfl
    simp [Manner.makes, fair, Move.formsActor] at makes

/-- Makes two actors and sends a reference to the second one to the first. -/
def introduce : WorldTask .twoLow Empty Unit Unit := do
  let a ← createActor .sink .nil
  send a (← createActor .sink .nil)

/-- Of two actors one is sent a reference to the other, and turns into a counter. -/
theorem isolated_neighbours : ∃ (trace : List (Moved .twoLow Empty Unit)) (p : Point .twoLow Empty Unit)
    (a b : Ref .twoLow), Dialog (fair quiet) quiet trace p ∧
      p.opened.map (fun d => (d.delivery.this, d.delivery.what)) = some (a, b) ∧
      Lore.Gives (loreOf quiet trace) a .countdown ∧ outcomeOf (behaviorOf b p.logged) = .ok .sink ∧
      Isolated quiet trace p ∧ Entrusted quiet trace p ∧ GoesOn (fair quiet) quiet trace p := by
  obtain ⟨a, b, s, isMet, met, filled, p, is₁, out, under, q, is₂, became, still⟩ :
      ∃ (a b : Ref .twoLow), ∃ s, s = stateAfter (introduce quiet.logged) ∧
        outcomeOf (introduce quiet.logged) = .ok () ∧ s.state.mailFirst.isNil = false ∧
        ∃ p, p = (⟨s, none⟩ : Point .twoLow Empty Unit).after .opens ∧
        ((⟨s, none⟩ : Point .twoLow Empty Unit).moved .opens).outcome = .ok none ∧
        p.opened.map (fun d => (d.delivery.this, d.delivery.what)) = some (a, b) ∧
        ∃ q, q = p.served (.becomeActor a .countdown .nil) ∧
        outcomeOf ((Service.becomeActor a .countdown .nil).task p.logged) = .ok none ∧
        outcomeOf (behaviorOf b q.logged) = .ok .sink := by
    refine ⟨⟨25, by decide⟩, ⟨29, by decide⟩, ?_⟩
    simp only [introduce, createActor, send, enqueue, take, spareCell, Heap.actorCell, Heap.cons, Heap.takeFree,
      Heap.perm, Heap.takeReserved, Heap.refillEmpty, Heap.refill, Heap.extend_eq_lengthen]
    decide +kernel
  have within : (fair quiet).Within (Fair quiet) quiet := within_fair rfl
  obtain ⟨t, dialog⟩ : ∃ t, Dialog (fair quiet) quiet t ⟨s, none⟩ := by
    have ran : introduce quiet.logged = .ok () s := isMet ▸ eq_ok_of_outcome met
    have handled (J : _) [Handles J] : Task.Tends J [] introduce := by unfold introduce; infer_instance
    exact (within.continues .start (fun _ => handled _) (List.forall_mem_nil _)).of_ok ran
  obtain ⟨d, opened, told⟩ := Option.map_eq_some_iff.mp under
  obtain ⟨rfl, rfl⟩ : d.delivery.this = a ∧ d.delivery.what = b := by simpa using told
  have there := dialog.move .opens ⟨rfl, filled⟩ rfl (by simp [Move.given]) (by simp [out])
  rw [← is₁] at there
  have operands : ∀ v ∈ (Service.becomeActor d.delivery.this .countdown .nil : Service .twoLow Empty).operands,
      (fair quiet).uses _ p v := fun v on => by
    rcases List.mem_pair.mp on with rfl | rfl
    · exact within.given there opened _ (by simp [Actor.given])
    · exact within.blank (there.course within) Ref.target?_nil
  have later := there.serve (.becomeActor d.delivery.this .countdown .nil) ⟨d, opened, rfl⟩ operands
    (by simp [became])
  obtain ⟨-, entrusted, -⟩ := there.isolated rfl
  have gives := entrusted.gives (.becomeActor d.delivery.this .countdown .nil) none _ ⟨d, opened, rfl⟩ operands
    (eq_ok_of_outcome became)
  rw [← is₂] at later
  exact ⟨_, q, _, _, later, by rw [is₂, opened_served, under], gives, still, later.isolated rfl⟩

end World

end Treadmill

import Mathlib
import Treadmill.Proofs.World.Census
import Treadmill.Proofs.World.Dialog
import Treadmill.Proofs.World.Eager

/-!
Dialogs in which every reference used names no cell or one that is in use and not permanent (`modest`). They
are modest courses, so collections keep what the world needs whatever it is asked for (`Dialog.alive`). The
behaviors that every world has go on along dialogs (`Manner.Within.behaves`).
-/

namespace Treadmill
open Heap (Plain)
open Treadmill.Task (Tends TendsAt Knows)
variable {L : Layout} {α γ β δ : Type}

/-- What an operation hands out or reads is plain. -/
theorem Heap.Holding.answer {act : Act L} {h k : Heap L} {stored : Nat → Ref L × Ref L} {answer : Option (Ref L)}
    (holding : h.Holding stored) (effect : Effect act h answer k) (passing : act.lasting = false)
    (plain : ∀ v ∈ act.operands, h.Plain v) (answers : act.birth.isSome ∨ act.reads.isSome) :
    ∀ r ∈ answer, k.Plain r := by
  rintro r rfl i target
  rcases answers with birth | reads
  · exact (effect.collectable i).mpr (Or.inr ⟨passing, birth, r, rfl, target⟩)
  · obtain ⟨⟨source, slot⟩, reads⟩ := Option.isSome_iff_exists.mp reads
    obtain ⟨blank, found⟩ := effect.read source slot reads
    cases named : source.target? with
    | none =>
      obtain rfl : r = .nil := Option.some.inj (blank named)
      simp at target
    | some j =>
      have on : h.Collectable j := plain source (by cases act <;> simp_all [Act.reads, Act.operands]) j named
      have same : r = slot.pick (h.contents j) := Option.some.inj (found j named)
      have slots : r ∈ h.slots j := by
        rw [Heap.slots_eq, same]
        cases slot <;> simp [Slot.pick]
      exact (effect.collectable i).mpr (Or.inl ((holding j on).1 r slots i target))

namespace World
variable {w : World L α γ} {b : Books L} {stored : Nat → Ref L × Ref L} {o h k : Heap L} {v target message : Ref L}
  {s : Logged (World L α γ)}

/-! ### What is plain stays so -/

/-- `careful`, and what is plain in `o` stays so. -/
def tending (o : Heap L) (stored : Nat → Ref L × Ref L) : Care L where
  Admits := Plain
  Guards := Heap.Safe
  Stands h := h.Holding stored ∧ ∀ v, o.Plain v → h.Plain v
  holds := Plain.holds
  blank := Heap.plain_of_target?
  guards_of_clear := (careful stored).guards_of_clear
  admits_filed := Heap.Filed.plain
  guards_filed := (careful stored).guards_filed
  stands_filed filed stands :=
    ⟨(careful stored).stands_filed filed stands.1, fun v plain => filed.plain (stands.2 v plain)⟩
  guards_read := (careful stored).guards_read
  stands_read effect admits stands :=
    ⟨(careful stored).stands_read effect admits stands.1, fun v plain => (stands.2 v plain).acted effect⟩

theorem Kept.tending (kept : Kept (careful stored) b w) : Kept (tending w.heap stored) b w :=
  kept.withHeap
    { sound := kept.stock.sound
      distinct := kept.stock.distinct
      own := kept.stock.own
      kept := kept.stock.kept
      stands := ⟨kept.stock.stands, fun _ => id⟩ } fun _ _ => rfl

/-! ### Modest dialogs -/

section
variable [DecidableEq α] {capacity : Nat} {traced : Bool} {now : Moment} {guest : γ} {journal : Journal}
  {trace : List (Moved L α γ)} {p : Point L α γ} {m : Move L α γ} {c : Call L α γ} {answer : Option (Ref L)}

/-- Every reference used names no cell or one that is in use and not permanent. -/
def modest : Manner L α γ := ⟨fun _ p v => p.world.heap.Plain v, true⟩

omit [DecidableEq α] in
theorem Move.leavesCollecting (free : m.isFree = true) : m.LeavesCollecting p := by
  cases m with
  | call c =>
    cases c with
    | heap op =>
      cases op with
      | act a => simpa [isFree] using! free
      | age | beginCollect | fullCollect => cases free
      | traceStep | sweep => trivial
    | function | send | sendAfter | aside | addRoot | gatherRoots | tick => trivial
  | opens | closes | drops => trivial

/-- A calm call leaves plain what is so. -/
theorem Settled.keeps_plain {r : Record L} (settled : Settled (careful stored) r b p.world p.opened)
    (operands : ∀ v ∈ c.operands, p.world.heap.Plain v) (calm : c.isCalm = true)
    (ran : c.task p.logged = .ok answer s) (plain : p.world.heap.Plain v) : s.state.heap.Plain v := by
  cases c with
  | heap op =>
    cases op with
    | act a =>
      have given : ∀ v ∈ a.operands, p.world.heap.Plain v := operands
      rcases a.outcome (s := ⟨p.world.heap, p.logged.journal⟩) settled.kept.stock.sound
        fun v on => (given v on).holds with ⟨fault, -, refused⟩ | ⟨-, answer', k, j, done, effect⟩
      · rw [Call.task, Op.task, onHeap_error refused] at ran
        cases ran
      · rw [Call.task, Op.task, onHeap_ok done] at ran
        obtain rfl := (EStateM.Result.ok.inj ran).2
        exact plain.acted effect
    | age | beginCollect | traceStep | sweep | fullCollect => cases calm
  | function b =>
    obtain ⟨f, u, answered, same⟩ := Task.bind_eq_ok.mp ran
    obtain ⟨-, rfl⟩ : some f = answer ∧ u = s := by simpa using same
    obtain ⟨table, same⟩ := ((function_ends b).of_ok answered).2.same
    rw [same]
    exact plain
  | send target message =>
    obtain ⟨_, u, sent, same⟩ := Task.bind_eq_ok.mp ran
    obtain ⟨-, rfl⟩ : none = answer ∧ u = s := by simpa using same
    have ends : (World.send target message).Ends p.logged _ fun _ _ => True :=
      send_ends settled.kept.tending (operands target (by simp [Call.operands]))
        (operands message (by simp [Call.operands])) 0 (fun _ _ => trivial) fun _ => trivial
    obtain ⟨-, l, pool, -, kept⟩ := ends.of_ok sent
    exact kept.stock.stands.2 v plain
  | sendAfter delay target message =>
    obtain ⟨_, u, sent, same⟩ := Task.bind_eq_ok.mp ran
    obtain ⟨-, rfl⟩ : none = answer ∧ u = s := by simpa using same
    have ends : (World.sendAfter delay target message).Ends p.logged _ fun _ _ => True :=
      sendAfter_ends settled.kept.tending (operands target (by simp [Call.operands]))
        (operands message (by simp [Call.operands])) delay 0 (fun _ _ => trivial) (fun _ => trivial)
        (fun _ _ _ => trivial) fun _ _ _ _ _ _ _ _ => trivial
    obtain ⟨-, a, pool, -, -, -, kept⟩ := ends.of_ok sent
    exact kept.stock.stands.2 v plain
  | aside symbols guest journal =>
    obtain rfl := (EStateM.Result.ok.inj ran).2
    exact plain
  | addRoot | gatherRoots | tick => cases calm

/-- What a call answers with is plain. -/
theorem Settled.answers_plain {r : Record L} {a : Ref L} (settled : Settled (careful stored) r b p.world p.opened)
    (operands : ∀ v ∈ c.operands, p.world.heap.Plain v) (leaves : Move.LeavesCollecting p (.call c))
    (ran : c.task p.logged = .ok (some a) s) : s.state.heap.Plain a := by
  have silent : ∀ {β : Type} {t : WorldTask L α γ β},
      (do let _ ← t; return none : WorldTask L α γ (Option (Ref L))) p.logged ≠ .ok (some a) s := by
    intro β t ran
    obtain ⟨_, _, -, same⟩ := Task.bind_eq_ok.mp ran
    simp at same
  cases c with
  | heap op =>
    cases op with
    | act act =>
      have given : ∀ v ∈ act.operands, p.world.heap.Plain v := operands
      rcases act.outcome (s := ⟨p.world.heap, p.logged.journal⟩) settled.kept.stock.sound
        fun v on => (given v on).holds with ⟨fault, -, refused⟩ | ⟨-, answer, k, j, done, effect⟩
      · rw [Call.task, Op.task, onHeap_error refused] at ran
        cases ran
      · have ran' := ran
        rw [Call.task, Op.task, onHeap_ok done, EStateM.Result.ok.injEq] at ran'
        obtain ⟨rfl, rfl⟩ := ran'
        refine settled.kept.stock.stands.answer effect leaves given ?_ a rfl
        cases act with
        | cons | perm | actorCell => exact Or.inl rfl
        | first | rest | behavior | state => exact Or.inr rfl
        | setFirst | setRest | setActor | scanValue =>
          rw [Call.task, Op.task, Act.task, onHeap_bind] at ran
          exact absurd ran silent
    | age | beginCollect | traceStep | sweep | fullCollect =>
      rw [Call.task, Op.task, onHeap_bind] at ran
      exact absurd ran silent
  | function b =>
    obtain ⟨f, u, answered, same⟩ := Task.bind_eq_ok.mp ran
    obtain ⟨rfl, rfl⟩ : f = a ∧ u = s := by simpa using same
    exact Heap.plain_of_target? (Ref.target?_of_isFunc ((function_ends b).of_ok answered).1.isFunc)
  | send | sendAfter | addRoot | gatherRoots | tick => exact absurd ran silent
  | aside => cases ran

theorem within_modest : (modest : Manner L α γ).Within Modest (Point.new capacity traced now guest journal) where
  blank _ := Heap.plain_of_target?
  gathers course := by
    obtain ⟨b, settled⟩ := course.careful
    obtain ⟨delivering, gathered, told, listed, -⟩ := settled.gathered (s := _)
    exact ⟨_, gathered, fun d opened v on => by simpa [told d opened, Actor.given] using Or.inr on,
      fun v on => (settled.kept.stock.kept v (listed v on)).1⟩
  keeps course fits modest calm ran plain := by
    obtain ⟨b, settled⟩ := course.careful
    exact settled.keeps_plain modest.plain calm ran plain
  answers course fits modest ran := by
    obtain ⟨b, settled⟩ := course.careful
    exact settled.answers_plain modest.plain modest.leaves ran
  move course fits makes given := ⟨given, Move.leavesCollecting (Bool.and_elim_left makes)⟩
  collects course idle found isOp := by
    obtain ⟨b, settled⟩ := course.careful
    obtain ⟨delivering, gathered, -, listed, -⟩ := settled.gathered (s := _)
    rw [gathered, EStateM.Result.ok.injEq] at found
    obtain ⟨rfl, -⟩ := found
    rcases isOp with rfl | rfl <;>
      exact ⟨fun v on => (settled.kept.stock.kept v (listed v on)).1, idle, _, gathered, fun v on => on⟩
  forms course answered used shape := by
    rcases shape with ⟨st, rfl⟩ | ⟨d, st, opened, rfl⟩ <;> exact ⟨used, rfl⟩

end

/-! ### Tasks along dialogs -/

section
variable [DecidableEq α] [HasRefs L β] [HasRefs L δ] {manner : Manner L α γ} {start p : Point L α γ}
  {allows : List (Moved L α γ) → Point L α γ → Move L α γ → Prop} {trace : List (Moved L α γ)}
  {opened : Option (Opened L α)} {known : List (Ref L)} {t : WorldTask L α γ β} {d : Opened L α} {host : Host L α γ}

/-- The dialog with this trace goes on to `s`, with these references at hand. -/
structure Led (manner : Manner L α γ) (start : Point L α γ) (trace : List (Moved L α γ)) (opened : Option (Opened L α))
    (s : Logged (World L α γ)) (known : List (Ref L)) : Prop where
  along : ∃ more, Dialog manner start (trace ++ more) ⟨s, opened⟩ ∧
    ∀ v ∈ known, manner.uses (trace ++ more) ⟨s, opened⟩ v

/-- The behaviors of the host keep to the way. -/
def Keeps (along : List (Moved L α γ) → Point L α γ → Prop) (host : Host L α γ) : Prop :=
  ∀ trace p d name, along trace p → p.opened = some d → d.behavior = .host name →
    Continues along trace p (host name d.delivery)

theorem Dialog.continues (dialog : Dialog manner start trace p)
    (tends : Tends (Led manner start trace p.opened) known t) (used : ∀ v ∈ known, manner.uses trace p v) : Continues (Dialog manner start) trace p t := by
  have ends := tends.along p.logged ⟨[], by simpa using dialog, by simpa using used⟩
  unfold TendsAt at ends
  unfold Continues
  cases ran : t p.logged with
  | ok a s =>
    rw [ran] at ends
    obtain ⟨more, later, -⟩ := ends.along
    exact Or.inr ⟨more, later⟩
  | error fault s =>
    rw [ran] at ends
    refine ends.imp (congrArg _) fun led => ?_
    obtain ⟨more, later, -⟩ := led.along
    exact ⟨more, later⟩

namespace Manner.Within
variable (within : manner.Within allows start)
include within

theorem knows : Knows (Led manner start trace opened) where
  blank := by
    rintro s known v ⟨more, dialog, used⟩ none
    exact ⟨more, dialog, List.forall_mem_cons.mpr ⟨within.blank (dialog.course within) none, used⟩⟩
  fewer := by
    rintro s known less ⟨more, dialog, used⟩ sub
    exact ⟨more, dialog, fun v on => used v (sub on)⟩

/-- A call that leaves in use what is so. -/
theorem tendsAt_call (c : Call L α γ) (answer : β → Option (Ref L)) (led : Led manner start trace opened s known)
    (same : c.task s = (t >>= fun a => pure (answer a)) s) (calm : c.isCalm = true)
    (makes : manner.makes (.call c) = true) (operands : ∀ v ∈ c.operands, Known known v)
    (answers : ∀ a u, t s = .ok a u → ∀ v ∈ HasRefs.refs a, answer a = some v ∨ v.target? = none) :
    TendsAt (Led manner start trace opened) known t s := by
  obtain ⟨more, dialog, used⟩ := led
  have course := dialog.course within
  have given : ∀ v ∈ c.operands, manner.uses (trace ++ more) ⟨s, opened⟩ v := fun v on =>
    (operands v on).listed.elim (used v) (within.blank course)
  have fits : Move.Fits (.call c) (⟨s, opened⟩ : Point L α γ) := fun outer => by
    cases c with
    | heap | function | send | sendAfter | aside => cases outer
    | addRoot | gatherRoots | tick => cases calm
  have allowed := within.move course fits makes given
  have next := dialog.move (.call c) fits makes given
  unfold TendsAt
  rw [List.append_assoc] at next
  cases ran : t s with
  | ok a u =>
    have done : c.task s = .ok (answer a) u := by rw [same, Task.bind_apply, ran]; rfl
    simp only [Point.moved, Point.after, Move.next, done, outcomeOf, stateAfter] at next
    have next := next (by simp)
    refine ⟨_, next, fun v on => ?_⟩
    rcases List.mem_append.mp on with new | old
    · rcases answers a u ran v new with isAnswer | none
      · simpa [Point.moved, Move.next, done, outcomeOf] using
          within.answers course fits allowed (isAnswer ▸ done)
      · exact within.blank (next.course within) none
    · simpa [Point.moved, Move.next, done, outcomeOf] using
        within.keeps course fits allowed calm done (used v old)
  | error f u =>
    have failed : c.task s = .error f u := by rw [same, Task.bind_apply, ran]
    simp only [Point.moved, Point.after, Move.next, failed, outcomeOf, stateAfter] at next
    refine or_iff_not_imp_left.mpr fun enough => ⟨_, next fun exhausted => enough (Except.error.inj exhausted), by simp⟩

/-- A service that leaves in use what is so. -/
theorem tendsAt_serve (o : Service L α) (answer : β → Option (Ref L)) (led : Led manner start trace opened s known)
    (same : o.task s = (t >>= fun a => pure (answer a)) s) (fits : o.Fits (⟨s, opened⟩ : Point L α γ))
    (operands : ∀ v ∈ o.operands, Known known v) (answers : ∀ a : β, HasRefs.refs a ⊆ (answer a).toList)
    (leads : ∀ trace, manner.At allows start (o.operands ++ known) trace ⟨s, opened⟩ →
      Plan.Leads manner allows start known trace ⟨s, opened⟩ (o.plan ⟨s, opened⟩)) :
    TendsAt (Led manner start trace opened) known t s := by
  obtain ⟨more, dialog, used⟩ := led
  have course := dialog.course within
  have given : ∀ v ∈ o.operands, manner.uses (trace ++ more) ⟨s, opened⟩ v := fun v on =>
    (operands v on).listed.elim (used v) (within.blank course)
  have next := dialog.serve o fits given
  unfold Point.served at next
  have leads := leads _ ⟨course, fun v on => (List.mem_append.mp on).elim (given v) (used v)⟩
  obtain ⟨roots, found, -⟩ := within.gathers course
  unfold Plan.Leads at leads
  rw [Service.plan_task o found] at leads
  unfold TendsAt
  rw [List.append_assoc] at next
  dsimp only at next leads
  cases ran : t s with
  | ok a u =>
    have done : o.task s = .ok (answer a) u := by rw [same, Task.bind_apply, ran]; rfl
    rw [done] at next leads
    refine ⟨_, next (by simp [outcomeOf]), fun v on => ?_⟩
    rw [← List.append_assoc]
    rcases List.mem_append.mp on with new | old
    · exact leads.used v (List.mem_append_left _ (answers a new))
    · exact leads.used v (List.mem_append_right _ old)
  | error f u =>
    have failed : o.task s = .error f u := by rw [same, Task.bind_apply, ran]
    rw [failed] at next
    exact or_iff_not_imp_left.mpr fun enough => ⟨_, next fun exhausted => enough (Except.error.inj exhausted), by simp⟩

theorem tends_act {t : HeapTask L β} {f : β → Option (Ref L)} (act : Act L) (same : act.task = do return f (← t))
    (free : manner.makes (.call (.heap (.act act))) = true) (operands : ∀ v ∈ act.operands, Known known v)
    (answers : ∀ a : β, HasRefs.refs a ⊆ (f a).toList) :
    Tends (Led manner start trace opened) known (onHeap t : WorldTask L α γ β) where
  along s led := by
    refine within.tendsAt_call (.heap (.act act)) f led ?_ rfl free operands fun a u _ v on => ?_
    · rw [Call.task, Op.task, same, onHeap_bind]
      rfl
    · exact Or.inl (by simpa using answers a on)

theorem handles : Handles (Led manner start trace opened) where
  toKnows := within.knows
  note known e := ⟨fun s led => within.tendsAt_call (.aside s.state.symbols s.state.guest (s.journal.add e))
    (fun _ => none) led rfl rfl (by simp [makes, Move.isFree, Move.formsActor]) (by simp [Call.operands])
    (by simp [Refless.none])⟩
  atom known name := by
    refine ⟨fun s led => ?_⟩
    have knows : Knows (Led manner start trace opened) := within.knows
    have same := atom_apply name s
    cases interned : s.state.symbols.intern name with
    | error fault =>
      rw [interned] at same
      exact Task.tendsAt_error same (Knows.none led)
    | ok found =>
      obtain ⟨id, table⟩ := found
      rw [interned] at same
      refine within.tendsAt_call (.aside table s.state.guest s.journal) (fun _ => none) led ?_ rfl
        (by simp [makes, Move.isFree, Move.formsActor]) (by simp [Call.operands]) fun a u ran v on => Or.inr ?_
      · simp [Call.task, Task.bind_apply, same]
      · obtain ⟨rfl, -⟩ : Ref.atom id = a ∧ _ = u := by simpa [same] using ran
        obtain rfl : v = .atom id := by simpa [HasRefs.refs] using on
        exact Ref.target?_atom id
  createActor known b state := by
    refine ⟨fun s led => ?_⟩
    refine within.tendsAt_serve (.createActor b state) some led rfl trivial (fun v on => ?_) (fun a => by
      simp [HasRefs.refs]) fun trace at_ => ?_
    · obtain rfl := List.mem_singleton.mp on
      infer_instance
    · exact within.creates ⟨at_.course, fun v on => at_.used v (by simp [on])⟩
        (at_.used state (by simp [Service.operands]))
  send known target message := by
    refine ⟨fun s led => within.tendsAt_call (.send target message) (fun _ => none) led rfl rfl
      (by simp [makes, Move.isFree, Move.formsActor]) ?_ (by simp [Refless.none])⟩
    simpa [Call.operands] using ⟨‹Known known target›, ‹Known known message›⟩
  sendAfter known delay target message := by
    refine ⟨fun s led => within.tendsAt_call (.sendAfter delay target message) (fun _ => none) led rfl rfl
      (by simp [makes, Move.isFree, Move.formsActor]) ?_ (by simp [Refless.none])⟩
    simpa [Call.operands] using ⟨‹Known known target›, ‹Known known message›⟩
  cons known x y :=
    within.tends_act (.cons x y) rfl (by simp [makes, Move.isFree, Move.formsActor, Act.lasting])
      (by simpa [Act.operands] using ⟨‹Known known x›, ‹Known known y›⟩) (by simp [HasRefs.refs])
  first known r :=
    within.tends_act (.first r) rfl (by simp [makes, Move.isFree, Move.formsActor, Act.lasting])
      (by simpa [Act.operands]) (by simp [HasRefs.refs])
  rest known r :=
    within.tends_act (.rest r) rfl (by simp [makes, Move.isFree, Move.formsActor, Act.lasting])
      (by simpa [Act.operands]) (by simp [HasRefs.refs])
  behavior known r :=
    within.tends_act (.behavior r) rfl (by simp [makes, Move.isFree, Move.formsActor, Act.lasting])
      (by simpa [Act.operands]) (by simp [HasRefs.refs])
  state known r :=
    within.tends_act (.state r) rfl (by simp [makes, Move.isFree, Move.formsActor, Act.lasting])
      (by simpa [Act.operands]) (by simp [HasRefs.refs])
  setRest known r v :=
    within.tends_act (.setRest r v) (f := fun _ => none) rfl
      (by simp [makes, Move.isFree, Move.formsActor, Act.lasting])
      (by simpa [Act.operands] using ⟨‹Known known r›, ‹Known known v›⟩) (by simp [Refless.none])

/-- What is made of the steps of the behaviors goes on along a dialog. -/
theorem continues (dialog : Dialog manner start trace p)
    (tends : Handles (Led manner start trace p.opened) → Tends (Led manner start trace p.opened) known t)
    (used : ∀ v ∈ known, manner.uses trace p v) : Continues (Dialog manner start) trace p t :=
  dialog.continues (tends within.handles) used

theorem becomes_self (d : Opened L α) : Becomes (Led manner start trace (some d)) d.delivery.this where
  becomeActor known b state := by
    refine ⟨fun s led => ?_⟩
    refine within.tendsAt_serve (.becomeActor d.delivery.this b state) (fun _ => none) led rfl ⟨d, rfl, rfl⟩
      (fun v on => ?_) (by simp [Refless.none]) fun trace at_ => ?_
    · rcases List.mem_pair.mp on with rfl | rfl <;> infer_instance
    · exact within.becomes ⟨at_.course, fun v on => at_.used v (by simp [on])⟩ rfl
        (at_.used _ (by simp [Service.operands])) (at_.used _ (by simp [Service.operands]))

/-- Target and message of a delivery under way may be used at all times. -/
theorem given (dialog : Dialog manner start trace p) (opened : p.opened = some d) :
    ∀ v ∈ Actor.given d.delivery, manner.uses trace p v := by
  obtain ⟨roots, -, told, used⟩ := within.gathers (dialog.course within)
  exact fun v on => used v (told d opened v on)

/-- The actor that carries a cycle on keeps to the dialog: its own cell outlives the end of the cycle. -/
theorem traces (dialog : Dialog manner start trace p) (opened : p.opened = some d) :
    Continues (Dialog manner start) trace p (Actor.trace d.delivery) := by
  have handles (trace : List (Moved L α γ)) : Handles (Led manner start trace p.opened) := within.handles
  have becomes (trace : List (Moved L α γ)) : Becomes (Led manner start trace p.opened) d.delivery.this :=
    opened ▸ within.becomes_self d
  have heap : ∀ {trace : List (Moved L α γ)} {s : Logged (World L α γ)} {δ : Type} {t : HeapTask L δ} (op : Op L)
      (f : δ → Option (Ref L)), op = .traceStep ∨ op = .sweep → op.task = (do return f (← t)) →
      Dialog manner start trace ⟨s, p.opened⟩ → Continues (Dialog manner start) trace ⟨s, p.opened⟩ (onHeap t) := by
    intro trace s δ t op f isOp same dialog
    refine Continues.call (.heap op) f (by rw [Call.task, same, onHeap_bind]; rfl)
      (dialog.move _ (fun outer => by cases outer) ?_ ?_)
    · rcases isOp with rfl | rfl <;> simp [makes, Move.isFree, Move.formsActor]
    · rcases isOp with rfl | rfl <;> simp [Move.given, Call.operands, Op.operands]
  refine (heap .traceStep (fun _ => none) (Or.inl rfl) rfl dialog).bind fun more s _ _ dialog => ?_
  cases more with
  | true => exact dialog.continues (t := send d.delivery.this .nil) inferInstance (within.given dialog opened)
  | false =>
    refine (heap .sweep (fun _ => none) (Or.inr rfl) rfl dialog).bind fun _ s _ _ dialog => ?_
    exact dialog.continues (t := Actor.retire d.delivery) inferInstance (within.given dialog opened)

/-- The behaviors that every world has keep to a dialog if those of the host do. -/
theorem behaves (keeps : Keeps (Dialog manner start) host) : Behaves (Dialog manner start) host := by
  intro trace p d dialog opened
  have handles : Handles (Led manner start trace p.opened) := within.handles
  have becomes : Becomes (Led manner start trace p.opened) d.delivery.this := opened ▸ within.becomes_self d
  cases behavior : d.behavior with
  | host name => exact keeps trace p d name dialog opened behavior
  | trace => exact within.traces dialog opened
  | sink | reportError | check | printText | printLine | hello | countdown | eachSecond | ticker =>
    refine dialog.continues ?_ (within.given dialog opened)
    unfold act
    infer_instance

end Manner.Within

omit [HasRefs L β] in
/-- A service is the next part of a dialog, whatever is made of its answer. -/
theorem Dialog.serves (dialog : Dialog manner start trace p) {o : Service L α} (fits : o.Fits p)
    (given : ∀ v ∈ o.operands, manner.uses trace p v) (answer : β → Option (Ref L))
    (same : o.task p.logged = (t >>= fun a => pure (answer a)) p.logged) :
    Continues (Dialog manner start) trace p t := by
  have next := dialog.serve o fits given
  unfold Point.served at next
  rw [same, Task.bind_apply] at next
  unfold Continues
  cases ran : t p.logged with
  | ok a s =>
    rw [ran] at next
    exact Or.inr ⟨_, next (by simp [outcomeOf])⟩
  | error f s =>
    rw [ran] at next
    exact or_iff_not_imp_left.mpr fun enough => ⟨_, next fun same => enough (congrArg _ (Except.error.inj same))⟩

/-- What a dialog may go on with: actors are made and become others, collections are done or begun, and
messages are delivered, with any behaviors of a host that keep to dialogs. -/
structure GoesOn (manner : Manner L α γ) (start : Point L α γ) (trace : List (Moved L α γ)) (p : Point L α γ) :
    Prop where
  creates : ∀ b state, manner.uses trace p state →
    Continues (Dialog manner start) trace p (createActor b state)
  becomes : ∀ d b state, p.opened = some d → manner.uses trace p state →
    Continues (Dialog manner start) trace p (becomeActor d.delivery.this b state)
  collects : p.opened = none → Continues (Dialog manner start) trace p forceCollect
  begins : p.opened = none → Continues (Dialog manner start) trace p startCollect
  runs : p.opened = none → ∀ (host : Host L α γ) (clock : Nat → γ → Moment) (budget : Int),
    Keeps (Dialog manner start) host → Continues (Dialog manner start) trace p (run host clock budget)

theorem Dialog.goesOn (dialog : Dialog manner start trace p) (within : manner.Within allows start) :
    GoesOn manner start trace p where
  creates b state used :=
    dialog.serves (o := .createActor b state) trivial (by simpa [Service.operands]) some rfl
  becomes d b state opened used := by
    have this := within.given dialog opened d.delivery.this (by simp [Actor.given])
    exact dialog.serves (o := .becomeActor d.delivery.this b state) ⟨d, opened, rfl⟩
      (by simpa [Service.operands] using ⟨this, used⟩) (fun _ => none) rfl
  collects idle := dialog.serves (o := .forceCollect) idle (by simp [Service.operands]) (fun _ => none) rfl
  begins idle := dialog.serves (o := .startCollect) idle (by simp [Service.operands]) (fun _ => none) rfl
  runs idle host clock budget keeps := Dialog.runs.run dialog idle (within.behaves keeps) clock budget

end

/-! ### What is kept -/

/-- A collection that is forced goes through. -/
theorem Dialog.forces [DecidableEq α] {capacity : Nat} {traced : Bool} {now : Moment} {guest : γ} {journal : Journal}
    {trace : List (Moved L α γ)} {p : Point L α γ}
    (dialog : Dialog modest (Point.new capacity traced now guest journal) trace p) :
    ∃ s, forceCollect p.logged = .ok () s := by
  obtain ⟨roots, gathered, -, plain⟩ := within_modest.gathers (dialog.course within_modest)
  obtain ⟨b, settled⟩ := (dialog.course within_modest).careful
  obtain ⟨k, j, done, -⟩ := Heap.fullCollect_apply (s := ⟨p.world.heap, p.logged.journal⟩)
    settled.kept.stock.sound fun v on => (plain v on).holds
  exact ⟨_, Task.bind_eq_ok.mpr ⟨roots, p.logged, gathered, onHeap_ok done⟩⟩

/-- Whatever a world is asked for, everything in reach of what it has to keep is in use and holds what was last
stored in it, be a collection under way or not, and what the world itself refers to is no candidate. It refers
to what is on record, and to target and message of the entry under delivery. -/
theorem Dialog.alive [DecidableEq α] {capacity : Nat} {traced : Bool} {now : Moment} {guest : γ} {journal : Journal}
    {trace : List (Moved L α γ)} {p : Point L α γ}
    (dialog : Dialog modest (Point.new capacity traced now guest journal) trace p) :
    (∃ delivering, (∀ d, p.opened = some d → delivering = [d.delivery.this, d.delivery.what]) ∧
      gatherRoots p.logged = .ok ((Record.of now trace).refs ++ delivering) p.logged ∧
      (∀ v ∈ (Record.of now trace).refs ++ delivering, p.world.heap.Clear v) ∧
      ∀ i, p.world.heap.Reach (Named ((Record.of now trace).refs ++ delivering)) i →
        p.world.heap.Collectable i ∧ p.world.heap.contents i = lastStored trace i) ∧
      GoesOn modest (Point.new capacity traced now guest journal) trace p :=
  ⟨(dialog.course within_modest).sustains, dialog.goesOn within_modest⟩

/-- An actor is registered, a collection is begun, and another one is forced while that one is carried on. -/
theorem registered_actor_alive : ∃ (trace : List (Moved .twoLow Empty Unit)) (p : Point .twoLow Empty Unit)
    (a : Ref .twoLow), Dialog modest quiet trace p ∧ p.world.heap.collecting = true ∧
      outcomeOf (forceCollect p.logged) = .ok () ∧ a.target? = some 6 ∧
      (p.served .forceCollect).world.heap.Collectable 6 ∧
      (p.served .forceCollect).world.heap.contents 6 =
        lastStored (trace ++ (Service.forceCollect.plan p).moves p) 6 := by
  obtain ⟨a, target, made, p₁, is₁, fresh, registered, p₂, is₂, begun, p₃, is₃, underWay⟩ :
      ∃ a : Ref .twoLow, a.target? = some 6 ∧
        outcomeOf ((Service.createActor .sink .nil).task quiet.logged) = .ok (some a) ∧
        ∃ p₁, p₁ = quiet.served (.createActor .sink .nil) ∧ p₁.world.heap.members .fresh = [6] ∧
        (p₁.moved (.call (.addRoot a))).outcome = .ok none ∧ ∃ p₂, p₂ = p₁.after (.call (.addRoot a)) ∧
        outcomeOf (Service.startCollect.task p₂.logged) = .ok none ∧
        ∃ p₃, p₃ = p₂.served .startCollect ∧ p₃.world.heap.collecting = true := by
    refine ⟨⟨25, by decide⟩, by decide, ?_⟩
    simp only [Point.served, Point.after, Point.moved, Move.next, Call.task, Service.task, createActor, addRoot,
      Heap.actorCell, Heap.cons, Heap.takeFree, Heap.perm, Heap.takeReserved, Heap.refillEmpty, Heap.refill,
      Heap.extend_eq_lengthen]
    decide +kernel
  have plain : p₁.world.heap.Plain a := fun i named => by
    obtain rfl : 6 = i := by simpa [target] using named
    exact Or.inl (by simp [fresh])
  have idle₁ : p₁.opened = none := by rw [is₁, opened_served]; rfl
  have idle₂ : p₂.opened = none := by rw [is₂, opened_call, idle₁]
  have idle₃ : p₃.opened = none := by rw [is₃, opened_served, idle₂]
  obtain ⟨t₁, d₁⟩ : ∃ t, Dialog modest quiet t p₁ :=
    ⟨_, is₁ ▸ Dialog.start.serve (.createActor .sink .nil) trivial
      (by simpa [Service.operands] using! Heap.plain_of_target? Ref.target?_nil) (by simp [made])⟩
  have d₂ := d₁.move (.call (.addRoot a)) (fun _ => idle₁) rfl (by simpa [Move.given, Call.operands] using! plain)
    (by simp [registered])
  rw [← is₂] at d₂
  obtain ⟨t₃, d₃⟩ : ∃ t, Dialog modest quiet (t₁ ++ [p₁.moved (.call (.addRoot a))] ++ t) p₃ :=
    ⟨_, is₃ ▸ d₂.serve .startCollect idle₂ (by simp [Service.operands]) (by simp [begun])⟩
  obtain ⟨s, ran⟩ := d₃.forces
  have served : Service.forceCollect.task p₃.logged = .ok none s := Task.bind_eq_ok.mpr ⟨(), s, ran, rfl⟩
  have d₄ := d₃.serve .forceCollect idle₃ (by simp [Service.operands]) (by rw [served]; simp [outcomeOf])
  obtain ⟨⟨delivering, -, -, -, alive⟩, -⟩ := d₄.alive
  have isRoot : Moved.registered (p₁.moved (.call (.addRoot a))) = [a] := by
    rw [show p₁.moved (.call (.addRoot a)) = ⟨.call (.addRoot a), .ok none⟩ from registered ▸ rfl]
    rfl
  obtain ⟨use, same⟩ := alive 6 (.source ⟨a, by simp [Record.refs, Record.registered_of, isRoot], target⟩)
  exact ⟨_, p₃, a, d₃, underWay, by rw [ran, outcomeOf], target, use, same⟩

end World

end Treadmill

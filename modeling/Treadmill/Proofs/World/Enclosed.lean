import Mathlib
import Treadmill.Proofs.Heap.Enclosed
import Treadmill.Proofs.World.Handling
import Treadmill.Proofs.World.Order

/-!
References of a world that stay within its arena. As long as its user works on cells in use, no slot of any
cell, in use or free, ever names a cell outside the arena (`Course.enclosed`). So every delivery can be
printed.
-/

namespace Treadmill.World
open Treadmill.Task (Tends TendsAt Knows)
open Heap (Tight encloses_of_target?)
variable {L : Layout} {α γ β δ : Type} {w : World L α γ} {s : Logged (World L α γ)} {known : List (Ref L)}
  {v first rest p node entry before target message r : Ref L} {reading due : Moment} {delay : Int}

/-- The references that a world keeps beside its heap. -/
def links (w : World L α γ) : List (Ref L) :=
  [w.mailFirst, w.mailLast, w.inDelivery, w.timers, w.roots, w.pool]

/-- Neither a slot nor the world itself refers to a cell outside the arena. -/
structure Enclosed (w : World L α γ) : Prop where
  heap : w.heap.Enclosed
  links : ∀ v ∈ w.links, w.heap.Encloses v

/-- The world is enclosed, and so is what is at hand. -/
structure Whole (s : Logged (World L α γ)) (known : List (Ref L)) : Prop where
  world : s.state.Enclosed
  given : ∀ v ∈ known, s.state.heap.Encloses v

instance : Knows (Whole (L := L) (α := α) (γ := γ)) where
  blank whole none := ⟨whole.world, List.forall_mem_cons.mpr ⟨encloses_of_target? none, whole.given⟩⟩
  fewer whole less := ⟨whole.world, fun v on => whole.given v (less on)⟩

theorem Enclosed.whole (enclosed : s.state.Enclosed) : Whole s [] := ⟨enclosed, by simp⟩

theorem Enclosed.ends [HasRefs L β] {t : WorldTask L α γ β} (enclosed : s.state.Enclosed)
    (tends : Tends Whole known t) (given : ∀ v ∈ known, s.state.heap.Encloses v) :
    t.Ends s (fun a u => u.Enclosed ∧ ∀ v ∈ HasRefs.refs a ++ known, u.heap.Encloses v)
      (fun f u => f = .arenaExhausted ∨ u.Enclosed) := by
  have ends := tends.along s ⟨enclosed, given⟩
  unfold TendsAt at ends
  unfold Task.Ends
  cases ran : t s with
  | ok a u =>
    rw [ran] at ends
    exact ⟨ends.world, ends.given⟩
  | error f u =>
    rw [ran] at ends
    exact ends.imp_right Whole.world

/-! ### The steps of a world -/

instance onHeap_tends [HasRefs L β] (t : HeapTask L β) [tends : Tends Tight known t] [grows : Grows t] :
    Tends Whole known (onHeap t : WorldTask L α γ β) where
  along s whole := by
    have ends := tends.along ⟨s.state.heap, s.journal⟩ ⟨whole.world.heap, whole.given⟩
    have arena := grows.arena ⟨s.state.heap, s.journal⟩
    unfold TendsAt at ends
    cases ran : t ⟨s.state.heap, s.journal⟩ with
    | ok a u =>
      rw [ran] at ends arena
      exact Task.tendsAt_ok (onHeap_ok ran) ⟨⟨ends.heap, fun v on => (whole.world.links v on).mono arena⟩, ends.given⟩
    | error f u =>
      rw [ran] at ends arena
      unfold TendsAt
      rw [onHeap_error ran]
      exact ends.imp_right fun tight =>
        Enclosed.whole ⟨tight.heap, fun v on => (whole.world.links v on).mono arena⟩

/-- The reference that a field is set to is known, or it stands in a field already. -/
class Stems (known : List (Ref L)) (f : World L α γ → Ref L) : Prop where
  listed : ∀ w, Known (w.links ++ known) (f w)

namespace Stems

instance fixed [given : Known known r] : Stems known fun _ : World L α γ => r :=
  ⟨fun _ => ⟨given.listed.imp_left (List.mem_append_right _)⟩⟩

instance mailFirst : Stems known (World.mailFirst : World L α γ → Ref L) := ⟨fun w => ⟨Or.inl (by simp [links])⟩⟩

instance mailLast : Stems known (World.mailLast : World L α γ → Ref L) := ⟨fun w => ⟨Or.inl (by simp [links])⟩⟩

instance inDelivery : Stems known (World.inDelivery : World L α γ → Ref L) := ⟨fun w => ⟨Or.inl (by simp [links])⟩⟩

instance timers : Stems known (World.timers : World L α γ → Ref L) := ⟨fun w => ⟨Or.inl (by simp [links])⟩⟩

instance roots : Stems known (World.roots : World L α γ → Ref L) := ⟨fun w => ⟨Or.inl (by simp [links])⟩⟩

instance pool : Stems known (World.pool : World L α γ → Ref L) := ⟨fun w => ⟨Or.inl (by simp [links])⟩⟩

instance ite {c : Prop} [Decidable c] {f g : World L α γ → Ref L} [Stems known f] [Stems known g] :
    Stems known fun w => if c then f w else g w := by
  split <;> infer_instance

theorem near {f : World L α γ → Ref L} [stems : Stems known f] (whole : Whole s known) :
    s.state.heap.Encloses (f s.state) := by
  have := stems.listed s.state
  have each : ∀ v ∈ s.state.links ++ known, s.state.heap.Encloses v := fun v on =>
    (List.mem_append.mp on).elim (whole.world.links v) (whole.given v)
  exact Known.holds (fun _ => encloses_of_target?) each

end Stems

instance alter_tends {symbols : World L α γ → Symbols} {behaviors : World L α γ → Array (Behavior α)}
    {mailFirst mailLast inDelivery timers roots pool : World L α γ → Ref L}
    {pending capacity delayed poolUsed poolMax delivered : World L α γ → Nat} {now : World L α γ → Moment}
    {traced : World L α γ → Bool} {guest : World L α γ → γ} [Stems known mailFirst] [Stems known mailLast]
    [Stems known inDelivery] [Stems known timers] [Stems known roots] [Stems known pool] :
    Tends Whole known (Task.alter fun w : World L α γ => ⟨w.heap, symbols w, behaviors w, mailFirst w,
      mailLast w, pending w, capacity w, inDelivery w, timers w, delayed w, roots w, pool w, poolUsed w, poolMax w,
      delivered w, now w, traced w, guest w⟩) where
  along s whole := by
    refine Task.tendsAt_ok (Task.alter_apply _ _) (Knows.refless ⟨⟨whole.world.heap, fun v on => ?_⟩, whole.given⟩)
    have near : ∀ (f : World L α γ → Ref L) [Stems known f], s.state.heap.Encloses (f s.state) :=
      fun f _ => Stems.near whole
    simp only [links, List.mem_cons, List.not_mem_nil, or_false] at on
    rcases on with rfl | rfl | rfl | rfl | rfl | rfl
    · exact near mailFirst
    · exact near mailLast
    · exact near inDelivery
    · exact near timers
    · exact near roots
    · exact near pool

instance countTaken_tends : Tends Whole known (Task.alter World.countTaken : WorldTask L α γ Unit) :=
  inferInstanceAs (Tends Whole known (Task.alter fun w : World L α γ =>
    { w with poolUsed := w.poolUsed + 1, poolMax := max w.poolMax (w.poolUsed + 1) }))

instance view_tends {f : World L α γ → Ref L} [Stems known f] : Tends Whole known (Task.view f) where
  along s whole :=
    Task.tendsAt_ok rfl ⟨whole.world, by simpa [HasRefs.refs] using! ⟨Stems.near whole, whole.given⟩⟩

instance [Known known p] [Known known first] [Known known rest] :
    Tends Whole known (reuse p first rest : WorldTask L α γ (Ref L)) := by
  unfold reuse; infer_instance

instance [Known known first] [Known known rest] :
    Tends Whole known (spareCell first rest : WorldTask L α γ (Ref L)) := by
  unfold spareCell; infer_instance

instance [Known known first] [Known known rest] :
    Tends Whole known (take first rest : WorldTask L α γ (Ref L)) := by
  unfold take; infer_instance

instance [Known known p] : Tends Whole known (recycle p : WorldTask L α γ Unit) := by
  unfold recycle; infer_instance

instance [Known known node] : Tends Whole known (linkMail node : WorldTask L α γ Unit) := by
  unfold linkMail; infer_instance

instance [Known known entry] : Tends Whole known (enqueue entry : WorldTask L α γ Unit) := by
  unfold enqueue; infer_instance

instance [Known known target] [Known known message] :
    Tends Whole known (send target message : WorldTask L α γ Unit) := by
  unfold send; infer_instance

instance : Tends Whole known (dequeue : WorldTask L α γ (Ref L)) := by
  unfold dequeue
  iterate 4 refine Tends.after inferInstance fun _ => ?_
  infer_instance

instance [Known known node] : Tends Whole known (dueTime node : WorldTask L α γ Moment) := by
  unfold dueTime; infer_instance

instance [Known known before] [Known known node] (n : Nat) :
    Tends Whole known (timerPlaceFrom due n before node : WorldTask L α γ (Ref L × Ref L)) := by
  induction n generalizing known before node with
  | zero => unfold timerPlaceFrom; infer_instance
  | succ n ih => unfold timerPlaceFrom; infer_instance

instance [Known known before] [Known known node] :
    Tends Whole known (linkTimer before node : WorldTask L α γ Unit) := by
  unfold linkTimer; infer_instance

instance [Known known target] [Known known message] :
    Tends Whole known (sendAfter delay target message : WorldTask L α γ Unit) := by
  unfold sendAfter
  iterate 10 refine Tends.after inferInstance fun _ => ?_
  infer_instance

instance [Known known node] : Tends Whole known (fire node : WorldTask L α γ Unit) := by
  unfold fire
  iterate 10 refine Tends.after inferInstance fun _ => ?_
  infer_instance

instance (n : Nat) : Tends Whole known (fireDue n : WorldTask L α γ Unit) := by
  induction n generalizing known with
  | zero => unfold fireDue; infer_instance
  | succ n ih => unfold fireDue; infer_instance

instance : Tends Whole known (tick reading : WorldTask L α γ Unit) := by unfold tick; infer_instance

instance [Known known r] : Tends Whole known (addRoot r : WorldTask L α γ Unit) := by
  unfold addRoot; infer_instance

section
variable [HasRefs L β] (item : Ref L → WorldTask L α γ β)
  [each : ∀ (known : List (Ref L)) (r : Ref L), Tends Whole (r :: known) (item r)]

instance [Known known node] (n : Nat) (seen : List β) :
    Tends Whole known (queueFrom item n node seen) := by
  induction n generalizing known node seen with
  | zero => unfold queueFrom; infer_instance
  | succ n ih =>
    have read : Tends Whole known (item node) := (each known node).of_known
    unfold queueFrom
    infer_instance

instance [Known known node] : Tends Whole known (queue item node) := by
  unfold queue; infer_instance

end

instance [Known known entry] : Tends Whole known (entryRefs entry : WorldTask L α γ (List (Ref L))) := by
  unfold entryRefs; infer_instance

instance : Tends Whole known (deliveringRefs : WorldTask L α γ (List (Ref L))) := by
  unfold deliveringRefs; infer_instance

instance : Tends Whole known (gatherRoots : WorldTask L α γ (List (Ref L))) := by
  unfold gatherRoots
  iterate 6 refine Tends.after inferInstance fun _ => ?_
  infer_instance

/-! ### Behaviors and deliveries -/

section
variable [DecidableEq α]

instance : Tends Whole known (function b : WorldTask L α γ (Ref L)) where
  along s whole := by
    have ends := function_ends b (s := s)
    cases ran : World.function b s with
    | ok f u =>
      obtain ⟨means, grown⟩ := ends.of_ok ran
      obtain ⟨table, same⟩ := grown.same
      have whole : Whole u known := ⟨by rw [same]; exact ⟨whole.world.heap, whole.world.links⟩, by
        rw [same]; exact whole.given⟩
      exact Task.tendsAt_ok ran (Knows.blank whole (Ref.target?_of_isFunc means.isFunc))
    | error f u =>
      obtain ⟨grown, -⟩ := ends.of_error ran
      obtain ⟨table, same⟩ := grown.same
      exact Task.tendsAt_error ran (Enclosed.whole (by rw [same]; exact ⟨whole.world.heap, whole.world.links⟩))

instance [Known known state] : Tends Whole known (createActor b state : WorldTask L α γ (Ref L)) := by
  unfold createActor; infer_instance

instance : Handles (Whole (L := L) (α := α) (γ := γ)) where
  note known e := ⟨fun s whole => Task.tendsAt_ok (Task.note_apply _ _) (Knows.refless ⟨whole.world, whole.given⟩)⟩
  atom known name := by
    refine ⟨fun s whole => ?_⟩
    have same := atom_apply name s
    cases interned : s.state.symbols.intern name with
    | error fault =>
      rw [interned] at same
      exact Task.tendsAt_error same whole.world.whole
    | ok found =>
      rw [interned] at same
      refine Task.tendsAt_ok same (Knows.blank ?_ (Ref.target?_atom found.1))
      exact ⟨⟨whole.world.heap, whole.world.links⟩, whole.given⟩
  createActor known b state := inferInstance
  send known target message := inferInstance
  sendAfter known delay target message := inferInstance
  cons known x y := inferInstance
  first known r := inferInstance
  rest known r := inferInstance
  behavior known r := inferInstance
  state known r := inferInstance
  setRest known r v := inferInstance

instance (self : Ref L) : Becomes (Whole (L := L) (α := α) (γ := γ)) self where
  becomeActor known b state := by unfold becomeActor; infer_instance

instance : HasRefs L (Opened L α) := ⟨fun d => [d.entry, d.outer, d.delivery.this, d.delivery.what]⟩

instance {b : Behavior α} [Known known entry] [Known known before] [Known known target] [Known known message] :
    Tends Whole known (pure ⟨entry, before, ⟨target, message⟩, b⟩ : WorldTask L α γ (Opened L α)) where
  along s whole := by
    have near : ∀ (v : Ref L) [Known known v], s.state.heap.Encloses v := fun v _ =>
      Known.holds (fun _ => encloses_of_target?) whole.given
    refine Task.tendsAt_ok rfl ⟨whole.world, ?_⟩
    simpa [HasRefs.refs] using! ⟨near entry, near before, near target, near message, whole.given⟩

instance (d : Delivery L) : Tends Whole known (announce d : WorldTask L α γ Unit) := by
  unfold announce; infer_instance

instance : Tends Whole known (openLetter : WorldTask L α γ (Opened L α)) := by
  unfold openLetter
  iterate 7 refine Tends.after inferInstance fun _ => ?_
  infer_instance

instance (d : Opened L α) [Known known d.entry] [Known known d.outer] :
    Tends Whole known (closeLetter d : WorldTask L α γ Unit) := by
  unfold closeLetter; infer_instance

/-! ### Courses -/

variable {trace : List (Moved L α γ)} {q : Point L α γ} {b : Books L} {care : Care L} {record : Record L}
  {m : Move L α γ} {capacity : Nat} {traced : Bool} {now : Moment} {guest : γ} {journal : Journal}

instance [HasRefs L δ] {t : WorldTask L α γ δ} [Tends Whole known t] :
    Tends Whole known (do let _ ← t; return none : WorldTask L α γ (Option (Ref L))) :=
  inferInstanceAs (Tends Whole known (_ >>= _))

theorem tends_task (c : Call L α γ) (operands : ∀ v ∈ c.operands, Known known v) :
    Tends Whole known c.task := by
  cases c with
  | heap op =>
    have := Heap.tends_op op operands
    have := Heap.grows_op op
    exact onHeap_tends _
  | function b => exact inferInstanceAs (Tends Whole known (_ >>= _))
  | send target message | sendAfter _ target message =>
    have := operands target (by simp [Call.operands])
    have := operands message (by simp [Call.operands])
    exact inferInstanceAs (Tends Whole known (_ >>= _))
  | aside symbols guest journal =>
    exact ⟨fun s whole => Task.tendsAt_ok rfl ⟨⟨whole.world.heap, whole.world.links⟩, whole.given⟩⟩
  | addRoot r =>
    have := operands r (by simp [Call.operands])
    exact inferInstanceAs (Tends Whole known (_ >>= _))
  | gatherRoots | tick => exact inferInstanceAs (Tends Whole known (_ >>= _))

omit [DecidableEq α] in
/-- Entry and outer entry of a delivery under way stand in the arena. -/
theorem Settled.encloses (settled : Settled care record b q.world q.opened) {d : Opened L α}
    (opened : q.opened = some d) : ∀ v ∈ [d.entry, d.outer], q.world.heap.Encloses v := by
  have under := settled.under
  rw [opened] at under
  obtain ⟨e, outer, held, -, points, delivers, -⟩ := under
  have sound := settled.kept.stock.sound
  have near : ∀ {v : Ref L} {x : Entry L}, x ∈ b.held → v.Points x.cell → q.world.heap.Encloses v :=
    fun on points => (Heap.holds_of_points points (settled.kept.stock.fixed
      (Books.filed_cells (Books.entry_filed (Books.held_entry on))))).encloses sound
  intro v on
  rcases List.mem_pair.mp on with rfl | rfl
  · exact near (by simp [held]) points
  · rcases delivers with ⟨none, -⟩ | ⟨x, points, rfl⟩
    · exact none ▸ encloses_of_target? Ref.target?_nil
    · exact near (by simp [held]) points

/-- A move that does not exhaust the arena leads to another enclosed world. -/
theorem Settled.enclosed (settled : Settled care record b q.world q.opened) (whole : q.world.Enclosed)
    (operands : ∀ c, m = .call c → ∀ v ∈ c.operands, q.world.heap.Encloses v)
    (enough : (q.moved m).outcome ≠ .error .arenaExhausted) : (q.after m).world.Enclosed := by
  cases m with
  | call c =>
    have tends : Tends Whole c.operands c.task := tends_task c fun v on => ⟨Or.inl on⟩
    exact ((tends.along q.logged ⟨whole, operands c rfl⟩).stays enough).world
  | opens =>
    have tends : Tends Whole [] (openLetter : WorldTask L α γ (Opened L α)) := inferInstance
    have ends := tends.along q.logged whole.whole
    unfold TendsAt at ends
    unfold Point.moved Move.next at enough
    unfold Point.after Move.next
    dsimp only at enough ⊢
    cases ran : openLetter q.logged with
    | ok d u =>
      rw [ran] at ends
      exact ends.world
    | error f u =>
      rw [ran] at ends enough
      exact (ends.resolve_left fun exhausted => enough (congrArg _ exhausted)).world
  | closes =>
    unfold Point.moved Move.next at enough
    unfold Point.after Move.next
    dsimp only at enough ⊢
    cases opened : q.opened with
    | none => exact whole
    | some d =>
      have : Known [d.entry, d.outer] d.entry := ⟨Or.inl (by simp)⟩
      have : Known [d.entry, d.outer] d.outer := ⟨Or.inl (by simp)⟩
      have tends : Tends Whole [d.entry, d.outer] (closeLetter d : WorldTask L α γ Unit) := inferInstance
      have ends := tends.along q.logged ⟨whole, settled.encloses opened⟩
      unfold TendsAt at ends
      rw [opened] at enough
      dsimp only at enough ⊢
      cases ran : closeLetter d q.logged with
      | ok a u =>
        rw [ran] at ends
        exact ends.world
      | error f u =>
        rw [ran] at ends enough
        exact (ends.resolve_left fun exhausted => enough (congrArg _ exhausted)).world
  | drops => exact whole

omit [DecidableEq α] in
theorem enclosed_empty : (World.empty capacity traced now guest : World L α γ).Enclosed where
  heap := Heap.enclosed_empty traced
  links v on := by
    obtain rfl : v = .nil := by simpa [links, World.empty] using on
    exact encloses_of_target? Ref.target?_nil

theorem Course.enclosed (course : Course Proper (Point.new capacity traced now guest journal) trace q) :
    q.world.Enclosed := by
  induction course with
  | start => exact enclosed_empty
  | move course m fits allowed enough whole =>
    obtain ⟨b, settled⟩ := course.settled
    refine settled.enclosed whole (fun c call v on => ?_) enough
    subst call
    exact (allowed.held v on).encloses settled.kept.stock.sound

end

end Treadmill.World

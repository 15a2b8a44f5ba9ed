import Mathlib
import Treadmill.Proofs.World.Work
import Treadmill.World.Run

/-!
A delivery in two halves, with the behavior's own work between them (`dispatch_eq`). In between the
entry is held; a delivery that ends before its second half leaves it behind.
-/

namespace Treadmill

/-- A delivery under way: its entry, the one that was under delivery before, and what the behavior
is given. -/
structure Opened (L : Layout) (α : Type) where
  entry : Ref L
  outer : Ref L
  delivery : Delivery L
  behavior : Behavior α

namespace World
open Heap (Filed)
variable {L : Layout} {α γ : Type} {s : Logged (World L α γ)} {w : World L α γ} {b : Books L}
  {care : Care L} {e : Entry L} {actor target message : Ref L} {held under : List (Entry L)}
  {failed : Fault → World L α γ → Prop} {l : Letter L} {mail : List (Letter L)} {d : Opened L α}

/-- The first half of a delivery: the first entry is taken out of the mailbox, and the behavior of
its target is looked up. -/
def openLetter : WorldTask L α γ (Opened L α) := do
  let entry ← dequeue
  let target ← Heap.first entry
  let message ← Heap.rest entry
  let behavior ← behaviorOf target
  Task.when (← Task.view (·.traced)) (announce ⟨target, message⟩)
  let outer ← Task.view (·.inDelivery)
  Task.alter fun w => { w with inDelivery := entry }
  return ⟨entry, outer, ⟨target, message⟩, behavior⟩

/-- The second half: the entry goes back to the pool. -/
def closeLetter (d : Opened L α) : WorldTask L α γ Unit := do
  Task.alter fun w => { w with inDelivery := d.outer }
  recycle d.entry
  Task.alter fun w => { w with delivered := w.delivered + 1 }

theorem dispatch_eq [DecidableEq α] (host : Host L α γ) : dispatch host = (do
    if (← Task.view (·.mailFirst)).isNil then return false
    let d ← openLetter
    act host d.behavior d.delivery
    closeLetter d
    return true) := by
  simp only [dispatch, deliver, openLetter, closeLetter, bind_assoc, pure_bind]

/-! ### Looking up a behavior -/

/-- The behavior that an actor has, if it has one. -/
def behaviorAt? (w : World L α γ) (actor : Ref L) : Option (Behavior α) := do
  let i ← actor.target?
  let f ← (w.heap.contents i).1.asFunc.toOption
  w.behaviors[f]?

theorem behaviorOf_ends (kept : Kept care b s.state) (admits : care.Admits s.state.heap actor) :
    (behaviorOf actor).Ends s
      (fun found u => u.behaviorAt? actor = some found ∧ Kept care b u)
      (fun f u => f.isGrave = false ∧ Kept care b u ∧
        (actor.isActor = true → u.behaviorAt? actor = none)) := by
  have holds := care.holds admits
  rcases (Act.behavior actor).outcome (s := ⟨s.state.heap, s.journal⟩) kept.stock.sound
    (by simpa [Act.operands] using holds) with
    ⟨f, refusal, refused⟩ | ⟨accepted, answer, k, j, done, effect⟩
  · have refused : (Heap.behavior actor) ⟨s.state.heap, s.journal⟩ =
        .error f ⟨s.state.heap, s.journal⟩ := by
      rcases Task.bind_eq_error.mp refused with failed | ⟨r, u, -, failed⟩
      · exact failed
      · cases failed
    refine ends_refused refused ⟨?_, kept, fun isActor => ?_⟩
    · by_contra grave
      rw [Bool.not_eq_false] at grave
      obtain ⟨rfl, -⟩ := Act.refusal_grave refusal grave
      simp [Act.refusal] at refusal
    · simp [Act.refusal, isActor] at refusal
  · have isActor : actor.isActor = true := by
      by_contra other
      simp [Act.refusal, other] at accepted
    obtain ⟨i, target⟩ : ∃ i, actor.target? = some i := ⟨_, Ref.target?_of_isActor isActor⟩
    obtain ⟨r, u, read, same⟩ := Task.bind_eq_ok.mp done
    simp only [Task.pure_apply, EStateM.Result.ok.injEq] at same
    obtain ⟨rfl, rfl⟩ := same
    have step := Step.acted effect
    have worked : Kept care b { s.state with heap := k } := by
      have worked := kept.worked step (fun i _ => by simp [Op.writes, Act.writes])
        (fun v on => care.guards_read effect (kept.stock.kept v on))
        (care.stands_read effect admits kept.stock.stands)
      simpa [Deed.granted] using worked
    have first : r = (k.contents i).1 := by
      have answered := (effect.read actor .first rfl).2 i target
      rw [Option.some.injEq] at answered
      rw [answered, step.contents_other (holds i target) (by simp [Op.writes, Act.writes])]
      rfl
    refine ends_onHeap read (Task.ends_ofExcept (fun n isFunc => Task.ends_view ?_)
      fun f failed => ⟨Ref.asFunc_error failed, worked, fun _ => ?_⟩)
    · rw [first] at isFunc
      cases found : s.state.behaviors[n]? with
      | none => exact ⟨rfl, worked, fun _ => by simp [behaviorAt?, target, isFunc, found, Except.toOption]⟩
      | some known =>
        exact Task.ends_pure ⟨by simp [behaviorAt?, target, isFunc, found, Except.toOption], worked⟩
    · rw [first] at failed
      simp [behaviorAt?, target, failed, Except.toOption]

/-- What it takes to open a delivery: the target has a behavior, and a world that prints each delivery can
print this one. -/
structure Deliverable (w : World L α γ) (delivery : Delivery L) : Prop where
  isActor : delivery.this.isActor = true
  behavior : w.behaviorAt? delivery.this ≠ none
  target : w.traced = true → (w.showRef delivery.this).fault? = none
  message : w.traced = true → (w.showRef delivery.what).fault? = none

theorem announce_ends (delivery : Delivery L) (traced : s.state.traced = true) :
    (announce delivery).Ends s (fun _ u => u = s.state)
      (fun f u => f.isGrave = false ∧ u = s.state ∧ ¬Deliverable u delivery) := by
  refine Task.ends_view (Task.ends_view (Task.ends_bind_ok (Task.note_apply _ _) ?_))
  refine Task.ends_ofExcept (fun _ _ => Task.ends_pure rfl) fun f failed => ?_
  have cut := Writing.fault?_of_toExcept failed
  refine ⟨?_, rfl, fun fine => ?_⟩
  · exact (Data.showFrom_sober _ _ _ _).followed (Data.showFrom_sober _ _ _ _) f cut
  · rcases Writing.fault?_then cut with target | message
    · exact absurd ((fine.target traced).symm.trans target) (by simp)
    · exact absurd ((fine.message traced).symm.trans message) (by simp)

/-! ### The two halves -/

/-- A letter that cannot be opened leaves its entry behind. -/
theorem openLetter_ends (kept : Kept care b s.state) (shape : b.mail = l :: mail)
    (admits : care.Admits s.state.heap l.entry.note.target) :
    openLetter.Ends s
      (fun d u => d.entry.Points l.entry.cell ∧ d.outer = b.current ∧
        d.delivery = ⟨l.entry.note.target, l.entry.note.message⟩ ∧
        u.behaviorAt? l.entry.note.target = some d.behavior ∧
        Kept care { b with
          mail, pool := l.node :: b.pool, held := l.entry :: b.held, current := d.entry } u)
      (fun f u => f.isGrave = false ∧ Kept care { b with
        mail, pool := l.node :: b.pool, lost := l.entry.cell :: b.lost } u ∧
        ¬Deliverable u ⟨l.entry.note.target, l.entry.note.message⟩) := by
  refine (dequeue_ends kept shape).bind ?_
  rintro entry u ⟨points, still, kept⟩
  have own := Books.head_cells (b := { b with
    mail, pool := l.node :: b.pool, held := l.entry :: b.held }) rfl
  have filled := kept.entries l.entry (Books.held_entry (by simp))
  refine kept.ends_first points own (kept.ends_rest points own ?_)
  rw [filled]
  dsimp only
  have behind : ∀ {u : World L α γ}, Kept care { b with
      mail, pool := l.node :: b.pool, held := l.entry :: b.held } u → Kept care { b with
      mail, pool := l.node :: b.pool, lost := l.entry.cell :: b.lost } u := fun kept =>
    kept.abandoned rfl
  refine Task.Ends.bind ((behaviorOf_ends kept (still _ admits)).mono (fun _ _ => id)
    fun _ _ ⟨light, kept, lacks⟩ => ⟨light, behind kept, fun fine => fine.behavior (lacks fine.isActor)⟩) ?_
  rintro found v ⟨isFound, kept⟩
  refine Task.ends_view ?_
  have told : (Task.when v.state.traced (announce ⟨l.entry.note.target, l.entry.note.message⟩)).Ends v
      (fun _ x => x = v.state) (fun f x => f.isGrave = false ∧ x = v.state ∧
        ¬Deliverable x ⟨l.entry.note.target, l.entry.note.message⟩) := by
    cases traced : v.state.traced with
    | false => exact rfl
    | true => exact announce_ends _ traced
  refine Task.Ends.bind (told.mono (fun _ _ => id)
    fun _ _ ⟨light, same, never⟩ => ⟨light, behind (same ▸ kept), never⟩) ?_
  intro _ x same
  refine Task.ends_view (Task.ends_alter (Task.ends_pure ⟨points, ?_, rfl, ?_, ?_⟩))
  · rw [same, kept.current]
  · rw [same]
    exact isFound
  · rw [same]
    exact
      { toQueued := { kept.toQueued with current := rfl }
        stock := kept.stock
        used := kept.used
        most := kept.most }

theorem closeLetter_ends (kept : Kept care b s.state) (isHeld : b.held = e :: held)
    (points : d.entry.Points e.cell) :
    (closeLetter d).Ends s
      (fun _ u => Kept care { b with held := held, pool := e.cell :: b.pool, current := d.outer } u)
      failed := by
  have back : Kept care { b with current := d.outer } { s.state with inDelivery := d.outer } :=
    { toQueued := { kept.toQueued with current := rfl }
      stock := kept.stock
      used := kept.used
      most := kept.most }
  have sublist : ∀ x ∈ held, x ∈ b.entries := fun x on => Books.held_entry (by simp [isHeld, on])
  have inHand := back.sorted
    (by
      change (held.map Entry.cell ++ (e.cell :: b.hand) ++ b.lost).Perm
        (b.held.map Entry.cell ++ b.hand ++ b.lost)
      rw [isHeld]
      refine List.perm_iff_count.mpr fun j => ?_
      simp only [List.map_cons, List.count_append, List.count_cons]
      omega)
    (fun x on => kept.entries x (sublist x on)) fun x on => kept.entry (sublist x on)
  refine Task.ends_alter ?_
  refine Task.Ends.bind (recycle_ends (s := ⟨{ s.state with inDelivery := d.outer }, s.journal⟩)
    inHand rfl points) fun _ u kept => ?_
  refine Task.ends_of_ok (Task.alter_apply _ _) ?_
  exact kept.beside ⟨rfl, rfl, rfl, rfl, rfl, rfl, rfl, rfl, rfl, rfl, rfl, rfl⟩

/-- A delivery that is dropped leaves behind the entry that was under delivery before it; its own
counts as under delivery from now on. -/
theorem Kept.dropped (kept : Kept care b w) (isHeld : b.held = e :: under) :
    Kept care { b with held := [e], lost := under.map Entry.cell ++ b.lost } w := by
  have sublist : ∀ x ∈ [e], x ∈ b.entries := fun x on => Books.held_entry (by
    rw [List.mem_singleton.mp on, isHeld]
    simp)
  have same : ([e].map Entry.cell ++ b.hand ++ (under.map Entry.cell ++ b.lost)).Perm
      (b.held.map Entry.cell ++ b.hand ++ b.lost) := by
    rw [isHeld]
    refine List.perm_iff_count.mpr fun j => ?_
    simp only [List.map_cons, List.map_nil, List.count_append, List.count_cons, List.count_nil]
    omega
  exact kept.sorted same (fun x on => kept.entries x (sublist x on)) fun x on => kept.entry (sublist x on)

end World

end Treadmill

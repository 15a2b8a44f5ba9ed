import Mathlib
import Treadmill.Proofs.Heap.Print
import Treadmill.Proofs.World.Live
import Treadmill.Proofs.World.Setup

/-!
What is known of a world from the references that it has answered with. The lore of a course lists every
cell that was asked for, with the behavior last given to it if it was made as an actor. As long as a cell
has not been swept, there is one reference to it, and the slots of ordinary cells hold no others
(`Kin`).
-/

namespace Treadmill
variable {L : Layout} {α γ : Type}

/-- A reference that names no cell or is one of `live`. -/
def Ref.Among (live : List (Ref L)) (v : Ref L) : Prop := v.target? = none ∨ v ∈ live

/-- A cell that was asked for: the reference that was answered, whether it was made as an actor, the
behavior last given for it, and whether it has been swept since. -/
structure Issue (L : Layout) (α : Type) where
  ref : Ref L
  asActor : Bool
  given : Option (Behavior α)
  swept : Bool

/-- The function references that were answered, each with its behavior, and the cells asked for. -/
structure Lore (L : Layout) (α : Type) where
  names : List (Ref L × Behavior α)
  issues : List (Issue L α)

namespace Lore

def empty : Lore L α := ⟨[], []⟩

/-- The behavior given for the cell of `r` after a deed. -/
def gives (l : Lore L α) (r : Ref L) : Deed L → Option (Behavior α) → Option (Behavior α)
  | ⟨.act (.setActor a f _), .ok _⟩, given => if a = r then l.names.lookup f else given
  | _, given => given

/-- The cells that a deed has asked for. -/
def issued (l : Lore L α) : Deed L → List (Issue L α)
  | ⟨.act (.cons _ _), .ok (some r)⟩ => [⟨r, false, none, false⟩]
  | ⟨.act (.actorCell f _), .ok (some r)⟩ => [⟨r, true, l.names.lookup f, false⟩]
  | _ => []

/-- An entry after a deed that has led to the heap `k`. -/
def update (l : Lore L α) (d : Deed L) (k : Heap L) (e : Issue L α) : Issue L α :=
  if e.swept then e
  else { e with
    given := l.gives e.ref d e.given
    swept := e.ref.target?.any fun i => i ∈ k.members .free }

def record (l : Lore L α) (d : Deed L) (k : Heap L) : Lore L α :=
  { l with issues := l.issues.map (l.update d k) ++ l.issued d }

/-- The references to cells that have not been swept. -/
def live (l : Lore L α) : List (Ref L) := (l.issues.filter fun e => !e.swept).map Issue.ref

/-- A reference that names no cell, or one that was answered and whose cell has not been swept since. -/
def Allows (l : Lore L α) (v : Ref L) : Prop := v.Among l.live

variable {l : Lore L α} {d : Deed L} {h k : Heap L} {e : Issue L α} {v r : Ref L} {i : Nat}

theorem mem_live : v ∈ l.live ↔ ∃ e ∈ l.issues, e.swept = false ∧ e.ref = v := by
  simp [live, and_assoc]

@[simp] theorem ref_update (l : Lore L α) (d : Deed L) (k : Heap L) (e : Issue L α) :
    (l.update d k e).ref = e.ref := by
  unfold update
  split <;> rfl

@[simp] theorem asActor_update (l : Lore L α) (d : Deed L) (k : Heap L) (e : Issue L α) :
    (l.update d k e).asActor = e.asActor := by
  unfold update
  split <;> rfl

theorem update_unswept : (l.update d k e).swept = false ↔
    e.swept = false ∧ ∀ i, e.ref.target? = some i → i ∉ k.members .free := by
  unfold update
  cases swept : e.swept <;> simp [swept, Option.any_eq_false]

theorem given_update (unswept : e.swept = false) :
    (l.update d k e).given = l.gives e.ref d e.given := by
  simp [update, unswept]

theorem mem_live_record : v ∈ (l.record d k).live ↔
    v ∈ l.live ∧ (∀ i, v.target? = some i → i ∉ k.members .free) ∨ v ∈ (l.issued d).map Issue.ref := by
  have fresh : ∀ e ∈ l.issued d, e.swept = false := by
    intro e on
    unfold issued at on
    split at on <;> simp_all
  simp only [mem_live, record, List.mem_append, List.mem_map]
  constructor
  · rintro ⟨e, ⟨old, on, rfl⟩ | new, unswept, rfl⟩
    · rw [ref_update]
      exact Or.inl ⟨⟨old, on, (update_unswept.mp unswept).1, rfl⟩, (update_unswept.mp unswept).2⟩
    · exact Or.inr ⟨e, new, rfl⟩
  · rintro (⟨⟨e, on, unswept, rfl⟩, stays⟩ | ⟨e, new, rfl⟩)
    · exact ⟨_, Or.inl ⟨e, on, rfl⟩, update_unswept.mpr ⟨unswept, stays⟩, ref_update ..⟩
    · exact ⟨e, Or.inr new, fresh e new, rfl⟩

theorem lookup_known {f : Ref L} (known : f ∈ l.names.map Prod.fst) :
    ∃ b, l.names.lookup f = some b ∧ (f, b) ∈ l.names := by
  cases found : l.names.lookup f with
  | none =>
    obtain ⟨x, on, rfl⟩ := List.mem_map.mp known
    simpa using List.lookup_eq_none_iff.mp found x on
  | some b =>
    obtain ⟨front, back, shape, -⟩ := List.lookup_eq_some_iff.mp found
    exact ⟨b, rfl, by simp [shape]⟩

end Lore

/-! ### One reference to each cell -/

namespace Heap
variable {l : Lore L α} {h k : Heap L} {v : Ref L} {i : Nat} {op : Op L}
  {o : Except Fault (Option (Ref L))} {stored : Nat → Ref L × Ref L} {live : List (Ref L)}

/-- The references `live` name ordinary cells, and those hold no others. -/
structure Kin (live : List (Ref L)) (h : Heap L) : Prop where
  refs : ∀ v ∈ live, h.Plain v
  slots : ∀ i, h.Collectable i → ∀ v ∈ h.slots i, v.Among live

theorem Kin.congr (kin : Kin live h) (collectable : ∀ i, k.Collectable i ↔ h.Collectable i)
    (same : ∀ i, h.Collectable i → k.contents i = h.contents i) : Kin live k where
  refs v on i target := (collectable i).mpr (kin.refs v on i target)
  slots i on v slot := by
    have old := (collectable i).mp on
    refine kin.slots i old v ?_
    rwa [slots_eq, same i old, ← slots_eq] at slot

/-- What is read from an ordinary cell. -/
theorem Kin.read {a : Act L} {q r : Ref L} {slot : Slot} (kin : Kin live k) (effect : Effect a h (some r) k)
    (reads : a.reads = some (q, slot)) (plain : h.Plain q) : r.Among live := by
  obtain ⟨blank, read⟩ := effect.read q slot reads
  cases target : q.target? with
  | none =>
    obtain rfl := Option.some.inj (blank target)
    exact Or.inl Ref.target?_nil
  | some i =>
    have on := plain i target
    have same : k.contents i = h.contents i := by
      rw [effect.contents i (Or.inl on)]
      cases a <;> first | rfl | cases reads
    refine kin.slots i ((effect.collectable i).mpr (Or.inl on)) r ?_
    rw [slots_eq, same, Option.some.inj (read i target)]
    cases slot <;> simp [Slot.pick]

theorem Sound.not_free (sound : h.Sound) (on : h.Collectable i) : i ∉ h.members .free :=
  (sound.threaded.inUse_iff.mp (Or.inl on)).2.2.1

end Heap

namespace Step
open Heap
variable {l : Lore L α} {h k : Heap L} {v : Ref L} {i : Nat} {op : Op L}
  {o : Except Fault (Option (Ref L))} {stored : Nat → Ref L × Ref L}

/-- What an ordinary cell holds after an operation it held before, or it is an operand. -/
theorem slot_old (step : Step op o h k) (on : k.Collectable i) (slot : v ∈ k.slots i) :
    h.Collectable i ∧ v ∈ h.slots i ∨ v ∈ op.operands := by
  have turned : ∀ {k : Heap L}, Turned h k → k.Collectable i → v ∈ k.slots i →
      h.Collectable i ∧ v ∈ h.slots i := fun turned on slot =>
    ⟨turned.collectable i on, turned.slots i ▸ slot⟩
  cases step with
  | refused | allTraced | nothingToSweep => exact Or.inl ⟨on, slot⟩
  | acted effect =>
    rcases (effect.collectable i).mp on with old | ⟨-, makes⟩
    · rw [slots_eq, effect.contents i (Or.inl old)] at slot
      exact (Act.mem_write slot).imp (fun slot => ⟨old, slot⟩) id
    · obtain ⟨kind, c, r, birth, -, -, filled⟩ := effect.newborn makes
      obtain ⟨first, rest⟩ := Act.mem_birth birth
      rw [slots_eq, filled] at slot
      rcases List.mem_pair.mp slot with rfl | rfl
      · exact Or.inr first
      · exact Or.inr rest
  | aged _ begun | begun _ begun => exact Or.inl (turned begun.toTurned on slot)
  | traced traced => exact Or.inl (turned traced.toTurned on slot)
  | swept swept => exact Or.inl (turned swept.toTurned on slot)
  | collected done => exact Or.inl (turned done on slot)

/-- An ordinary cell stays one or is freed. -/
theorem collectable_or_free (step : Step op o h k) (sound : h.Sound) (on : h.Collectable i) :
    k.Collectable i ∨ i ∈ k.members .free := by
  rcases step.inUse_or_free sound (Or.inl on) with (stays | fixed) | free
  · exact Or.inl stays
  · rcases step.fixed_iff.mp fixed with before | handed
    · exact absurd before (not_fixed_of_collectable on)
    · exact absurd (Or.inl on) (step.granted_new ((Deed.mem_granted _).mpr handed))
  · exact Or.inr free

theorem issued_new (step : Step op o h k) {e : Issue L α} (new : e ∈ l.issued ⟨op, o⟩) :
    ∃ i, e.ref.target? = some i ∧ ¬h.InUse i ∧ k.Collectable i ∧ e.asActor = e.ref.isActor ∧
      (e.asActor = true → ∃ f st, op = .act (.actorCell f st) ∧ k.contents i = (f, st) ∧
        e.given = l.names.lookup f) := by
  unfold Lore.issued at new
  split at new
  · rename_i a b r shape
    obtain ⟨rfl, rfl⟩ : op = .act (.cons a b) ∧ o = .ok (some r) := by simpa using shape
    obtain rfl := List.mem_singleton.mp new
    cases step with
    | acted effect =>
      obtain ⟨r', i, same, kind, target, unused, -⟩ := effect.born .pair a b rfl
      obtain rfl : r = r' := by simpa using same
      refine ⟨i, target, unused, (effect.collectable i).mpr (Or.inr ⟨rfl, rfl, r, rfl, target⟩), ?_, by simp⟩
      simp [Ref.isActor, kind]
  · rename_i f st r shape
    obtain ⟨rfl, rfl⟩ : op = .act (.actorCell f st) ∧ o = .ok (some r) := by simpa using shape
    obtain rfl := List.mem_singleton.mp new
    cases step with
    | acted effect =>
      obtain ⟨r', i, same, kind, target, unused, filled⟩ := effect.born .actor f st rfl
      obtain rfl : r = r' := by simpa using same
      refine ⟨i, target, unused, (effect.collectable i).mpr (Or.inr ⟨rfl, rfl, r, rfl, target⟩), ?_,
        fun _ => ⟨f, st, rfl, filled, rfl⟩⟩
      simp [Ref.isActor, kind]
  · cases new

theorem kin (step : Step op o h k) (kin : Kin l.live h) (sound : h.Sound) (holding : h.Holding stored)
    (allowed : ∀ v ∈ op.operands, h.Plain v ∧ v.Among l.live) : Kin (l.record ⟨op, o⟩ k).live k where
  refs v on i target := by
    rcases Lore.mem_live_record.mp on with ⟨old, stays⟩ | new
    · exact (step.collectable_or_free sound (kin.refs v old i target)).resolve_right (stays i target)
    · obtain ⟨e, member, rfl⟩ := List.mem_map.mp new
      obtain ⟨j, named, -, here, -⟩ := step.issued_new member
      obtain rfl : j = i := by simpa [named] using target
      exact here
  slots i on v slot := by
    have plain := ((holding.step step fun v on => (allowed v on).1) i on).1 v slot
    have among : v.Among l.live := by
      rcases step.slot_old on slot with ⟨old, slot⟩ | operand
      · exact kin.slots i old v slot
      · exact (allowed v operand).2
    exact among.imp id fun old => Lore.mem_live_record.mpr
      (Or.inl ⟨old, fun j target => (step.sound sound).not_free (plain j target)⟩)

end Step

/-! ### What a world bears out -/

namespace World
open Heap (Kin)
variable {l : Lore L α} {w : World L α γ} {e f : Issue L α} {i : Nat} {v : Ref L} {op : Op L}
  {s : Logged (Heap L)} {live : List (Ref L)} {stored : Nat → Ref L × Ref L}

/-- Asks of a reference that it was answered and that its cell has not been swept since. -/
def informed (live : List (Ref L)) (stored : Nat → Ref L × Ref L) : Care L where
  Admits h v := h.Plain v ∧ v.Among live
  Guards h v := h.Safe v ∧ v.Among live
  Stands h := h.Holding stored ∧ h.Kin live
  holds admits := admits.1.holds
  blank none := ⟨Heap.plain_of_target? none, Or.inl none⟩
  guards_of_clear admits clear := ⟨⟨admits.1, clear⟩, admits.2⟩
  admits_filed filed admits := ⟨filed.plain admits.1, admits.2⟩
  guards_filed filed guards := ⟨(careful stored).guards_filed filed guards.1, guards.2⟩
  stands_filed filed stands := ⟨(careful stored).stands_filed filed stands.1,
    stands.2.congr filed.collectable fun _ => filed.contents_collectable⟩
  guards_read effect guards := ⟨guards.1.acted effect, guards.2⟩
  stands_read effect admits stands := ⟨(careful stored).stands_read effect admits.1 stands.1,
    stands.2.congr (fun i => by simp [effect.collectable, Act.Makes, Act.birth])
      fun i on => effect.contents i (Or.inl on)⟩

/-- What is known of a world is right: no two references name the same cell, unless one was swept, and
each actor holds a reference of the behavior last given for it. -/
structure Told (l : Lore L α) (w : World L α γ) : Prop where
  apart : l.issues.Pairwise fun e f =>
    e.swept = false → f.swept = false → e.ref.target? ≠ f.ref.target?
  kinds : ∀ e ∈ l.issues, e.asActor = e.ref.isActor
  names : ∀ x ∈ l.names, w.Means x.1 x.2
  given : ∀ e ∈ l.issues, e.swept = false → e.asActor = true → ∃ b i, e.given = some b ∧
    e.ref.target? = some i ∧ ((w.heap.contents i).1, b) ∈ l.names

theorem Told.same (told : Told l w) (on : e ∈ l.issues) (unswept : e.swept = false) (live : v ∈ l.live)
    (target : v.target? = e.ref.target?) : v = e.ref := by
  obtain ⟨f, member, still, rfl⟩ := Lore.mem_live.mp live
  by_contra other
  have : Std.Symm fun e f : Issue L α =>
      e.swept = false → f.swept = false → e.ref.target? ≠ f.ref.target? :=
    ⟨fun _ _ different live live' same => different live' live same.symm⟩
  exact told.apart.forall member on (fun same => other (same ▸ rfl)) still unswept target

/-- Of the actors only one that is given another behavior is written. -/
theorem Told.written (told : Told l w) (sound : s.state.Sound)
    (allowed : ∀ v ∈ op.operands, s.state.Holds v ∧ l.Allows v) (on : e ∈ l.issues)
    (unswept : e.swept = false) (asActor : e.asActor = true) (target : e.ref.target? = some i)
    (use : s.state.InUse i) :
    (stateAfter (op.task s)).state.contents i = s.state.contents i ∧
        (∀ given, l.gives e.ref ⟨op, outcomeOf (op.task s)⟩ given = given) ∨
      ∃ f st, op = .act (.setActor e.ref f st) ∧
        (stateAfter (op.task s)).state.contents i = (f, st) ∧
        ∀ given, l.gives e.ref ⟨op, outcomeOf (op.task s)⟩ given = l.names.lookup f := by
  have isActor : e.ref.isActor = true := (told.kinds e on).symm.trans asActor
  have mine : ∀ r ∈ op.operands, r.target? = some i → r = e.ref := fun r operand named => by
    refine told.same on unswept ((allowed r operand).2.resolve_left ?_) (named.trans target.symm)
    simp [named]
  cases op with
  | act a =>
    rcases a.outcome sound fun v operand => (allowed v operand).1 with
      ⟨f, -, refused⟩ | ⟨accepted, answer, k, j, done, effect⟩
    · rw [Op.task, refused]
      exact Or.inl ⟨rfl, fun _ => by cases a <;> rfl⟩
    · rw [Op.task, done]
      have written := effect.contents i use
      cases a with
      | setFirst r x | setRest r x =>
        have other : r.target? ≠ some i := fun named => by
          rw [mine r (by simp [Op.operands, Act.operands]) named] at accepted
          simp [Act.refusal, Ref.isCons, Ref.isPair, show e.ref.kind = .actor by
            simpa [Ref.isActor] using isActor] at accepted
        exact Or.inl ⟨written.trans (if_neg other), fun _ => rfl⟩
      | setActor r f st =>
        by_cases named : r.target? = some i
        · obtain rfl := mine r (by simp [Op.operands, Act.operands]) named
          exact Or.inr ⟨f, st, rfl, written.trans (if_pos named), fun _ => if_pos rfl⟩
        · exact Or.inl ⟨written.trans (if_neg named), fun _ => if_neg fun same => named (by rw [same, target])⟩
      | cons | perm | actorCell | first | rest | behavior | state | scanValue =>
        exact Or.inl ⟨written, fun _ => rfl⟩
  | age | beginCollect | traceStep | sweep | fullCollect =>
    have step := Op.step _ sound fun v operand => (allowed v operand).1
    exact Or.inl ⟨step.contents use, fun _ => rfl⟩

theorem Told.record (told : Told l w) {j : Journal} (sound : w.heap.Sound) (kin : w.heap.Kin l.live)
    (allowed : ∀ v ∈ op.operands, w.heap.Holds v ∧ l.Allows v)
    (registers : ∀ f st, op = .act (.actorCell f st) → f ∈ l.names.map Prod.fst)
    (becomes : ∀ a f st, op = .act (.setActor a f st) → f ∈ l.names.map Prod.fst) :
    Told (l.record ⟨op, outcomeOf (op.task ⟨w.heap, j⟩)⟩ (stateAfter (op.task ⟨w.heap, j⟩)).state)
      { w with heap := (stateAfter (op.task ⟨w.heap, j⟩)).state } := by
  have step := op.step (s := ⟨w.heap, j⟩) sound fun v on => (allowed v on).1
  have named : ∀ e ∈ l.issues, e.swept = false → ∀ i, e.ref.target? = some i → w.heap.Collectable i :=
    fun e on unswept => kin.refs e.ref (Lore.mem_live.mpr ⟨e, on, unswept, rfl⟩)
  exact
    { apart := by
        refine List.pairwise_append.mpr ⟨List.pairwise_map.mpr (told.apart.imp ?_), ?_, ?_⟩
        · intro e f different unswept unswept'
          rw [Lore.ref_update, Lore.ref_update]
          exact different (Lore.update_unswept.mp unswept).1 (Lore.update_unswept.mp unswept').1
        · unfold Lore.issued
          split <;> simp
        · intro e old f new unswept _ same
          obtain ⟨e, member, rfl⟩ := List.mem_map.mp old
          obtain ⟨i, target, unused, -⟩ := step.issued_new new
          rw [Lore.ref_update, target] at same
          exact unused (Or.inl (named e member (Lore.update_unswept.mp unswept).1 i same))
      kinds := fun e on => by
        rcases List.mem_append.mp on with old | new
        · obtain ⟨e, member, rfl⟩ := List.mem_map.mp old
          simpa using told.kinds e member
        · obtain ⟨-, -, -, -, same, -⟩ := step.issued_new new
          exact same
      names := told.names
      given := fun e on unswept asActor => by
        rcases List.mem_append.mp on with old | new
        · obtain ⟨e, member, rfl⟩ := List.mem_map.mp old
          rw [Lore.asActor_update] at asActor
          have before := (Lore.update_unswept.mp unswept).1
          obtain ⟨b, i, given, target, held⟩ := told.given e member before asActor
          rw [Lore.given_update before, Lore.ref_update]
          rcases told.written (s := ⟨w.heap, j⟩) sound allowed member before asActor target
            (Or.inl (named e member before i target)) with ⟨same, gives⟩ | ⟨f, st, rfl, filled, gives⟩
          · exact ⟨b, i, (gives _).trans given, target, same ▸ held⟩
          · obtain ⟨c, found, known⟩ := Lore.lookup_known (becomes _ f st rfl)
            exact ⟨c, i, (gives _).trans found, target, by rw [filled]; exact known⟩
        · obtain ⟨i, target, -, -, -, made⟩ := step.issued_new new
          obtain ⟨f, st, same, filled, given⟩ := made asActor
          obtain ⟨c, found, known⟩ := Lore.lookup_known (registers f st same)
          exact ⟨c, i, given.trans found, target, by rw [filled]; exact known⟩ }

end World

end Treadmill

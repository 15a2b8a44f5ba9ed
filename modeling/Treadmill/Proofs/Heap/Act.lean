import Mathlib
import Treadmill.Proofs.Heap.Alloc

/-!
What a user of a heap can do to it (`Act`), when it is refused, and what it comes to when it is not
(`Effect`). `Act.outcome` is the only place where each operation is looked at in turn.
-/

namespace Treadmill
variable {L : Layout}

/-- The two slots of a cell. -/
inductive Slot
  | first
  | rest
deriving DecidableEq

def Slot.pick {α : Type} : Slot → α × α → α
  | first, c => c.1
  | rest, c => c.2

/-- The operations of a heap's user. -/
inductive Act (L : Layout)
  | cons (a b : Ref L)
  | perm (a b : Ref L)
  | actorCell (beh st : Ref L)
  | first (r : Ref L)
  | rest (r : Ref L)
  | setFirst (r v : Ref L)
  | setRest (r v : Ref L)
  | behavior (r : Ref L)
  | state (r : Ref L)
  | setActor (r beh st : Ref L)
  | scanValue (r : Ref L)

namespace Act

/-- The operation itself, with its answer if it has one. -/
def task : Act L → HeapTask L (Option (Ref L))
  | cons a b => do return some (← Heap.cons a b)
  | perm a b => do return some (← Heap.perm a b)
  | actorCell beh st => do return some (← Heap.actorCell beh st)
  | first r => do return some (← Heap.first r)
  | rest r => do return some (← Heap.rest r)
  | setFirst r v => do Heap.setFirst r v; return none
  | setRest r v => do Heap.setRest r v; return none
  | behavior r => do return some (← Heap.behavior r)
  | state r => do return some (← Heap.state r)
  | setActor r beh st => do Heap.setActor r beh st; return none
  | scanValue r => do Heap.scanValue r; return none

def operands : Act L → List (Ref L)
  | cons a b | perm a b | actorCell a b | setFirst a b | setRest a b => [a, b]
  | first r | rest r | behavior r | state r | scanValue r => [r]
  | setActor r beh st => [r, beh, st]

/-- The kind of the reference to the cell that is handed out and what the cell holds. -/
def birth : Act L → Option (Kind × Ref L × Ref L)
  | cons a b | perm a b => some (.pair, a, b)
  | actorCell beh st => some (.actor, beh, st)
  | _ => none

/-- Whether a cell that is handed out is permanent. -/
def lasting : Act L → Bool
  | perm _ _ => true
  | _ => false

/-- The slot that is read. -/
def reads : Act L → Option (Ref L × Slot)
  | first r | behavior r => some (r, .first)
  | rest r | state r => some (r, .rest)
  | _ => none

/-- The cell that is written. -/
def writes : Act L → Option (Ref L)
  | setFirst r _ | setRest r _ | setActor r _ _ => some r
  | _ => none

/-- What a cell holds afterwards. -/
def write : Act L → Nat → Ref L × Ref L → Ref L × Ref L
  | setFirst r v, i, held => if r.target? = some i then (v, held.2) else held
  | setRest r v, i, held => if r.target? = some i then (held.1, v) else held
  | setActor r beh st, i, held => if r.target? = some i then (beh, st) else held
  | _, _, held => held

/-- The fault of an operation that is refused. -/
def refusal (h : Heap L) : Act L → Option Fault
  | cons _ _ => if h.Short .free then some .arenaExhausted else none
  | perm _ _ => if h.Short .perm then some .arenaExhausted else none
  | actorCell beh _ =>
    if beh.isFunc = false then some (.notFunction beh.value)
    else if h.Short .free then some .arenaExhausted else none
  | first r => if r.isPair then none else some (.misuse .first r.value)
  | rest r => if r.isPair then none else some (.misuse .rest r.value)
  | setFirst r _ => if r.isCons then none else some (.misuse .setFirst r.value)
  | setRest r _ => if r.isCons then none else some (.misuse .setRest r.value)
  | behavior r => if r.isActor then none else some (.misuse .behavior r.value)
  | state r => if r.isActor then none else some (.misuse .state r.value)
  | setActor r beh _ =>
    if r.isActor = false then some (.misuse .become r.value)
    else if beh.isFunc then none else some (.notFunction beh.value)
  | scanValue _ => none

end Act

open Heap

/-- The answer names the cell that was handed out. -/
def Act.Makes (act : Act L) (answer : Option (Ref L)) (i : Nat) : Prop :=
  act.birth.isSome = true ∧ ∃ r, answer = some r ∧ r.target? = some i

/-- What an operation that is not refused does. -/
structure Effect (act : Act L) (h : Heap L) (answer : Option (Ref L)) (k : Heap L) : Prop
    extends SameCycle h k where
  sound : k.Sound
  arena : h.cells.size ≤ k.cells.size
  collectable : ∀ i, k.Collectable i ↔
    h.Collectable i ∨ act.lasting = false ∧ act.Makes answer i
  fixed : ∀ i, k.Fixed i ↔ h.Fixed i ∨ act.lasting = true ∧ act.Makes answer i
  fresh : ∀ i, i ∈ k.members .fresh ↔
    i ∈ h.members .fresh ∨ act.lasting = false ∧ act.Makes answer i
  aged : ∀ i ∈ k.members .aged, i ∈ h.members .aged
  left : ∀ i ∈ h.members .aged, i ∉ k.members .aged → ∃ v ∈ act.operands, v.target? = some i
  clear : ∀ v ∈ act.operands, k.Clear v
  contents : ∀ i, h.InUse i → k.contents i = act.write i (h.contents i)
  born : ∀ kind a b, act.birth = some (kind, a, b) →
    ∃ r i, answer = some r ∧ r.kind = kind ∧ r.target? = some i ∧ ¬h.InUse i ∧
      k.contents i = (a, b)
  read : ∀ r slot, act.reads = some (r, slot) →
    (r.target? = none → answer = some .nil) ∧
      ∀ i, r.target? = some i → answer = some (slot.pick (h.contents i))

variable {act : Act L} {h k m : Heap L} {i : Nat} {r v a b x y : Ref L} {kind : Kind}
  {answer : Option (Ref L)} {s : Logged (Heap L)}

theorem Effect.inUse_iff (e : Effect act h answer k) :
    k.InUse i ↔ h.InUse i ∨ act.Makes answer i := by
  rw [InUse, InUse, e.collectable, e.fixed]
  cases act.lasting <;> simp only [reduceCtorEq, true_and, false_and, or_false] <;> tauto

theorem Effect.holds (e : Effect act h answer k) (holds : h.Holds v) : k.Holds v :=
  fun j target => e.inUse_iff.mpr (Or.inl (holds j target))

/-- An operation that only promotes. -/
theorem effect_of_promoted (sound : k.Sound) (p : Promoted h k) (noBirth : act.birth = none)
    (noWrite : ∀ i held, act.write i held = held) (clear : ∀ v ∈ act.operands, k.Clear v)
    (left : ∀ i ∈ h.members .aged, i ∉ k.members .aged → ∃ v ∈ act.operands, v.target? = some i)
    (read : ∀ r slot, act.reads = some (r, slot) → (r.target? = none → answer = some .nil) ∧
      ∀ i, r.target? = some i → answer = some (slot.pick (h.contents i))) :
    Effect act h answer k where
  toSameCycle := p.toSameCycle
  sound := sound
  arena := le_of_eq p.arena.symm
  collectable i := by simp [p.collectable_iff, Act.Makes, noBirth]
  fixed i := by simp [p.fixed_iff, Act.Makes, noBirth]
  fresh i := by simp [p.others .fresh (by decide) (by decide), Act.Makes, noBirth]
  aged := p.aged
  left := left
  clear := clear
  contents i _ := by rw [contents_congr (p.slots i), noWrite]
  born kind a b birth := by rw [noBirth] at birth; cases birth
  read := read

/-- An operation that writes one cell and then promotes. -/
theorem effect_of_write (sound : h.Sound) (target : r.target? = some i) (use : h.InUse i)
    (holds : h.Holds v) (slotsHold : h.Collectable i → h.Holds x ∧ h.Holds y)
    (stored : ∀ w ∈ [x, y], w ∈ h.slots i ∨ w = v ∨ w.target? = none)
    (noBirth : act.birth = none) (noRead : act.reads = none)
    (write : ∀ j, act.write j (h.contents j) = if j = i then (x, y) else h.contents j)
    (operands : ∀ w ∈ act.operands, w = r ∨ w = v ∨ w.target? = none)
    (works : ∀ w ∈ [r, v], w ∈ act.operands) :
    Effect act h none ((h.written r i x y).keepTarget v) := by
  have regular : h.Regular r := sound.regular fun j named => by
    rw [target, Option.some.injEq] at named
    exact named ▸ use
  obtain ⟨kept, first, clear⟩ := sound.keepTarget regular
  have use' := first.inUse_iff.mpr use
  have tidy : (h.written r i x y).Tidy := kept.setSlots use' fun on => by
    rw [first.holds_iff, first.holds_iff]
    exact slotsHold (first.collectable_iff.mp on)
  have holds' : (h.written r i x y).Holds v :=
    (holds_setSlots kept.threaded).mpr (first.holds_iff.mpr holds)
  obtain ⟨tidy', second, clear'⟩ := tidy.keepTarget (tidy.regular holds')
  have keptClear : ((h.written r i x y).keepTarget v).Clear r :=
    second.clear ((clear_setSlots kept.threaded).mpr clear)
  have blank : ∀ {w : Ref L}, w.target? = none → ((h.written r i x y).keepTarget v).Clear w :=
    fun none j named => by simp [none] at named
  have filled := slots_setSlots (kept.threaded.inside_of_inUse use').2 x y
  refine
    { toSameCycle := (first.toSameCycle.trans (sameCycle_modifyCell _ _ _)).trans second.toSameCycle
      sound := kept.stored use' second tidy' fun fresh => ?_
      arena := le_of_eq ((second.arena.trans (arena_setSlots _ _ _)).trans first.arena).symm
      collectable := fun j => ?_
      fixed := fun j => ?_
      fresh := fun j => ?_
      aged := fun j on => ?_
      left := fun j was left => ?_
      clear := fun w operand => ?_
      contents := fun j _ => ?_
      born := fun kind a b birth => by rw [noBirth] at birth; cases birth
      read := fun r slot read => by rw [noRead] at read; cases read }
  · have each : ∀ w ∈ [x, y], ((h.written r i x y).keepTarget v).Clear w := by
      intro w slot
      rcases stored w slot with old | rfl | none
      · refine second.clear ((clear_setSlots kept.threaded).mpr (kept.shielded i fresh w ?_))
        rwa [first.slots]
      · exact clear'
      · exact blank none
    exact ⟨each x (by simp), each y (by simp)⟩
  · rw [second.collectable_iff, written, collectable_setSlots kept.threaded, first.collectable_iff]
    simp [Act.Makes, noBirth]
  · rw [second.fixed_iff, written, fixed_setSlots kept.threaded, first.fixed_iff]
    simp [Act.Makes, noBirth]
  · rw [second.others .fresh (by decide) (by decide), written, kept.threaded.members_setSlots,
      first.others .fresh (by decide) (by decide)]
    simp [Act.Makes, noBirth]
  · have := second.aged j on
    rw [written, kept.threaded.members_setSlots] at this
    exact first.aged j this
  · by_cases still : j ∈ (h.keepTarget r).members .aged
    · refine ⟨v, works v (by simp), tidy.keepTarget_left (tidy.regular holds') ?_ left⟩
      rwa [written, kept.threaded.members_setSlots]
    · exact ⟨r, works r (by simp), sound.keepTarget_left regular was still⟩
  · rcases operands w operand with rfl | rfl | none
    · exact keptClear
    · exact clear'
    · exact blank none
  · rw [contents_congr (second.slots j), write]
    split
    · rename_i same
      rw [← slots_eq_iff, written, filled, if_pos same]
    · rename_i other
      refine contents_congr ?_
      rw [written, filled, if_neg other, first.slots]

/-- An operation that hands out a cell and then promotes what the cell holds. -/
theorem effect_of_birth (sound : h.Sound) (tidy : m.Tidy) (birth : Birth h m i a b act.lasting)
    (holdsFirst : h.Holds a) (holdsRest : h.Holds b) (target : r.target? = some i)
    (isKind : r.kind = kind) (made : act.birth = some (kind, a, b)) (noRead : act.reads = none)
    (noWrite : ∀ i held, act.write i held = held) (operands : act.operands = [a, b]) :
    Effect act h (some r) (m.keepBoth a b) := by
  obtain ⟨kept, p, clearFirst, clearRest⟩ := tidy.keepBoth
    (tidy.regular (birth.holds holdsFirst)) (tidy.regular (birth.holds holdsRest))
  have makes : ∀ j, act.Makes (some r) j ↔ j = i := fun j => by
    simp [Act.Makes, made, target, eq_comm]
  refine
    { toSameCycle := birth.toSameCycle.trans p.toSameCycle
      sound := sound.born birth p kept clearFirst clearRest
      arena := by rw [p.arena]; exact birth.arena
      collectable := fun j => by rw [p.collectable_iff, birth.collectable_iff, makes]
      fixed := fun j => by rw [p.fixed_iff, birth.fixed, makes]
      fresh := fun j => by rw [p.others .fresh (by decide) (by decide), birth.fresh, makes]
      left := fun j was left => ?_
      aged := fun j on => by
        have := p.aged j on
        rwa [birth.aged] at this
      clear := fun v operand => ?_
      contents := fun j use => by
        rw [noWrite, contents_congr (p.slots j), contents_congr (birth.slots j (birth.ne use)
          (sound.threaded.inside_of_inUse use).2)]
      born := fun kind' c d same => ?_
      read := fun r slot read => by rw [noRead] at read; cases read }
  · rw [← birth.aged] at was
    have first := tidy.regular (birth.holds holdsFirst)
    by_cases still : j ∈ (m.keepTarget a).members .aged
    · obtain ⟨kept', p', -⟩ := tidy.keepTarget first
      have rest := p'.regular kept' (tidy.regular (birth.holds holdsRest))
      exact ⟨b, by simp [operands], kept'.keepTarget_left rest still left⟩
    · exact ⟨a, by simp [operands], tidy.keepTarget_left first was still⟩
  · rw [operands] at operand
    rcases List.mem_pair.mp operand with rfl | rfl
    · exact clearFirst
    · exact clearRest
  · rw [made, Option.some.injEq, Prod.mk.injEq, Prod.mk.injEq] at same
    obtain ⟨rfl, rfl, rfl⟩ := same
    exact ⟨r, i, rfl, isKind, target, birth.unused,
      by rw [contents_congr (p.slots i), slots_eq_iff.mp birth.filled]⟩

/-- The operation is refused, and then nothing happens, or it is done. -/
def Act.Outcome (act : Act L) (s : Logged (Heap L)) : Prop :=
  (∃ f, act.refusal s.state = some f ∧ act.task s = .error f s) ∨
    act.refusal s.state = none ∧
      ∃ answer k j, act.task s = .ok answer ⟨k, j⟩ ∧ Effect act s.state answer k

/-- An operation with one requirement. -/
theorem Act.outcome_require {allowed : Bool} {f : Fault}
    (refusal : act.refusal s.state = if allowed then none else some f)
    (refused : allowed = false → act.task s = .error f s)
    (done : allowed = true →
      ∃ answer k j, act.task s = .ok answer ⟨k, j⟩ ∧ Effect act s.state answer k) :
    act.Outcome s := by
  cases allowed with
  | false => exact Or.inl ⟨f, refusal, refused rfl⟩
  | true => exact Or.inr ⟨refusal, done rfl⟩

/-- A read of a cell in use. -/
theorem Act.outcome_read {slot : Slot} (sound : s.state.Sound) (holds : s.state.Holds r)
    (operands : act.operands = [r]) (noBirth : act.birth = none)
    (noWrite : ∀ i held, act.write i held = held) (reads : act.reads = some (r, slot))
    (nil : r.target? = none → act.task s = .ok (some .nil) s)
    (reading : ∀ i, r.target? = some i → s.state.InUse i → act.task s =
      .ok (some (slot.pick (s.state.contents i))) ⟨s.state.keepTarget r, s.journal⟩) :
    ∃ answer k j, act.task s = .ok answer ⟨k, j⟩ ∧ Effect act s.state answer k := by
  cases target : r.target? with
  | none =>
    refine ⟨_, _, _, nil target, ?_⟩
    refine effect_of_promoted sound (.refl _) noBirth noWrite (fun v operand => ?_)
      (fun i was left => absurd was left) ?_
    · rw [operands, List.mem_singleton] at operand
      subst operand
      intro j named
      simp [target] at named
    · intro r' slot' same
      rw [reads, Option.some.injEq, Prod.mk.injEq] at same
      obtain ⟨rfl, rfl⟩ := same
      exact ⟨fun _ => rfl, fun i named => by simp [target] at named⟩
  | some i =>
    obtain ⟨kept, p, clear⟩ := sound.keepTarget (sound.regular holds)
    refine ⟨_, _, _, reading i target (holds i target), ?_⟩
    refine effect_of_promoted kept p noBirth noWrite (fun v operand => ?_)
      (fun i was left => ⟨r, by simp [operands], sound.keepTarget_left (sound.regular holds) was left⟩) ?_
    · rw [operands, List.mem_singleton] at operand
      exact operand ▸ clear
    · intro r' slot' same
      rw [reads, Option.some.injEq, Prod.mk.injEq] at same
      obtain ⟨rfl, rfl⟩ := same
      refine ⟨fun none => by simp [target] at none, fun j named => ?_⟩
      rw [target, Option.some.injEq] at named
      rw [named]

/-- A write of a cell in use. -/
theorem Act.outcome_write {f : Ref L × Ref L → Ref L × Ref L} (sound : s.state.Sound)
    (target : r.target? = some i) (use : s.state.InUse i) (holds : s.state.Holds v)
    (stored : ∀ c, ∀ w ∈ [(f c).1, (f c).2], w ∈ [c.1, c.2] ∨ w = v ∨ w.target? = none)
    (noBirth : act.birth = none) (noRead : act.reads = none)
    (write : ∀ j c, act.write j c = if r.target? = some j then f c else c)
    (operands : ∀ w ∈ act.operands, w = r ∨ w = v ∨ w.target? = none)
    (works : ∀ w ∈ [r, v], w ∈ act.operands)
    (writing : act.task s = .ok none ⟨(s.state.written r i (f (s.state.contents i)).1
      (f (s.state.contents i)).2).keepTarget v, s.journal⟩) :
    ∃ answer k j, act.task s = .ok answer ⟨k, j⟩ ∧ Effect act s.state answer k := by
  have slots : s.state.slots i = [(s.state.contents i).1, (s.state.contents i).2] := rfl
  refine ⟨_, _, _, writing, effect_of_write sound target use holds (fun on => ?_)
    (slots ▸ stored _) noBirth noRead (fun j => ?_) operands works⟩
  · have each : ∀ w ∈ [(f (s.state.contents i)).1, (f (s.state.contents i)).2], s.state.Holds w := by
      intro w slot
      rcases stored _ w slot with old | rfl | none
      · exact sound.held i on w (slots ▸ old)
      · exact holds
      · exact fun j named => by simp [none] at named
    exact ⟨each _ (by simp), each _ (by simp)⟩
  · rw [write, target]
    by_cases same : j = i
    · simp [same]
    · simp [same, Ne.symm same]

/-- An operation that hands out a cell, if there is one. -/
theorem Act.outcome_birth {ring : Ring} (sound : s.state.Sound) (holdsFirst : s.state.Holds a)
    (holdsRest : s.state.Holds b) (made : act.birth = some (kind, a, b)) (noRead : act.reads = none)
    (noWrite : ∀ i held, act.write i held = held) (operands : act.operands = [a, b])
    (refusal : act.refusal s.state = if s.state.Short ring then some .arenaExhausted else none)
    (short : s.state.Short ring → act.task s = .error .arenaExhausted s)
    (enough : ¬s.state.Short ring → ∃ i r m j, act.task s = .ok (some r) ⟨m.keepBoth a b, j⟩ ∧
      r.kind = kind ∧ r.target? = some i ∧ m.Tidy ∧ Birth s.state m i a b act.lasting) :
    act.Outcome s := by
  by_cases isShort : s.state.Short ring
  · exact Or.inl ⟨_, refusal.trans (if_pos isShort), short isShort⟩
  · obtain ⟨i, r, m, j, done, isKind, target, tidy, birth⟩ := enough isShort
    exact Or.inr ⟨refusal.trans (if_neg isShort), some r, _, j, done,
      effect_of_birth sound tidy birth holdsFirst holdsRest target isKind made noRead noWrite operands⟩

/-- What a heap's user asks for is either refused, and then nothing happens, or done. -/
theorem Act.outcome (act : Act L) (sound : s.state.Sound)
    (held : ∀ v ∈ act.operands, s.state.Holds v) : act.Outcome s := by
  cases act with
  | cons a b =>
    have holdsFirst := held a (by simp [operands])
    have holdsRest := held b (by simp [operands])
    refine outcome_birth sound holdsFirst holdsRest rfl rfl (fun _ _ => rfl) rfl rfl
      (fun short => ?_) fun enough => ?_
    · simp [task, Task.bind_apply, cons_short sound.toTidy short]
    · obtain ⟨i, r, m, j, made, named, tidy, birth⟩ := cons_ok sound.toTidy holdsFirst holdsRest enough
      obtain ⟨isPair, -, target⟩ := Ref.of_pair named
      exact ⟨i, r, m, j, by simp [task, Task.bind_apply, made], isPair, target birth.positive, tidy, birth⟩
  | perm a b =>
    have holdsFirst := held a (by simp [operands])
    have holdsRest := held b (by simp [operands])
    refine outcome_birth sound holdsFirst holdsRest rfl rfl (fun _ _ => rfl) rfl rfl
      (fun short => ?_) fun enough => ?_
    · simp [task, Task.bind_apply, perm_short sound.toTidy short]
    · obtain ⟨i, r, m, j, made, named, tidy, birth⟩ := perm_ok sound.toTidy holdsFirst holdsRest enough
      obtain ⟨isPair, -, target⟩ := Ref.of_pair named
      exact ⟨i, r, m, j, by simp [task, Task.bind_apply, made], isPair, target birth.positive, tidy, birth⟩
  | actorCell beh st =>
    have holdsFirst := held beh (by simp [operands])
    have holdsRest := held st (by simp [operands])
    cases isFunc : beh.isFunc with
    | false =>
      exact Or.inl ⟨.notFunction beh.value, if_pos isFunc,
        by simp [task, Heap.actorCell, Task.bind_apply, isFunc]⟩
    | true =>
      refine outcome_birth sound holdsFirst holdsRest rfl rfl (fun _ _ => rfl) rfl
        (if_neg (by simp [isFunc])) (fun short => ?_) fun enough => ?_
      · simp [task, Heap.actorCell, Task.bind_apply, isFunc, cons_short sound.toTidy short]
      · obtain ⟨i, p, m, j, made, named, tidy, birth⟩ := cons_ok sound.toTidy holdsFirst holdsRest enough
        obtain ⟨-, cell, -⟩ := Ref.of_pair named
        have inside := (tidy.threaded.inside_of_inUse (birth.inUse_iff.mpr (Or.inr rfl))).2
        obtain ⟨r, renamed⟩ := Ref.actor_ok (L := L) (i := i) (by have := tidy.room; omega)
        obtain ⟨isActor, target⟩ := Ref.of_actor renamed
        exact ⟨i, r, m, j, by simp [task, Heap.actorCell, Task.bind_apply, isFunc, made, cell, renamed],
          isActor, target, tidy, birth⟩
  | first r =>
    refine outcome_require rfl (fun isPair => ?_) fun isPair => outcome_read sound
      (held r (by simp [operands])) rfl rfl (fun _ _ => rfl) rfl (fun none => ?_) fun i target use => ?_
    · simp [task, Heap.first, Task.bind_apply, isPair, Ref.isNil_of_isPair_eq_false isPair]
    · simp [task, Heap.first, Task.bind_apply, Ref.eq_nil_of_isPair isPair none]
    · simp [task, Task.bind_apply, first_apply sound.toTidy isPair target use, Slot.pick, contents]
  | rest r =>
    refine outcome_require rfl (fun isPair => ?_) fun isPair => outcome_read sound
      (held r (by simp [operands])) rfl rfl (fun _ _ => rfl) rfl (fun none => ?_) fun i target use => ?_
    · simp [task, Heap.rest, Task.bind_apply, isPair, Ref.isNil_of_isPair_eq_false isPair]
    · simp [task, Heap.rest, Task.bind_apply, Ref.eq_nil_of_isPair isPair none]
    · simp [task, Task.bind_apply, rest_apply sound.toTidy isPair target use, Slot.pick, contents]
  | behavior r =>
    refine outcome_require rfl (fun isActor => ?_) fun isActor => outcome_read sound
      (held r (by simp [operands])) rfl rfl (fun _ _ => rfl) rfl (fun none => ?_) fun i target use => ?_
    · simp [task, Heap.behavior, Task.bind_apply, isActor]
    · simp [Ref.target?_of_isActor isActor] at none
    · simp [task, Task.bind_apply, behavior_apply sound.toTidy isActor target use, Slot.pick, contents]
  | state r =>
    refine outcome_require rfl (fun isActor => ?_) fun isActor => outcome_read sound
      (held r (by simp [operands])) rfl rfl (fun _ _ => rfl) rfl (fun none => ?_) fun i target use => ?_
    · simp [task, Heap.state, Task.bind_apply, isActor]
    · simp [Ref.target?_of_isActor isActor] at none
    · simp [task, Task.bind_apply, state_apply sound.toTidy isActor target use, Slot.pick, contents]
  | setFirst r v =>
    have holds := held v (by simp [operands])
    refine outcome_require rfl (fun isCons => ?_) fun isCons => ?_
    · simp [task, Heap.setFirst, Task.bind_apply, isCons]
    · have target := Ref.target?_of_isCons isCons
      have use := held r (by simp [operands]) _ target
      refine outcome_write (f := fun c => (v, c.2)) sound target use holds (fun c => by simp) rfl rfl
        (fun _ _ => rfl) (by simp [operands]) (by simp [operands]) ?_
      simp [task, Task.bind_apply, setFirst_apply sound.toTidy isCons target use rfl holds, contents]
  | setRest r v =>
    have holds := held v (by simp [operands])
    refine outcome_require rfl (fun isCons => ?_) fun isCons => ?_
    · simp [task, Heap.setRest, Task.bind_apply, isCons]
    · have target := Ref.target?_of_isCons isCons
      have use := held r (by simp [operands]) _ target
      refine outcome_write (f := fun c => (c.1, v)) sound target use holds (fun c => by simp) rfl rfl
        (fun _ _ => rfl) (by simp [operands]) (by simp [operands]) ?_
      simp [task, Task.bind_apply, setRest_apply sound.toTidy isCons target use rfl holds, contents]
  | setActor r beh st =>
    have holds := held st (by simp [operands])
    cases isActor : r.isActor with
    | false =>
      exact Or.inl ⟨.misuse .become r.value, by simp [refusal, isActor],
        by simp [task, Heap.setActor, Task.bind_apply, isActor]⟩
    | true =>
      refine outcome_require (if_neg (by simp [isActor])) (fun isFunc => ?_) fun isFunc => ?_
      · simp [task, Heap.setActor, Task.bind_apply, isActor, isFunc]
      · have target := Ref.target?_of_isActor isActor
        have use := held r (by simp [operands]) _ target
        have blank := Ref.target?_of_isFunc isFunc
        refine outcome_write (f := fun _ => (beh, st)) sound target use holds (fun c => by simp [blank])
          rfl rfl (fun _ _ => rfl) (by simp [operands, blank]) (by simp [operands]) ?_
        simp [task, Task.bind_apply, setActor_apply sound.toTidy isActor isFunc target use holds]
  | scanValue r =>
    have regular := sound.regular (held r (by simp [operands]))
    obtain ⟨kept, p, clear⟩ := sound.keepTarget regular
    refine Or.inr ⟨rfl, none, _, s.journal, ?_, effect_of_promoted kept p rfl (fun _ _ => rfl) ?_
      (fun i was left => ⟨r, by simp [operands], sound.keepTarget_left regular was left⟩) ?_⟩
    · simp [task, Task.bind_apply, scanValue_apply sound.threaded regular]
    · simpa [operands] using clear
    · intro r slot read
      cases read

end Treadmill

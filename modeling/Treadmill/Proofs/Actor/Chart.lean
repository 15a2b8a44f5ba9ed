import Mathlib
import Treadmill.Proofs.Interning
import Treadmill.Proofs.World.Countdown
import Treadmill.Proofs.World.Live

/-!
What the ordinary cells of a world hold, and what each of them is for (`Chart`). Behaviors make new cells and
write to cells of certain roles alone; whatever stands in other cells stays (`Later`). A collection leaves the
chart as it is.
-/

namespace Treadmill.Heap
variable {L : Layout} {h : Heap L} {r : Ref L} {i : Nat} {n : Int}

theorem plain_of_collectable (target : r.target? = some i) (on : h.Collectable i) : h.Plain r :=
  fun _ named => Option.some.inj (target.symm.trans named) ▸ on

theorem plain_nil : h.Plain .nil := plain_of_target? Ref.target?_nil

theorem plain_atom (name : UInt32) : h.Plain (.atom name) := plain_of_target? (Ref.target?_atom name)

theorem plain_number (isNumber : Ref.number n = .ok r) : h.Plain r :=
  plain_of_target? (Ref.of_number isNumber).1

end Treadmill.Heap

namespace Treadmill.World
open Heap (Holding plain_of_collectable)
variable {L : Layout} {α γ β : Type}

/-- The two that count seconds together. -/
inductive Part
  | ticker
  | counter
deriving DecidableEq

/-- What a cell is for. -/
inductive Role
  /-- It holds one of the two. -/
  | plays (x : Part)
  /-- It holds the second in the message that wakes the ticker up. -/
  | clock
  /-- It holds an actor that carries a collection on. -/
  | tracer
  /-- It is written once. -/
  | other
deriving DecidableEq

/-- What each cell holds as long as it is in use, and what it is for. -/
structure Chart (L : Layout) where
  holds : Nat → Ref L × Ref L
  role : Nat → Role

/-- The names that the ticker and its counter use. -/
def vocabulary : List String := ["count", "sec", "time", "text", "from", "op", "stop"]

/-- The world has its books in order, its ordinary cells hold what the chart says, and no name but those of
the ticker has been entered. -/
structure Charted (c : Chart L) (b : Books L) (w : World L α γ) : Prop where
  kept : Kept (careful c.holds) b w
  names : ∃ seen, w.symbols.Filled seen ∧ ∀ name ∈ seen, name ∈ vocabulary

/-- `u` has come of `w`: no cell has been lost, and none that was in use then has been written to, unless it
has one of the roles `W`. -/
structure Later (W : Set Role) (c : Chart L) (w : World L α γ) (c' : Chart L) (u : World L α γ) : Prop where
  collectable : ∀ i, w.heap.Collectable i → u.heap.Collectable i
  role : ∀ i, w.heap.Collectable i → c'.role i = c.role i
  holds : ∀ i, w.heap.Collectable i → c.role i ∉ W → c'.holds i = c.holds i
  symbols : w.symbols.Extends u.symbols
  broadens : w.Broadens u
  guest : u.guest = w.guest

variable {W : Set Role} {c c' c'' : Chart L} {b b' : Books L} {w u v : World L α γ} {s : Logged (World L α γ)}
  {act : Act L} {answer : Option (Ref L)} {h k o : Heap L} {stored : Nat → Ref L × Ref L} {i j : Nat}
  {a r x y state : Ref L} {kind : Kind} {role : Role} {name : String} {failed : Fault → World L α γ → Prop}

namespace Later

theorem refl (W : Set Role) (c : Chart L) (w : World L α γ) : Later W c w c w :=
  ⟨fun _ => id, fun _ _ => rfl, fun _ _ _ => rfl, .refl _, fun _ _ => id, rfl⟩

theorem trans (first : Later W c w c' u) (second : Later W c' u c'' v) : Later W c w c'' v where
  collectable i on := second.collectable i (first.collectable i on)
  role i on := (second.role i (first.collectable i on)).trans (first.role i on)
  holds i on other := by
    have other' : c'.role i ∉ W := by rwa [first.role i on]
    exact (second.holds i (first.collectable i on) other').trans (first.holds i on other)
  symbols := first.symbols.trans second.symbols
  broadens n known found := second.broadens n known (first.broadens n known found)
  guest := second.guest.trans first.guest

theorem mono {W' : Set Role} (later : Later W c w c' u) (fewer : W ⊆ W') : Later W' c w c' u :=
  { later with holds := fun i on other => later.holds i on fun written => other (fewer written) }

/-- Where nothing has been written, no cell of any role has been. -/
theorem wide (later : Later ∅ c w c' u) : Later W c w c' u := later.mono (Set.empty_subset W)

theorem plain (later : Later W c w c' u) (plain : w.heap.Plain r) : u.heap.Plain r :=
  fun i target => later.collectable i (plain i target)

end Later

/-! ### Work on ordinary cells -/

/-- An operation on ordinary cells that makes none that is permanent. -/
theorem Charted.acted (charted : Charted c b w) (effect : Effect act w.heap answer k) (passing : act.lasting = false)
    (plain : ∀ v ∈ act.operands, w.heap.Plain v) (role : Nat → Role) :
    Charted ⟨act.store answer c.holds, role⟩ b { w with heap := k } where
  kept := by
    refine charted.kept.passing (.acted effect) (fun i own writes => ?_) ?_
      (fun v on => (charted.kept.stock.kept v on).acted effect) (charted.kept.stock.stands.acted effect plain)
    · obtain ⟨v, on, target⟩ := Op.mem_writes writes
      exact Heap.not_fixed_of_collectable (plain v on i target) (charted.kept.stock.fixed (Books.own_cells own))
    · cases act <;> first | rfl | cases passing
  names := charted.names

theorem Later.acted (effect : Effect act w.heap answer k) (roles : ∀ i, w.heap.Collectable i → c'.role i = c.role i)
    (holds : ∀ i, w.heap.Collectable i → c.role i ∉ W → c'.holds i = c.holds i) :
    Later W c w c' { w with heap := k } where
  collectable i on := (effect.collectable i).mpr (Or.inl on)
  role := roles
  holds := holds
  symbols := .refl _
  broadens _ _ := id
  guest := rfl

/-- The task of an operation on ordinary cells, which is refused or done. -/
theorem Charted.acts (charted : Charted c b s.state) {t : HeapTask L β} {f : β → Option (Ref L)} (act : Act L)
    (same : act.task = do return f (← t)) (plain : ∀ v ∈ act.operands, s.state.heap.Plain v) :
    (onHeap t).Ends s
      (fun a u => ∃ k, u = { s.state with heap := k } ∧ Effect act s.state.heap (f a) k)
      (fun fault u => act.refusal s.state.heap = some fault ∧ u = s.state) := by
  rcases act.outcome (s := ⟨s.state.heap, s.journal⟩) charted.kept.stock.sound fun v on => (plain v on).holds with
    ⟨fault, refusal, refused⟩ | ⟨-, answer, k, j, done, effect⟩
  · rw [same] at refused
    rcases Task.bind_eq_error.mp refused with refused | ⟨_, _, -, refused⟩
    · exact Task.ends_of_error (onHeap_error refused) ⟨refusal, rfl⟩
    · cases refused
  · rw [same] at done
    obtain ⟨a, u, ran, last⟩ := Task.bind_eq_ok.mp done
    obtain ⟨rfl, rfl⟩ : f a = answer ∧ u = ⟨k, j⟩ := by simpa using last
    exact Task.ends_of_ok (onHeap_ok ran) ⟨k, rfl, effect⟩

/-- What comes of a new cell with `x` and `y` in it that is to have this role. -/
structure Born (c : Chart L) (b : Books L) (w : World L α γ) (role : Role) (x y : Ref L) (i : Nat)
    (c' : Chart L) (u : World L α γ) : Prop where
  charted : Charted c' b u
  later : Later ∅ c w c' u
  new : ¬w.heap.Collectable i
  old : u.heap.Collectable i
  role : c'.role i = role
  holds : c'.holds i = (x, y)

theorem Charted.born (charted : Charted c b w) (effect : Effect act w.heap answer k) (passing : act.lasting = false)
    (plain : ∀ v ∈ act.operands, w.heap.Plain v) (birth : act.birth = some (kind, x, y)) (role : Role) :
    ∃ r i c', answer = some r ∧ r.kind = kind ∧ r.target? = some i ∧
      Born c b w role x y i c' { w with heap := k } := by
  obtain ⟨r, i, rfl, isKind, target, unused, -⟩ := effect.born kind x y birth
  have new : ∀ j, w.heap.Collectable j → j ≠ i := fun j on same => unused (same ▸ Or.inl on)
  have makes : act.Makes (some r) i := ⟨by simp [birth], r, rfl, target⟩
  refine ⟨r, i, _, rfl, isKind, target,
    { charted := charted.acted effect passing plain (Function.update c.role i role)
      later := .acted effect (fun j on => Function.update_of_ne (new j on) _ _) fun j on _ => ?_
      new := fun on => new i on rfl
      old := (effect.collectable i).mpr (Or.inr ⟨passing, makes⟩)
      role := Function.update_self _ _ _
      holds := ?_ }⟩
  · exact (Act.store_of_birth birth).trans (if_neg fun same => new j on (Option.some.inj (same.symm.trans target)))
  · exact (Act.store_of_birth birth).trans (if_pos target)

/-- An operation that makes no cell and writes to none. -/
theorem Charted.read (charted : Charted c b w) (effect : Effect act w.heap answer k) (passing : act.lasting = false)
    (plain : ∀ v ∈ act.operands, w.heap.Plain v) (birth : act.birth = none)
    (writes : ∀ i held, act.write i held = held) :
    Charted c b { w with heap := k } ∧ Later ∅ c w c { w with heap := k } := by
  have acted := charted.acted effect passing plain c.role
  have same : act.store answer c.holds = c.holds := funext fun i => by rw [Act.store_of_no_birth birth, writes]
  rw [same] at acted
  exact ⟨acted, .acted effect (fun _ _ => rfl) fun _ _ _ => rfl⟩

theorem cons_ends (charted : Charted c b s.state) (plainX : s.state.heap.Plain x)
    (plainY : s.state.heap.Plain y) (role : Role) : (onHeap (Heap.cons x y)).Ends s
      (fun r u => ∃ i c', r.Points i ∧ Born c b s.state role x y i c' u) NoRoom := by
  have plain : ∀ v ∈ (Act.cons x y).operands, s.state.heap.Plain v := by simpa [Act.operands] using ⟨plainX, plainY⟩
  refine (charted.acts (f := some) (.cons x y) rfl plain).mono ?_ ?_
  · rintro r u ⟨k, rfl, effect⟩
    obtain ⟨q, i, c', same, isPair, target, born⟩ := charted.born effect rfl plain rfl role
    obtain rfl := Option.some.inj same
    exact ⟨i, c', ⟨by simp [Ref.isPair, isPair], target⟩, born⟩
  · rintro fault u ⟨refusal, rfl⟩
    obtain ⟨⟨-, full⟩, rfl⟩ : s.state.heap.Short .free ∧ .arenaExhausted = fault := by
      simpa [Act.refusal] using refusal
    exact Or.inl ⟨rfl, full⟩

/-- The state of an actor is read. -/
theorem state_ends (charted : Charted c b s.state) (isActor : a.isActor = true)
    (target : a.target? = some i) (on : s.state.heap.Collectable i) : (onHeap (Heap.state a)).Ends s
      (fun r u => r = (c.holds i).2 ∧ Charted c b u ∧ Later ∅ c s.state c u) failed := by
  have plain : ∀ v ∈ (Act.state a).operands, s.state.heap.Plain v := by
    intro v operand
    obtain rfl : v = a := by simpa [Act.operands] using operand
    exact plain_of_collectable target on
  refine (charted.acts (f := some) (.state a) rfl plain).mono ?_ ?_
  · rintro r u ⟨k, rfl, effect⟩
    have answered := (effect.read a .rest rfl).2 i target
    rw [(charted.kept.stock.stands i on).2] at answered
    exact ⟨Option.some.inj answered, charted.read effect rfl plain rfl fun _ _ => rfl⟩
  · rintro fault u ⟨refusal, -⟩
    simp [Act.refusal, isActor] at refusal

/-- The first slot of a pair is read. -/
theorem first_ends (charted : Charted c b s.state) (points : r.Points i)
    (on : s.state.heap.Collectable i) : (onHeap (Heap.first r)).Ends s
      (fun v u => v = (c.holds i).1 ∧ Charted c b u ∧ Later ∅ c s.state c u) failed := by
  have plain : ∀ v ∈ (Act.first r).operands, s.state.heap.Plain v := by
    intro v operand
    obtain rfl : v = r := by simpa [Act.operands] using operand
    exact plain_of_collectable points.2 on
  refine (charted.acts (f := some) (.first r) rfl plain).mono ?_ ?_
  · rintro v u ⟨k, rfl, effect⟩
    have answered := (effect.read r .first rfl).2 i points.2
    rw [(charted.kept.stock.stands i on).2] at answered
    exact ⟨Option.some.inj answered, charted.read effect rfl plain rfl fun _ _ => rfl⟩
  · rintro fault u ⟨refusal, -⟩
    simp [Act.refusal, points.1] at refusal

/-- What comes of writing `x` and `y` to the cell `i`. -/
structure Wrote (W : Set Role) (c : Chart L) (b : Books L) (w : World L α γ) (x y : Ref L) (i : Nat) (c' : Chart L)
    (u : World L α γ) : Prop where
  charted : Charted c' b u
  later : Later W c w c' u
  role : c'.role = c.role
  holds : c'.holds = Function.update c.holds i (x, y)

theorem Charted.wrote (charted : Charted c b w) (effect : Effect act w.heap answer k) (passing : act.lasting = false)
    (plain : ∀ v ∈ act.operands, w.heap.Plain v) (allowed : c.role i ∈ W)
    (writes : act.store answer c.holds = Function.update c.holds i (x, y)) :
    ∃ c', Wrote W c b w x y i c' { w with heap := k } := by
  refine ⟨_,
    { charted := charted.acted effect passing plain c.role
      later := .acted effect (fun _ _ => rfl) fun j _ other => ?_
      role := rfl
      holds := writes }⟩
  exact (congrFun writes j).trans (Function.update_of_ne (fun same : j = i => other (same ▸ allowed)) _ _)

theorem setRest_ends (charted : Charted c b s.state) (points : r.Points i) (on : s.state.heap.Collectable i)
    (plainY : s.state.heap.Plain y) (allowed : c.role i ∈ W) : (onHeap (Heap.setRest r y)).Ends s
      (fun _ u => ∃ c', Wrote W c b s.state (c.holds i).1 y i c' u) failed := by
  have plain : ∀ v ∈ (Act.setRest r y).operands, s.state.heap.Plain v := by
    intro v operand
    obtain rfl | rfl : v = r ∨ v = y := by simpa [Act.operands] using operand
    · exact plain_of_collectable points.2 on
    · exact plainY
  refine (charted.acts (f := fun _ => none) (.setRest r y) rfl plain).mono ?_ ?_
  · rintro - u ⟨k, rfl, effect⟩
    refine charted.wrote effect rfl plain allowed (funext fun j => ?_)
    rw [Act.store_of_no_birth rfl, Act.write, points.2, Function.update_apply]
    simp only [Option.some.injEq, eq_comm (a := i)]
    split <;> simp_all
  · rintro fault u ⟨refusal, -⟩
    simp [Act.refusal, points.isCons] at refusal

/-! ### Names -/

theorem nodup_eraseDups (names : List String) : names.eraseDups.Nodup := by
  induction names using List.reverseRecOn with
  | nil => exact List.nodup_nil
  | append_singleton names name ih =>
    rw [Symbols.eraseDups_concat]
    split
    · exact ih
    · rename_i new
      have apart := List.disjoint_singleton.mpr fun on => new (List.mem_eraseDups.mp on)
      exact ih.append (List.nodup_singleton name) apart

theorem vocabulary_short {seen : List String} (known : ∀ name ∈ seen, name ∈ vocabulary) :
    seen.eraseDups.length ≤ 2 ^ 32 := by
  have subset : seen.eraseDups ⊆ vocabulary := fun name on => known name (List.mem_eraseDups.mp on)
  have most : seen.eraseDups.length ≤ vocabulary.length :=
    ((nodup_eraseDups seen).subperm subset).length_le
  exact most.trans (by decide)

/-- A name of the vocabulary always has an atom. -/
theorem atom_ends (charted : Charted c b s.state) (known : name ∈ vocabulary) :
    (World.atom name).Ends s
      (fun r u => ∃ id, r = .atom id ∧ u.symbols.find? name = some id ∧ Charted c b u ∧ Later ∅ c s.state c u)
      failed := by
  obtain ⟨seen, filled, all⟩ := charted.names
  have all' : ∀ other ∈ seen ++ [name], other ∈ vocabulary := by simpa [or_imp, forall_and] using ⟨all, known⟩
  obtain ⟨id, table, interned, filled'⟩ := filled.intern (vocabulary_short all')
  obtain ⟨found, extends', -⟩ := filled.regular.intern interned
  have same := atom_apply name s
  rw [interned] at same
  refine Task.ends_of_ok same ⟨id, rfl, found, ⟨?_, seen ++ [name], filled', all'⟩, ?_⟩
  · exact charted.kept.beside ⟨rfl, rfl, rfl, rfl, rfl, rfl, rfl, rfl, rfl, rfl, rfl, rfl⟩
  · exact { Later.refl ∅ c s.state with symbols := extends' }

/-- The table of behaviors has got longer. -/
theorem Charted.grown (charted : Charted c b w) (grown : w.Grown u) : Charted c b u ∧ Later ∅ c w c u := by
  obtain ⟨broadens, table, rfl⟩ := grown
  exact ⟨⟨charted.kept.retabled table, charted.names⟩, { Later.refl ∅ c w with broadens }⟩

/-! ### Actors -/

variable {known : Behavior α}

/-- The reference `a` names an actor, in the cell `i`, with this behavior and state. -/
structure Serving (c : Chart L) (w : World L α γ) (a : Ref L) (i : Nat) (known : Behavior α) (state : Ref L) :
    Prop where
  isActor : a.isActor = true
  target : a.target? = some i
  holds : ∃ f, c.holds i = (f, state) ∧ w.Means f known

theorem Serving.later (serving : Serving c w a i known state) (later : Later W c w c' u)
    (on : w.heap.Collectable i) (other : c.role i ∉ W) : Serving c' u a i known state := by
  obtain ⟨f, holds, means⟩ := serving.holds
  exact ⟨serving.isActor, serving.target, f, (later.holds i on other).trans holds, means.broadened later.broadens⟩

/-- The state of an actor that is in use is, too. -/
theorem Serving.plain (serving : Serving c w a i known state) (charted : Charted c b w)
    (on : w.heap.Collectable i) : w.heap.Plain state := by
  obtain ⟨f, holds, -⟩ := serving.holds
  obtain ⟨slots, same⟩ := charted.kept.stock.stands i on
  refine slots state ?_
  rw [Heap.slots_eq, same, holds]
  simp

/-- It can be seen which actor it is. -/
theorem Serving.visible (serving : Serving c w a i known state) (charted : Charted c b w)
    (on : w.heap.Collectable i) : w.behaviorAt? a = some known ∧ w.stateAt? a = some state := by
  obtain ⟨f, holds, means⟩ := serving.holds
  have same := (charted.kept.stock.stands i on).2.trans holds
  exact ⟨Means.behaviorAt? (by rwa [same]) serving.target, by simp [stateAt?, serving.target, same]⟩

variable [DecidableEq α]

/-- What comes of a new actor. -/
structure Hired (c : Chart L) (b : Books L) (w : World L α γ) (role : Role) (known : Behavior α)
    (state a : Ref L) (i : Nat) (c' : Chart L) (u : World L α γ) : Prop where
  serving : Serving c' u a i known state
  charted : Charted c' b u
  later : Later ∅ c w c' u
  new : ¬w.heap.Collectable i
  old : u.heap.Collectable i
  role : c'.role i = role

theorem hire_ends (charted : Charted c b s.state) (plain : s.state.heap.Plain state) (role : Role)
    (known : Behavior α) : (createActor known state).Ends s
      (fun a u => ∃ i c', Hired c b s.state role known state a i c' u) NoRoom := by
  refine Task.Ends.bind ((function_ends known).mono (fun _ _ => id) fun _ _ failed => Or.inr failed.2) ?_
  rintro f u ⟨means, grown⟩
  obtain ⟨charted', later⟩ := charted.grown grown
  have noCell := Ref.target?_of_isFunc means.isFunc
  have plain' : ∀ v ∈ (Act.actorCell f state).operands, u.state.heap.Plain v := by
    simpa [Act.operands] using ⟨Heap.plain_of_target? noCell, later.plain plain⟩
  refine (charted'.acts (f := some) (.actorCell f state) rfl plain').mono ?_ ?_
  · rintro a v ⟨k, rfl, effect⟩
    obtain ⟨q, i, c', same, isKind, target, born⟩ := charted'.born effect rfl plain' rfl role
    obtain rfl := Option.some.inj same
    exact ⟨i, c',
      { serving := ⟨by simp [Ref.isActor, isKind], target, f, born.holds, means.broadened fun _ _ => id⟩
        charted := born.charted
        later := later.trans born.later
        new := fun on => born.new (later.collectable i on)
        old := born.old
        role := born.role }⟩
  · rintro fault v ⟨refusal, rfl⟩
    obtain ⟨⟨-, full⟩, rfl⟩ : u.state.heap.Short .free ∧ .arenaExhausted = fault := by
      simpa [Act.refusal, means.isFunc] using refusal
    exact Or.inl ⟨rfl, full⟩

/-- What comes of an actor that gets another behavior and state. -/
structure Became (W : Set Role) (c : Chart L) (b : Books L) (w : World L α γ) (known : Behavior α)
    (state : Ref L) (i : Nat) (c' : Chart L) (u : World L α γ) : Prop where
  charted : Charted c' b u
  later : Later W c w c' u
  old : ∀ j, u.heap.Collectable j → w.heap.Collectable j
  role : c'.role = c.role
  holds : ∃ f, c'.holds = Function.update c.holds i (f, state) ∧ u.Means f known

theorem become_ends (charted : Charted c b s.state) (isActor : a.isActor = true) (target : a.target? = some i)
    (on : s.state.heap.Collectable i) (plain : s.state.heap.Plain state) (allowed : c.role i ∈ W)
    (known : Behavior α) : (becomeActor a known state).Ends s
      (fun _ u => ∃ c', Became W c b s.state known state i c' u) NoRoom := by
  refine Task.Ends.bind ((function_ends known).mono (fun _ _ => id) fun _ _ failed => Or.inr failed.2) ?_
  rintro f u ⟨means, grown⟩
  obtain ⟨charted', later⟩ := charted.grown grown
  have noCell := Ref.target?_of_isFunc means.isFunc
  have plain' : ∀ v ∈ (Act.setActor a f state).operands, u.state.heap.Plain v := by
    have own : u.state.heap.Plain a := plain_of_collectable target (later.collectable i on)
    simpa [Act.operands] using ⟨own, Heap.plain_of_target? noCell, later.plain plain⟩
  refine (charted'.acts (f := fun _ => none) (.setActor a f state) rfl plain').mono ?_ ?_
  · rintro - v ⟨k, rfl, effect⟩
    obtain ⟨c', wrote⟩ := charted'.wrote (x := f) (y := state) effect rfl plain' allowed (funext fun j => by
      rw [Act.store_of_no_birth rfl, Act.write, target, Function.update_apply]
      simp only [Option.some.injEq, eq_comm (a := i)])
    have old : ∀ j, k.Collectable j → s.state.heap.Collectable j := fun j on => by
      rcases (effect.collectable j).mp on with on | ⟨-, makes⟩
      · obtain ⟨table, same⟩ := grown.same
        rwa [same] at on
      · simp [Act.Makes, Act.birth] at makes
    exact ⟨c', wrote.charted, later.wide.trans wrote.later, old, wrote.role, f, wrote.holds,
      means.broadened fun _ _ => id⟩
  · rintro fault v ⟨refusal, -⟩
    simp [Act.refusal, isActor, means.isFunc] at refusal

end Treadmill.World

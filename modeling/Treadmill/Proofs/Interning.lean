import Mathlib
import Treadmill.Proofs.Symbols
import Treadmill.Proofs.World.Handling

/-!
Names that are interned one after another. They are numbered in the order in which they first appear, names
and numbers lead to one another, and what is interned later changes nothing of that (`Symbols.Interned`).
A world does nothing else with its table, whatever it is asked to do (`World.Interns`), so any two of its
atoms are the same just when their names are (`World.Interns.atom_eq_iff`).
-/

namespace Treadmill

namespace Symbols
variable {t u v : Symbols} {name : String} {seen names more : List String} {id : UInt32}

/-- The numbers of names that are interned one after another, and the table after that. -/
def internAll (t : Symbols) : List String → Except Fault (List UInt32 × Symbols)
  | [] => .ok ([], t)
  | name :: names => do
    let (id, u) ← t.intern name
    let (ids, v) ← u.internAll names
    return (id :: ids, v)

/-- The table holds these names, each of them where it first appeared, and they lead to their numbers. -/
structure Filled (t : Symbols) (names : List String) : Prop where
  order : t.names.toList = names.eraseDups
  inverse : ∀ name id, t.name? id = some name ↔ t.find? name = some id
  narrow : t.size ≤ 2 ^ 32

/-! ### One name after another -/

theorem internAll_cons {ids : List UInt32} : t.internAll (name :: names) = .ok (ids, v) ↔
    ∃ id rest u, t.intern name = .ok (id, u) ∧ u.internAll names = .ok (rest, v) ∧ id :: rest = ids := by
  rw [internAll]
  cases interned : t.intern name with
  | error f => simp [bind, Except.bind]
  | ok found =>
    obtain ⟨id, u⟩ := found
    dsimp only [bind, Except.bind]
    cases others : u.internAll names with
    | error f => simp [others]
    | ok rest =>
      obtain ⟨ids', w⟩ := rest
      simp [others, pure, Except.pure, and_comm]

theorem internAll_append {ids : List UInt32} : t.internAll (names ++ more) = .ok (ids, v) ↔
    ∃ first rest u, t.internAll names = .ok (first, u) ∧ u.internAll more = .ok (rest, v) ∧
      first ++ rest = ids := by
  induction names generalizing t ids with
  | nil => simp [internAll]
  | cons name names ih =>
    simp only [List.cons_append, internAll_cons, ih]
    constructor
    · rintro ⟨id, _, u, interned, ⟨first, rest, w, others, later, rfl⟩, rfl⟩
      exact ⟨id :: first, rest, w, ⟨id, first, u, interned, others, rfl⟩, later, rfl⟩
    · rintro ⟨_, rest, w, ⟨id, first, u, interned, others, rfl⟩, later, rfl⟩
      exact ⟨id, first ++ rest, u, interned, ⟨first, rest, w, others, later, rfl⟩, rfl⟩

theorem eraseDups_concat (names : List String) (name : String) :
    (names ++ [name]).eraseDups = if name ∈ names then names.eraseDups else names.eraseDups ++ [name] := by
  rw [List.eraseDups_append]
  split <;> simp_all [List.removeAll, List.eraseDups_cons]

theorem length_eraseDups_le (names more : List String) :
    names.eraseDups.length ≤ (names ++ more).eraseDups.length := by
  rw [List.eraseDups_append]
  simp

theorem filled_empty : empty.Filled [] where
  order := rfl
  inverse name id := by simp [name?, empty, find?]
  narrow := by simp

namespace Filled
variable (filled : t.Filled seen)
include filled

theorem regular : t.Regular := fun name id found => (filled.inverse name id).mpr found

theorem size : t.size = seen.eraseDups.length := by
  rw [← filled.order, Array.length_toList]
  rfl

theorem name?_eq (id : UInt32) : t.name? id = seen.eraseDups[id.toNat]? := by
  rw [← filled.order, Array.getElem?_toList]
  rfl

theorem find?_eq_none_iff : t.find? name = none ↔ name ∉ seen := by
  rw [← List.mem_eraseDups, ← not_iff_not, not_not]
  constructor
  · intro known
    obtain ⟨id, found⟩ := Option.ne_none_iff_exists'.mp known
    exact List.mem_of_getElem? (filled.name?_eq id ▸ filled.regular name id found)
  · intro on
    obtain ⟨i, here⟩ := List.mem_iff_getElem?.mp on
    have inside : i < 2 ^ 32 :=
      ((List.getElem?_eq_some_iff.mp here).1.trans_eq filled.size.symm).trans_le filled.narrow
    have back : (UInt32.ofNat i).toNat = i := UInt32.toNat_ofNat_of_lt' inside
    rw [← back, ← filled.name?_eq, filled.inverse] at here
    simp [here]

theorem enter (new : name ∉ seen) (room : t.size < 2 ^ 32) : (t.enter name).Filled (seen ++ [name]) where
  order := by rw [eraseDups_concat, if_neg new, ← filled.order, Symbols.enter, Array.toList_push]
  inverse other id := by
    constructor
    · intro named
      rw [find?_enter]
      rw [name?, Symbols.enter, Array.getElem?_push] at named
      split at named
      · rename_i last
        have same : UInt32.ofNat t.size = id := by rw [Symbols.size, ← last, UInt32.ofNat_toNat]
        rw [if_pos (Option.some.inj named), same]
      · have found := (filled.inverse other id).mp named
        rw [if_neg, found]
        rintro rfl
        simp [filled.find?_eq_none_iff.mpr new] at found
    · exact filled.regular.enter room other id
  narrow := by
    rw [size_enter]
    exact room

/-- A name that is interned stands behind the others, unless it stands among them. -/
theorem intern (room : (seen ++ [name]).eraseDups.length ≤ 2 ^ 32) :
    ∃ id u, t.intern name = .ok (id, u) ∧ u.Filled (seen ++ [name]) := by
  rw [intern_eq]
  by_cases known : name ∈ seen
  · obtain ⟨id, found⟩ := Option.ne_none_iff_exists'.mp (mt filled.find?_eq_none_iff.mp (not_not.mpr known))
    refine ⟨id, t, by rw [found], ?_, filled.inverse, filled.narrow⟩
    rw [eraseDups_concat, if_pos known, filled.order]
  · rw [eraseDups_concat, if_neg known, List.length_append, ← filled.size] at room
    have room : t.size < 2 ^ 32 := room
    refine ⟨UInt32.ofNat t.size, t.enter name, ?_, filled.enter known room⟩
    rw [filled.find?_eq_none_iff.mpr known]
    exact if_pos room

theorem internAll (room : (seen ++ names).eraseDups.length ≤ 2 ^ 32) :
    ∃ ids u, t.internAll names = .ok (ids, u) ∧ u.Filled (seen ++ names) ∧ Extends t u ∧
      List.Forall₂ (fun name id => u.find? name = some id) names ids := by
  induction names generalizing t seen with
  | nil => exact ⟨[], t, rfl, by rwa [List.append_nil], .refl t, .nil⟩
  | cons name names ih =>
    rw [List.append_cons] at room ⊢
    obtain ⟨id, u, interned, entered⟩ := filled.intern ((length_eraseDups_le _ names).trans room)
    obtain ⟨found, grown, -⟩ := filled.regular.intern interned
    obtain ⟨ids, v, others, later, kept, all⟩ := ih entered room
    exact ⟨id :: ids, v, internAll_cons.mpr ⟨id, ids, u, interned, others, rfl⟩, later, grown.trans kept,
      .cons (kept name id found) all⟩

end Filled

/-! ### A new table -/

/-- What is true of a new table `t` in which `names` have been interned, and of the numbers they were given. -/
structure Interned (t : Symbols) (names : List String) (ids : List UInt32) : Prop where
  /-- The names are numbered in the order in which they first appear. -/
  name : ∀ id, t.name? id = names.eraseDups[id.toNat]?
  size : t.size = names.eraseDups.length
  /-- So one that is new gets the number of different names before it. -/
  fresh : ∀ before name after, names = before ++ name :: after → name ∉ before →
    ids[before.length]?.map UInt32.toNat = some before.eraseDups.length
  inverse : ∀ name id, t.name? id = some name ↔ t.find? name = some id
  defined : ∀ id, (t.name? id).isSome = true ↔ id.toNat < t.size
  /-- Every number that was given out still leads to its name, and is found for it. -/
  found : List.Forall₂ (fun name id => t.find? name = some id) names ids
  /-- Two names have the same number just when they are the same. -/
  same : ∀ (i j : Nat) (n m : String) (a b : UInt32), names[i]? = some n → names[j]? = some m →
    ids[i]? = some a → ids[j]? = some b →
    (a = b ↔ n = m)
  /-- Whatever is interned later changes none of the answers. -/
  grows : ∀ more, (names ++ more).eraseDups.length ≤ 2 ^ 32 → ∃ rest u,
    empty.internAll (names ++ more) = .ok (ids ++ rest, u) ∧ t.Extends u ∧
      ∀ name id, t.name? id = some name → u.name? id = some name

theorem Regular.internAll {ids : List UInt32} (regular : t.Regular) (ran : t.internAll names = .ok (ids, u)) :
    Extends t u ∧ u.Regular := by
  induction names generalizing t ids with
  | nil =>
    cases ran
    exact ⟨.refl _, regular⟩
  | cons name names ih =>
    obtain ⟨id, rest, v, interned, others, -⟩ := internAll_cons.mp ran
    obtain ⟨-, grown, regular⟩ := regular.intern interned
    obtain ⟨kept, regular⟩ := ih regular others
    exact ⟨grown.trans kept, regular⟩

theorem answered {ids : List UInt32} {i : Nat} (found : List.Forall₂ (fun name id => t.find? name = some id) names ids)
    (isName : names[i]? = some name) (isId : ids[i]? = some id) : t.find? name = some id := by
  obtain ⟨inside, rfl⟩ := List.getElem?_eq_some_iff.mp isName
  obtain ⟨inside', rfl⟩ := List.getElem?_eq_some_iff.mp isId
  exact (List.forall₂_iff_get.mp found).2 i inside inside'

theorem Filled.interned {ids : List UInt32} (filled : t.Filled names) (ran : empty.internAll names = .ok (ids, t))
    (found : List.Forall₂ (fun name id => t.find? name = some id) names ids) : t.Interned names ids where
  name := filled.name?_eq
  size := filled.size
  fresh before name after split new := by
    have here : names.eraseDups[before.eraseDups.length]? = some name := by
      rw [split, List.append_cons, List.eraseDups_append, eraseDups_concat, if_neg new, List.append_assoc,
        List.getElem?_append_right le_rfl, Nat.sub_self]
      rfl
    have inside : before.eraseDups.length < 2 ^ 32 :=
      ((List.getElem?_eq_some_iff.mp here).1.trans_eq filled.size.symm).trans_le filled.narrow
    have back : (UInt32.ofNat before.eraseDups.length).toNat = before.eraseDups.length :=
      UInt32.toNat_ofNat_of_lt' inside
    rw [← back, ← filled.name?_eq, filled.inverse] at here
    have stands : before.length < ids.length := by simp [← found.length_eq, split]
    have isName : names[before.length]? = some name := by simp [split]
    have given := answered found isName (List.getElem?_eq_getElem stands)
    rw [here, Option.some.injEq] at given
    rw [List.getElem?_eq_getElem stands, ← given, Option.map_some, back]
  inverse := filled.inverse
  defined id := by
    rw [filled.name?_eq, filled.size, Option.isSome_iff_ne_none, ne_eq, List.getElem?_eq_none_iff, not_le]
  found := found
  same i j n m a b isName isName' isId isId' := by
    have first := answered found isName isId
    have second := answered found isName' isId'
    constructor
    · rintro rfl
      exact filled.regular.injective first second
    · rintro rfl
      exact Option.some.inj (first.symm.trans second)
  grows more room := by
    obtain ⟨rest, u, others, later, kept, -⟩ := filled.internAll room
    refine ⟨rest, u, internAll_append.mpr ⟨ids, rest, t, ran, others, rfl⟩, kept, fun name id named => ?_⟩
    exact later.regular name id (kept name id ((filled.inverse name id).mp named))

/-- As long as there are enough numbers, interning never fails, and names and numbers stay in step. -/
theorem internAll_empty (room : names.eraseDups.length ≤ 2 ^ 32) :
    ∃ ids t, empty.internAll names = .ok (ids, t) ∧ t.Filled names ∧ t.Interned names ids := by
  obtain ⟨ids, t, ran, filled, -, found⟩ := filled_empty.internAll room
  exact ⟨ids, t, ran, filled, filled.interned ran found⟩

end Symbols

/-! ### The table of a world -/

variable {L : Layout} {α γ β : Type}

theorem Ref.atom_injective : Function.Injective (Ref.atom : UInt32 → Ref L) := by
  intro id id' same
  have fields := congrArg field same
  simp only [atom, field_make] at fields
  exact UInt32.toUInt64_inj.mp fields

namespace World
open Treadmill.Task (Passage Noting Passes)
variable {s u v w : Logged (World L α γ)} {name other : String} {a b : Ref L}

/-- Some names have been interned on the way from `s` to `u`, and the table has changed in no other way. -/
def Interns (s u : Logged (World L α γ)) : Prop :=
  ∃ names ids, s.state.symbols.internAll names = .ok (ids, u.state.symbols)

theorem interns_of_same (same : u.state.symbols = s.state.symbols) : Interns s u := ⟨[], [], by rw [same]; rfl⟩

instance : Passage (Interns (L := L) (α := α) (γ := γ)) where
  stay _ := interns_of_same rfl
  join := by
    rintro s t u ⟨names, ids, first⟩ ⟨more, rest, second⟩
    exact ⟨names ++ more, ids ++ rest, Symbols.internAll_append.mpr ⟨ids, rest, _, first, second, rfl⟩⟩

instance : Noting (Interns (L := L) (α := α) (γ := γ)) := ⟨fun _ _ => interns_of_same rfl⟩

namespace Interns

instance (priority := low) steady {t : WorldTask L α γ β} [steady : Steady t] : Passes Interns t :=
  ⟨fun s => interns_of_same (congrArg Setup.symbols (steady.setup s))⟩

instance alter {heap : World L α γ → Heap L} {behaviors : World L α γ → Array (Behavior α)}
    {mailFirst mailLast inDelivery timers roots pool : World L α γ → Ref L}
    {pending capacity delayed poolUsed poolMax delivered : World L α γ → Nat} {now : World L α γ → Moment}
    {traced : World L α γ → Bool} {guest : World L α γ → γ} :
    Passes Interns (Task.alter fun w : World L α γ => ⟨heap w, w.symbols, behaviors w, mailFirst w, mailLast w,
      pending w, capacity w, inDelivery w, timers w, delayed w, roots w, pool w, poolUsed w, poolMax w,
      delivered w, now w, traced w, guest w⟩) := ⟨fun _ => interns_of_same rfl⟩

theorem of_atom (made : atom name s = .ok a u) :
    ∃ id, s.state.symbols.intern name = .ok (id, u.state.symbols) ∧ a = .atom id := by
  rw [atom_apply] at made
  split at made
  · rename_i id table interned
    cases made
    exact ⟨id, interned, rfl⟩
  · cases made

instance atom (name : String) : Passes Interns (World.atom name : WorldTask L α γ (Ref L)) where
  along s := by
    cases made : World.atom name s with
    | ok a u =>
      obtain ⟨id, interned, -⟩ := of_atom made
      exact ⟨[name], [id], Symbols.internAll_cons.mpr ⟨id, [], _, interned, rfl, rfl⟩⟩
    | error f u =>
      rw [atom_apply] at made
      split at made
      · cases made
      · cases made
        exact interns_of_same rfl

end Interns

/-! ### What is asked of a world -/

section
variable [DecidableEq α] {known : Behavior α} {state actor r : Ref L} {n budget : Int}

instance : Passes Interns (shown r : WorldTask L α γ String) := by unfold shown; infer_instance

instance : Passes Interns (World.function known : WorldTask L α γ (Ref L)) := by
  unfold World.function
  refine Passes.after inferInstance fun known => ?_
  split <;> infer_instance

instance : Passes Interns (createActor known state : WorldTask L α γ (Ref L)) := by
  unfold createActor; infer_instance

instance : Passes Interns (becomeActor actor known state : WorldTask L α γ Unit) := by
  unfold becomeActor; infer_instance

end

end World

namespace Actor
open Treadmill.Task (Passes)
open World (Interns)
variable [DecidableEq α] {map val sec time op : Ref L} {key : String} {d : Delivery L} {n : Int}

instance : Passes Interns (lookup map key : WorldTask L α γ (Ref L)) := by unfold lookup; infer_instance

instance : Passes Interns (bind map key val : WorldTask L α γ (Ref L)) := by unfold bind; infer_instance

instance : Passes Interns (reportError d : WorldTask L α γ Unit) := by unfold reportError; infer_instance

instance : Passes Interns (retire d : WorldTask L α γ Unit) := by unfold retire; infer_instance

instance : Passes Interns (check d : WorldTask L α γ Unit) := by
  unfold check
  iterate 5 refine Passes.after inferInstance fun _ => ?_
  infer_instance

instance : Passes Interns (trace d : WorldTask L α γ Unit) := by unfold trace; infer_instance

instance : Passes Interns (textOf d : WorldTask L α γ String) := by
  unfold textOf
  refine Passes.after inferInstance fun text => Passes.after inferInstance fun name => ?_
  split <;> infer_instance

instance : Passes Interns (printText d : WorldTask L α γ Unit) := by unfold printText; infer_instance

instance : Passes Interns (printLine d : WorldTask L α γ Unit) := by unfold printLine; infer_instance

instance : Passes Interns (hello d : WorldTask L α γ Unit) := by
  unfold hello
  iterate 5 refine Passes.after inferInstance fun _ => ?_
  infer_instance

instance : Passes Interns (countdown d : WorldTask L α γ Unit) := by
  unfold countdown
  iterate 2 refine Passes.after inferInstance fun _ => ?_
  infer_instance

instance : Passes Interns (eachSecond d : WorldTask L α γ Unit) := by
  unfold eachSecond
  iterate 7 refine Passes.after inferInstance fun _ => ?_
  infer_instance

instance : Passes Interns (noticeSecond d sec time : WorldTask L α γ Unit) := by
  unfold noticeSecond
  iterate 2 refine Passes.after inferInstance fun _ => ?_
  infer_instance

instance : Passes Interns (rewind d : WorldTask L α γ Unit) := by unfold rewind; infer_instance

instance : Passes Interns (obey d op : WorldTask L α γ Unit) := by unfold obey; infer_instance

instance : Passes Interns (ticker d : WorldTask L α γ Unit) := by
  unfold ticker
  iterate 2 refine Passes.after inferInstance fun _ => ?_
  infer_instance

end Actor

namespace World
open Treadmill.Task (Passage Noting Passes)
variable [DecidableEq α] {s u v w : Logged (World L α γ)} {name other : String} {a b : Ref L} {host : Host L α γ}
  {names : List String} {ids : List UInt32}

theorem act_interns (works : ∀ name d, Passes Interns (host name d)) (b : Behavior α) (d : Delivery L) :
    Passes Interns (act host b d) := by
  cases b with
  | host name => exact works name d
  | sink | reportError | check | trace | printText | printLine | hello | countdown | eachSecond | ticker =>
    unfold act; infer_instance

theorem dispatch_interns (works : ∀ name d, Passes Interns (host name d)) :
    Passes Interns (dispatch host : WorldTask L α γ Bool) := by
  have acts := act_interns works
  have delivers : ∀ entry, Passes Interns (deliver host entry) := fun entry => by unfold deliver; infer_instance
  unfold dispatch
  refine Passes.after inferInstance fun _ => ?_
  split <;> infer_instance

/-- Whatever is delivered, names are interned and nothing else is done to the table, if that holds of what the
host does. -/
theorem run_interns (works : ∀ name d, Passes Interns (host name d)) (clock : Nat → γ → Moment) (budget : Int) :
    Passes Interns (run host clock budget) := by
  have dispatches := dispatch_interns works
  have runs : ∀ left attempts, Passes Interns (runFrom host clock attempts left) := by
    intro left
    induction left with
    | zero => intro attempts; unfold runFrom; infer_instance
    | succ left ih =>
      intro attempts
      have refreshes : Passes Interns (refresh clock attempts : WorldTask L α γ Unit) := by
        unfold refresh; infer_instance
      unfold runFrom
      iterate 2 refine Passes.after inferInstance fun _ => ?_
      infer_instance
  unfold run
  infer_instance

/-! ### Atoms -/

omit [DecidableEq α] in
/-- Two atoms of a world are the same just when their names are. -/
theorem Interns.atom_eq_iff (regular : s.state.symbols.Regular) (first : World.atom name s = .ok a u)
    (later : Interns u v) (second : World.atom other v = .ok b w) : a = b ↔ name = other := by
  obtain ⟨id, interned, rfl⟩ := of_atom first
  obtain ⟨id', interned', rfl⟩ := of_atom second
  obtain ⟨names, ids, between⟩ := later
  obtain ⟨found, -, regular⟩ := regular.intern interned
  obtain ⟨grown, regular⟩ := regular.internAll between
  obtain ⟨found', grown', regular⟩ := regular.intern interned'
  have still := grown' name id (grown name id found)
  rw [Ref.atom_injective.eq_iff]
  constructor
  · rintro rfl
    exact regular.injective still found'
  · rintro rfl
    exact Option.some.inj (still.symm.trans found')

omit [DecidableEq α] in
theorem atom_interned (ran : Symbols.empty.internAll names = .ok (ids, s.state.symbols))
    (room : (names ++ [name]).eraseDups.length ≤ 2 ^ 32) : ∃ id table,
      Symbols.empty.internAll (names ++ [name]) = .ok (ids ++ [id], table) ∧
        atom name s = .ok (.atom id) ⟨{ s.state with symbols := table }, s.journal⟩ := by
  obtain ⟨ids', t, ran', filled, -⟩ := Symbols.internAll_empty ((Symbols.length_eraseDups_le names [name]).trans room)
  obtain ⟨rfl, rfl⟩ : ids = ids' ∧ s.state.symbols = t := by simpa [ran] using ran'
  obtain ⟨id, table, interned, -⟩ := filled.intern room
  refine ⟨id, table, ?_, by rw [atom_apply, interned]⟩
  exact Symbols.internAll_append.mpr
    ⟨ids, [id], _, ran, Symbols.internAll_cons.mpr ⟨id, [], _, interned, rfl, rfl⟩, rfl⟩

/-- What interning comes to, in a table of its own and in that of a world. -/
structure Interning (L : Layout) (α γ : Type) [DecidableEq α] : Prop where
  /-- Interning names in a new table never fails as long as there are enough numbers. -/
  table : ∀ names : List String, names.eraseDups.length ≤ 2 ^ 32 →
    ∃ ids t, Symbols.empty.internAll names = .ok (ids, t) ∧ t.Interned names ids
  /-- An atom is made by interning its name. -/
  atom : ∀ names ids name (s : Logged (World L α γ)),
    Symbols.empty.internAll names = .ok (ids, s.state.symbols) → (names ++ [name]).eraseDups.length ≤ 2 ^ 32 →
      ∃ id table, Symbols.empty.internAll (names ++ [name]) = .ok (ids ++ [id], table) ∧
        World.atom name s = .ok (.atom id) ⟨{ s.state with symbols := table }, s.journal⟩
  /-- Any two atoms that are made after each other in a world that was new at `start` are the same just when
  their names are. -/
  same : ∀ (start s u v w : Logged (World L α γ)) name other a b, start.state.symbols = .empty → Interns start s →
    World.atom name s = .ok a u → Interns u v → World.atom other v = .ok b w → (a = b ↔ name = other)
  /-- In between messages may be delivered, by behaviors of a host too that do nothing else with the table. -/
  runs : ∀ (host : Host L α γ) clock budget, (∀ name d, Passes Interns (host name d)) →
    Passes Interns (run host clock budget)

theorem interning (L : Layout) (α γ : Type) [DecidableEq α] : Interning L α γ where
  table names room := by
    obtain ⟨ids, t, ran, -, interned⟩ := Symbols.internAll_empty room
    exact ⟨ids, t, ran, interned⟩
  atom names ids name s := atom_interned
  same start s u v w name other a b new begun := by
    obtain ⟨names, ids, ran⟩ := begun
    rw [new] at ran
    exact Interns.atom_eq_iff (Symbols.regular_empty.internAll ran).2
  runs host clock budget works := run_interns works clock budget

/-- A name that comes again keeps its number, and the empty name is one like any other. -/
theorem interning_repeated : ∃ t : Symbols, Symbols.empty.internAll ["b", "", "b"] = .ok ([0, 1, 0], t) ∧
    t.size = 2 ∧ t.name? 0 = some "b" ∧ t.name? 1 = some "" ∧ t.name? 2 = none := by
  have different : ["b", "", "b"].eraseDups = ["b", ""] := by decide
  obtain ⟨ids, t, ran, interned⟩ := (interning .twoLow Empty Unit).table ["b", "", "b"] (by simp [different])
  obtain ⟨x, y, z, rfl⟩ := List.length_eq_three.mp interned.found.length_eq.symm
  have first := interned.fresh [] "b" ["", "b"] rfl (by simp)
  have second := interned.fresh ["b"] "" ["b"] rfl (by simp)
  obtain rfl : x = 0 := UInt32.toNat_inj.mp (by simpa using first)
  obtain rfl : y = 1 := UInt32.toNat_inj.mp (by simpa [List.eraseDups_cons] using second)
  obtain rfl : 0 = z := (interned.same 0 2 "b" "b" 0 z rfl rfl rfl rfl).mpr rfl
  refine ⟨t, ran, by rw [interned.size, different]; rfl, ?_, ?_, ?_⟩ <;> rw [interned.name, different] <;> rfl

end World

end Treadmill

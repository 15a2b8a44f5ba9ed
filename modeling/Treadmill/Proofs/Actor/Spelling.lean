import Mathlib
import Treadmill.Proofs.Actor.Chart
import Treadmill.Proofs.Data.Lookup
import Treadmill.Actor.Basic

/-!
Maps whose keys are names (`Spelled`), in a world with a chart. A name is looked up as what the map says
(`lookup_ends`), and to bind one makes two cells (`bind_ends`).
-/

namespace Treadmill.World
open Heap (Maps Intact Leads plain_of_collectable plain_atom)
variable {L : Layout} {α γ : Type} {c c' : Chart L} {b : Books L} {w u : World L α γ}
  {s : Logged (World L α γ)} {h k : Heap L} {t t' : Symbols} {stored stored' : Nat → Ref L × Ref L} {r v : Ref L}
  {cells : List Nat} {entries : List (String × Ref L)} {name : String} {failed : Fault → World L α γ → Prop}
  {i : Nat} {id : UInt32}

/-- The map `r`, made of these cells, binds these names: the first binding of a name counts. -/
inductive Spelled (t : Symbols) (stored : Nat → Ref L × Ref L) : Ref L → List Nat → List (String × Ref L) → Prop
  | nil : Spelled t stored .nil [] []
  | bind {r p map v : Ref L} {i j : Nat} {name : String} {id : UInt32} {cells : List Nat}
      {entries : List (String × Ref L)} (rest : Spelled t stored map cells entries) (points : r.Points i)
      (node : stored i = (p, map)) (binding : p.Points j) (bound : stored j = (.atom id, v))
      (named : t.find? name = some id) : Spelled t stored r (i :: j :: cells) ((name, v) :: entries)

namespace Spelled

theorem congr (spelled : Spelled t stored r cells entries) (same : ∀ i ∈ cells, stored' i = stored i)
    (grown : t.Extends t') : Spelled t' stored' r cells entries := by
  induction spelled with
  | nil => exact .nil
  | bind rest points node binding bound named ih =>
    exact .bind (ih fun i on => same i (by simp [on])) points ((same _ (by simp)).trans node) binding
      ((same _ (by simp)).trans bound) (grown _ _ named)

/-- All that a map is made of can be reclaimed if the map can. -/
theorem plain (spelled : Spelled t stored r cells entries) (holding : h.Holding stored) (plain : h.Plain r) :
    (∀ i ∈ cells, h.Collectable i) ∧ ∀ e ∈ entries, h.Plain e.2 := by
  induction spelled with
  | nil => simp
  | @bind r p map v i j name id cells entries rest points node binding bound named ih =>
    have on := plain i points.2
    have slots : h.Plain p ∧ h.Plain map := by simpa [Heap.slots_eq, (holding i on).2, node] using (holding i on).1
    have on' := slots.1 j binding.2
    have value : h.Plain v := by
      have both := (holding j on').1
      rw [Heap.slots_eq, (holding j on').2, bound] at both
      exact both v (by simp)
    obtain ⟨others, values⟩ := ih slots.2
    exact ⟨by simpa using ⟨on, on', others⟩, by simpa using ⟨value, by simpa using values⟩⟩

end Spelled

/-- What a plain reference leads to is in use. -/
theorem intact_of_plain (holding : h.Holding stored) (plain : h.Plain r) : h.Intact r := by
  intro v met
  suffices h.Plain v from this.holds
  induction met with
  | refl => exact plain
  | tail _ branch ih =>
    obtain ⟨-, i, target, slot⟩ := branch
    refine (holding i (ih i target)).1 _ ?_
    rw [Heap.slots_eq]
    rcases slot with rfl | rfl <;> simp

/-- A spelled map is one that can be looked up. -/
theorem Spelled.maps (spelled : Spelled t stored r cells entries) (holding : h.Holding stored) (plain : h.Plain r)
    (regular : t.Regular) : ∃ spine, h.Maps r spine ∧
      ∀ name id, t.find? name = some id → h.value? spine (.atom id) = entries.lookup name := by
  induction spelled with
  | nil => exact ⟨[], Heap.maps_nil, fun _ _ _ => rfl⟩
  | @bind r p map v i j name id cells entries rest points node binding bound named ih =>
    have on := plain i points.2
    have contents := (holding i on).2.trans node
    have slots : h.Plain p ∧ h.Plain map := by simpa [Heap.slots_eq, contents] using (holding i on).1
    obtain ⟨spine, maps, found⟩ := ih slots.2
    have filled : h.parts p = (.atom id, v) := by
      rw [Heap.parts_of_points binding, (holding j (slots.1 j binding.2)).2, bound]
    refine ⟨i :: spine, maps.cons (intact_of_plain holding plain) points contents binding.isCons, ?_⟩
    intro other id' named'
    rw [Heap.value?_eq_bound?, Heap.entries_cons, contents, filled, Heap.bound?, List.find?_cons, List.lookup_cons]
    by_cases same : other = name
    · subst same
      obtain rfl : id = id' := Option.some.inj (named.symm.trans named')
      simp
    · have differs : (.atom id : Ref L) ≠ .atom id' := fun equal =>
        same (regular.injective named' (Ref.atom_injective equal ▸ named))
      have unequal : (other == name) = false := by simpa using same
      rw [← found other id' named', Heap.value?_eq_bound?, Heap.bound?]
      simp [differs, unequal]

/-- What is only read stays charted. -/
theorem Charted.reading (charted : Charted c b w) (read : Heap.Read w.heap k) :
    Charted c b { w with heap := k } ∧ Later ∅ c w c { w with heap := k } := by
  have collectable : ∀ i, k.Collectable i ↔ w.heap.Collectable i := fun i => read.promoted.collectable_iff
  have plain : ∀ v, w.heap.Plain v → k.Plain v := fun v plain i target => (collectable i).mpr (plain i target)
  have kept := charted.kept
  have stock : Stock (careful c.holds) b.cells b.refs k :=
    { sound := read.sound
      distinct := kept.stock.distinct
      own := fun i => read.promoted.fixed_iff.trans (kept.stock.own i)
      kept := fun v on =>
        ⟨plain v (kept.stock.kept v on).1, fun i target danger =>
          (kept.stock.kept v on).2 i target (read.promoted.aged i danger)⟩
      stands := fun i on => by
        obtain ⟨slots, same⟩ := kept.stock.stands i ((collectable i).mp on)
        refine ⟨fun v slot => plain v (slots v ?_), (read.contents i).trans same⟩
        rwa [read.promoted.slots] at slot }
  refine ⟨⟨kept.withHeap stock fun i _ => read.contents i, charted.names⟩, ?_⟩
  exact { Later.refl ∅ c w with collectable := fun i on => (collectable i).mpr on }

/-- A name is looked up as what the map binds it to. -/
theorem lookup_ends (charted : Charted c b s.state)
    (spelled : Spelled s.state.symbols c.holds r cells entries) (plain : s.state.heap.Plain r)
    (known : name ∈ vocabulary) : (Actor.lookup r name).Ends s
      (fun v u => v = (entries.lookup name).getD .nil ∧ Charted c b u ∧ Later ∅ c s.state c u) failed := by
  refine (atom_ends charted known).bind ?_
  rintro key u ⟨id, rfl, found, charted, later⟩
  obtain ⟨seen, filled, -⟩ := charted.names
  obtain ⟨spine, maps, values⟩ := (spelled.congr (fun _ _ => rfl) later.symbols).maps charted.kept.stock.stands
    (later.plain plain) filled.regular
  obtain ⟨k, ran, read⟩ := Heap.mapGet?_apply (s := ⟨u.state.heap, u.journal⟩) maps
    (.refl charted.kept.stock.sound) (.atom id)
  have got : Data.mapGetD r (.atom id) .nil ⟨u.state.heap, u.journal⟩ =
      .ok ((entries.lookup name).getD .nil) ⟨k, u.journal⟩ := by
    rw [Data.mapGetD, Task.bind_of_ok ran, values name id found, Task.pure_apply]
  obtain ⟨charted', later'⟩ := charted.reading read
  exact Task.ends_of_ok (onHeap_ok got) ⟨rfl, charted', later.trans later'⟩

/-- What comes of binding a name in a map. -/
structure Bound (c : Chart L) (b : Books L) (w : World L α γ) (role : Role) (name : String) (v : Ref L)
    (cells : List Nat) (entries : List (String × Ref L)) (i j : Nat) (r : Ref L) (c' : Chart L) (u : World L α γ) :
    Prop where
  charted : Charted c' b u
  later : Later ∅ c w c' u
  new : ¬w.heap.Collectable i ∧ ¬w.heap.Collectable j
  plain : u.heap.Plain r
  spelled : Spelled u.symbols c'.holds r (i :: j :: cells) ((name, v) :: entries)
  role : c'.role i = .other ∧ c'.role j = role

/-- The map gets two cells, of which the one that holds the value may have a role of its own. -/
theorem put_ends (charted : Charted c b s.state) (spelled : Spelled s.state.symbols c.holds r cells entries)
    (plain : s.state.heap.Plain r) (plainV : s.state.heap.Plain v) (found : s.state.symbols.find? name = some id)
    (role : Role) : (onHeap (Data.mapPut r (.atom id) v)).Ends s
      (fun q u => ∃ i j c', Bound c b s.state role name v cells entries i j q c' u) NoRoom := by
  have isPair : r.isPair = true := by
    cases spelled with
    | nil => simp [Ref.isPair]
    | bind _ points => exact points.1
  rw [Data.mapPut, isPair, Task.require_true, pure_bind, onHeap_bind]
  refine (cons_ends charted (plain_atom id) plainV role).bind ?_
  rintro p s₁ ⟨j, c₁, binding, born₁⟩
  have plain₁ : s₁.state.heap.Plain p := plain_of_collectable binding.2 born₁.old
  refine (cons_ends born₁.charted plain₁ (born₁.later.plain plain) .other).mono ?_ fun _ _ failed => failed
  rintro q u ⟨i, c', points, born₂⟩
  have old := (spelled.plain charted.kept.stock.stands plain).1
  have later := born₁.later.trans born₂.later
  have kept : ∀ n ∈ cells, c'.holds n = c.holds n := fun n on => later.holds n (old n on) (Set.notMem_empty _)
  have bound : c'.holds j = (.atom id, v) :=
    (born₂.later.holds j born₁.old (Set.notMem_empty _)).trans born₁.holds
  exact ⟨i, j, c',
    { charted := born₂.charted
      later
      new := ⟨fun on => born₂.new (born₁.later.collectable i on), born₁.new⟩
      plain := plain_of_collectable points.2 born₂.old
      spelled := .bind (spelled.congr kept later.symbols) points born₂.holds binding bound (later.symbols _ _ found)
      role := ⟨born₂.role, (born₂.later.role j born₁.old).trans born₁.role⟩ }⟩

theorem bind_ends (charted : Charted c b s.state)
    (spelled : Spelled s.state.symbols c.holds r cells entries) (plain : s.state.heap.Plain r)
    (plainV : s.state.heap.Plain v) (known : name ∈ vocabulary) (role : Role) :
    (Actor.bind r name v).Ends s
      (fun q u => ∃ i j c', Bound c b s.state role name v cells entries i j q c' u) NoRoom := by
  refine (atom_ends charted known).bind ?_
  rintro key s₁ ⟨id, rfl, found, charted₁, later₁⟩
  refine (put_ends charted₁ (spelled.congr (fun _ _ => rfl) later₁.symbols) (later₁.plain plain) (later₁.plain plainV)
    found role).mono ?_ fun _ _ failed => failed
  rintro q u ⟨i, j, c', bound⟩
  exact ⟨i, j, c',
    { bound with
      later := later₁.trans bound.later
      new := ⟨fun on => bound.new.1 (later₁.collectable i on), fun on => bound.new.2 (later₁.collectable j on)⟩ }⟩

end Treadmill.World

import Mathlib
import Treadmill.Proofs.Heap.Barrier

/-!
Values spread out as trees. A value unfolds to a finite tree exactly when no pair that is met on the
way down is met again below itself (`unfolds_iff_acyclic`), and then no way down is longer than there
are cells (`Unfolds.depth_le`).
-/

namespace Treadmill

/-- A value spread out: a pair other than the empty list has two branches, and everything else is a
leaf that stands for itself. -/
inductive Tree (L : Layout)
  | leaf (r : Ref L)
  | node (first rest : Tree L)

/-- The most nodes on a way from the root to a leaf. -/
def Tree.depth {L : Layout} : Tree L → Nat
  | leaf _ => 0
  | node first rest => max first.depth rest.depth + 1

namespace Heap
open Relation (ReflTransGen TransGen)
variable {L : Layout} {h k : Heap L} {r v w : Ref L} {i : Nat} {t u : Tree L}

/-- The finite tree that a value unfolds to. -/
inductive Unfolds (h : Heap L) : Ref L → Tree L → Prop
  | leaf {r : Ref L} (notCons : r.isCons = false) : Unfolds h r (.leaf r)
  | node {r : Ref L} {i : Nat} {a b : Tree L} (isCons : r.isCons = true) (target : r.target? = some i)
      (first : Unfolds h (h.contents i).1 a) (rest : Unfolds h (h.contents i).2 b) :
      Unfolds h r (.node a b)

/-- The value `v` stands in a slot of the pair `r`. -/
def Branches (h : Heap L) (r v : Ref L) : Prop :=
  r.isCons = true ∧ ∃ i, r.target? = some i ∧ (v = (h.contents i).1 ∨ v = (h.contents i).2)

/-- No pair that is met as `r` is unfolded is met again below itself. -/
def Acyclic (h : Heap L) (r : Ref L) : Prop :=
  ∀ v, ReflTransGen h.Branches r v → ¬TransGen h.Branches v v

/-- Every pair that is met as `r` is unfolded is in use. -/
def Spans (h : Heap L) (r : Ref L) : Prop :=
  ∀ v, ReflTransGen h.Branches r v → v.isCons = true → h.Holds v

/-! ### Trees -/

theorem Unfolds.of_isCons (unfolds : h.Unfolds r t) (isCons : r.isCons = true)
    (target : r.target? = some i) : ∃ a b, t = .node a b ∧ h.Unfolds (h.contents i).1 a ∧
      h.Unfolds (h.contents i).2 b := by
  cases unfolds with
  | leaf notCons => simp [isCons] at notCons
  | node _ target' first rest =>
    obtain rfl := Option.some.inj (target'.symm.trans target)
    exact ⟨_, _, rfl, first, rest⟩

theorem Unfolds.unique (unfolds : h.Unfolds r t) (other : h.Unfolds r u) : u = t := by
  induction unfolds generalizing u with
  | leaf notCons =>
    cases other with
    | leaf => rfl
    | node isCons => simp [isCons] at notCons
  | node isCons target _ _ first rest =>
    obtain ⟨a, b, rfl, one, two⟩ := other.of_isCons isCons target
    rw [first one, rest two]

theorem Unfolds.congr (unfolds : h.Unfolds r t) (same : ∀ i, k.contents i = h.contents i) :
    k.Unfolds r t := by
  induction unfolds with
  | leaf notCons => exact .leaf notCons
  | node isCons target _ _ first rest =>
    exact .node isCons target (by rwa [same]) (by rwa [same])

theorem unfolds_congr (same : ∀ i, k.contents i = h.contents i) : k.Unfolds r t ↔ h.Unfolds r t :=
  ⟨fun unfolds => unfolds.congr fun i => (same i).symm, fun unfolds => unfolds.congr same⟩

/-! ### Branches -/

theorem branches_first (isCons : r.isCons = true) (target : r.target? = some i) :
    h.Branches r (h.contents i).1 := ⟨isCons, i, target, Or.inl rfl⟩

theorem branches_rest (isCons : r.isCons = true) (target : r.target? = some i) :
    h.Branches r (h.contents i).2 := ⟨isCons, i, target, Or.inr rfl⟩

theorem branches_congr (same : ∀ i, k.contents i = h.contents i) : k.Branches = h.Branches := by
  funext r v
  simp only [Branches, same]

theorem Spans.branch (spans : h.Spans r) (branch : h.Branches r v) : h.Spans v :=
  fun w met => spans w (.head branch met)

/-- The pairs that are met stand in any list that has the slots of each of its pairs. -/
theorem spans_of_mem {values : List (Ref L)} (on : r ∈ values) (holds : ∀ v ∈ values, h.Holds v)
    (closed : ∀ v ∈ values, ∀ i ∈ v.target?, (h.contents i).1 ∈ values ∧ (h.contents i).2 ∈ values) :
    h.Spans r := by
  intro v met isCons
  refine holds v ?_
  clear isCons
  induction met with
  | refl => exact on
  | tail _ branch ih =>
    obtain ⟨-, i, target, rfl | rfl⟩ := branch
    · exact (closed _ ih i target).1
    · exact (closed _ ih i target).2

theorem Spans.holds (spans : h.Spans r) (isCons : r.isCons = true) : h.Holds r :=
  spans r .refl isCons

/-- A pair that is unfolded has a slot whose tree is part of its own. -/
theorem Unfolds.branch (unfolds : h.Unfolds r t) (branch : h.Branches r v) :
    ∃ u, h.Unfolds v u ∧ u.depth < t.depth := by
  obtain ⟨isCons, i, target, slot⟩ := branch
  obtain ⟨a, b, rfl, first, rest⟩ := unfolds.of_isCons isCons target
  simp only [Tree.depth]
  rcases slot with rfl | rfl
  · exact ⟨a, first, by omega⟩
  · exact ⟨b, rest, by omega⟩

/-! ### Finite trees -/

instance : Finite (Ref L) :=
  Finite.of_injective (fun r : Ref L => (⟨r.word.toNat, r.word.toNat_lt⟩ : Fin (2 ^ 64)))
    fun _ _ same => Ref.ext (UInt64.toNat_inj.mp (Fin.mk.inj same))

/-- The way down from a value that does not run in circles comes to an end: there are only so many
words that can be met on it. -/
theorem Acyclic.unfolds (acyclic : h.Acyclic r) : ∃ t, h.Unfolds r t := by
  let below (w v : Ref L) : Prop := ReflTransGen h.Branches r v ∧ TransGen h.Branches v w
  have : IsTrans (Ref L) below := ⟨fun a b c first next => ⟨next.1, next.2.trans first.2⟩⟩
  have : Std.Irrefl below := ⟨fun v circle => acyclic v circle.1 circle.2⟩
  have founded : WellFounded below := Finite.wellFounded_of_trans_of_irrefl below
  suffices all : ∀ v, ReflTransGen h.Branches r v → ∃ t, h.Unfolds v t from all r .refl
  intro v
  induction v using founded.induction with
  | _ v ih =>
    intro met
    cases isCons : v.isCons with
    | false => exact ⟨_, .leaf isCons⟩
    | true =>
      have target := Ref.target?_of_isCons isCons
      have spread : ∀ w, h.Branches v w → ∃ t, h.Unfolds w t := fun w branch =>
        ih w ⟨met, .single branch⟩ (met.tail branch)
      obtain ⟨a, first⟩ := spread _ (branches_first isCons target)
      obtain ⟨b, rest⟩ := spread _ (branches_rest isCons target)
      exact ⟨_, .node isCons target first rest⟩

theorem Unfolds.acyclic (unfolds : h.Unfolds r t) : h.Acyclic r := by
  have shallower : ∀ {v w : Ref L}, TransGen h.Branches v w → ∀ t, h.Unfolds v t →
      ∃ u, h.Unfolds w u ∧ u.depth < t.depth := by
    intro v w path
    induction path with
    | single branch => exact fun t unfolds => unfolds.branch branch
    | tail _ branch ih =>
      intro t unfolds
      obtain ⟨u, unfolds, less⟩ := ih t unfolds
      obtain ⟨x, unfolds, less'⟩ := unfolds.branch branch
      exact ⟨x, unfolds, by omega⟩
  intro v met circle
  obtain ⟨u, unfolds⟩ : ∃ u, h.Unfolds v u := by
    rcases Relation.reflTransGen_iff_eq_or_transGen.mp met with rfl | path
    · exact ⟨t, unfolds⟩
    · obtain ⟨u, unfolds, -⟩ := shallower path t unfolds
      exact ⟨u, unfolds⟩
  obtain ⟨x, again, less⟩ := shallower circle u unfolds
  rw [unfolds.unique again] at less
  omega

theorem unfolds_iff_acyclic : (∃ t, h.Unfolds r t) ↔ h.Acyclic r :=
  ⟨fun ⟨_, unfolds⟩ => unfolds.acyclic, Acyclic.unfolds⟩

/-- Below a tree of some depth there is a cell for every lesser depth. -/
theorem Unfolds.cell_of_depth (unfolds : h.Unfolds r t) (spans : h.Spans r)
    (threaded : h.Threaded h.members) {n : Nat} (less : n < t.depth) :
    ∃ i < h.cells.size, ∃ a b, h.Unfolds (h.contents i).1 a ∧ h.Unfolds (h.contents i).2 b ∧
      (Tree.node a b).depth = n + 1 := by
  induction unfolds with
  | leaf => simp [Tree.depth] at less
  | @node r i a b isCons target first rest ihFirst ihRest =>
    by_cases here : (Tree.node a b).depth = n + 1
    · have use := spans.holds isCons i target
      exact ⟨i, (threaded.inside_of_inUse use).2, a, b, first, rest, here⟩
    · simp only [Tree.depth] at less here
      by_cases inFirst : n < a.depth
      · exact ihFirst (spans.branch (branches_first isCons target)) inFirst
      · exact ihRest (spans.branch (branches_rest isCons target)) (by omega)

/-- The cells on a way down are all different ones. -/
theorem Unfolds.depth_le (unfolds : h.Unfolds r t) (spans : h.Spans r)
    (threaded : h.Threaded h.members) : t.depth ≤ h.cells.size := by
  have cells := fun n : Fin t.depth => unfolds.cell_of_depth spans threaded n.2
  choose cell inside a b first rest depth using cells
  have injective : Function.Injective fun n => (⟨cell n, inside n⟩ : Fin h.cells.size) := by
    intro n m same
    have same : cell n = cell m := Fin.mk.inj same
    have front := first m
    have back := rest m
    rw [← same] at front back
    have deep := depth m
    rw [(first n).unique front, (rest n).unique back, depth n] at deep
    exact Fin.ext (by omega)
  simpa using Fintype.card_le_of_injective _ injective

end Heap

end Treadmill

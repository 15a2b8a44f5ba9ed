import Mathlib
import Treadmill.Data.Equal
import Treadmill.Proofs.Data.Unfolding
import Treadmill.Proofs.Heap.Whole

/-!
Structural equality compares what values unfold to (`Heap.Sound.equates`). It comes to an end as long as
one of the two values does not run in circles, and reads cells without changing what they hold.
-/

namespace Treadmill

namespace Heap
variable {L : Layout} {h k : Heap L} {s : Logged (Heap L)} {x y z r : Ref L} {i j n : Nat} {t : Tree L}

/-- Both values unfold to one finite tree. -/
def SameTree (h : Heap L) (x y : Ref L) : Prop := ∃ t, h.Unfolds x t ∧ h.Unfolds y t

/-- Every pair of both values is in use, and one of them at least does not run in circles. -/
structure Comparable (h : Heap L) (x y : Ref L) : Prop where
  first : h.Spans x
  second : h.Spans y
  finite : h.Acyclic x ∨ h.Acyclic y

theorem Comparable.symm (comparable : h.Comparable x y) : h.Comparable y x :=
  ⟨comparable.second, comparable.first, comparable.finite.symm⟩

theorem SameTree.symm (alike : h.SameTree x y) : h.SameTree y x := by
  obtain ⟨t, first, second⟩ := alike
  exact ⟨t, second, first⟩

theorem SameTree.trans (first : h.SameTree x y) (second : h.SameTree y z) : h.SameTree x z := by
  obtain ⟨t, one, two⟩ := first
  obtain ⟨u, two', three⟩ := second
  obtain rfl := two.unique two'
  exact ⟨_, one, three⟩

/-- Pairs are alike when their slots are. -/
theorem sameTree_pair (xCons : x.isCons = true) (yCons : y.isCons = true) (xTarget : x.target? = some i)
    (yTarget : y.target? = some j) : h.SameTree x y ↔
      h.SameTree (h.contents i).1 (h.contents j).1 ∧ h.SameTree (h.contents i).2 (h.contents j).2 := by
  constructor
  · rintro ⟨t, first, second⟩
    obtain ⟨a, b, rfl, front, back⟩ := first.of_isCons xCons xTarget
    obtain ⟨c, d, same, front', back'⟩ := second.of_isCons yCons yTarget
    obtain ⟨rfl, rfl⟩ := Tree.node.inj same
    exact ⟨⟨_, front, front'⟩, _, back, back'⟩
  · rintro ⟨⟨a, front, front'⟩, b, back, back'⟩
    exact ⟨.node a b, .node xCons xTarget front back, .node yCons yTarget front' back'⟩

/-- What is no pair is alike to itself alone. -/
theorem SameTree.eq_of_leaf (alike : h.SameTree x y) (leaf : ¬(x.isCons = true ∧ y.isCons = true)) : x = y := by
  obtain ⟨t, first, second⟩ := alike
  cases first with
  | leaf => cases second; rfl
  | node xCons =>
    cases second with
    | node yCons => exact absurd ⟨xCons, yCons⟩ leaf

/-! ### Reading on the way down -/

/-- `k` holds what `h` holds: reading has at most promoted cells. -/
structure Read (h k : Heap L) : Prop where
  sound : k.Sound
  promoted : Promoted h k

namespace Read

theorem refl (sound : h.Sound) : Read h h := ⟨sound, .refl h⟩

theorem trans {m : Heap L} (first : Read h m) (second : Read m k) : Read h k :=
  ⟨second.sound, first.promoted.trans second.promoted⟩

variable (read : Read h k)
include read

theorem contents (i : Nat) : k.contents i = h.contents i := contents_congr (read.promoted.slots i)

theorem spans (spans : h.Spans r) : k.Spans r := by
  intro v met isCons
  rw [branches_congr read.contents] at met
  exact read.promoted.holds_iff.mpr (spans v met isCons)

theorem unfolds : k.Unfolds r t ↔ h.Unfolds r t := unfolds_congr read.contents

theorem sameTree : k.SameTree x y ↔ h.SameTree x y := by
  simp only [SameTree, read.unfolds]

end Read

/-- Each slot of a pair in use can be read. -/
theorem Sound.reads (sound : s.state.Sound) (spans : s.state.Spans r) (isCons : r.isCons = true)
    (target : r.target? = some i) :
    ∃ k, first r s = .ok (s.state.contents i).1 ⟨k, s.journal⟩ ∧
      rest r s = .ok (s.state.contents i).2 ⟨k, s.journal⟩ ∧ Read s.state k := by
  have holds := spans.holds isCons
  have isPair : r.isPair = true := by
    rw [Ref.isCons, Bool.and_eq_true] at isCons
    exact isCons.1
  obtain ⟨kept, promoted, -⟩ := sound.keepTarget (sound.regular holds)
  exact ⟨_, first_apply sound.toTidy isPair target (holds i target),
    rest_apply sound.toTidy isPair target (holds i target), kept, promoted⟩

/-! ### Equality -/

/-- One of the two values unfolds to a tree that is less deep than `n`. -/
def Shallow (h : Heap L) (n : Nat) (x y : Ref L) : Prop :=
  ∃ t, (h.Unfolds x t ∨ h.Unfolds y t) ∧ t.depth < n

theorem Read.shallow (read : Read h k) (shallow : h.Shallow n x y) : k.Shallow n x y := by
  simpa only [Shallow, read.unfolds] using shallow

theorem Shallow.below (shallow : h.Shallow (n + 1) x y) (xCons : x.isCons = true) (yCons : y.isCons = true)
    (xTarget : x.target? = some i) (yTarget : y.target? = some j) :
    h.Shallow n (h.contents i).1 (h.contents j).1 ∧ h.Shallow n (h.contents i).2 (h.contents j).2 := by
  have split : ∀ {a b : Tree L}, (Tree.node a b).depth < n + 1 → a.depth < n ∧ b.depth < n := by
    intro a b less
    simp only [Tree.depth] at less
    omega
  obtain ⟨t, unfolds | unfolds, less⟩ := shallow
  · obtain ⟨a, b, rfl, front, back⟩ := unfolds.of_isCons xCons xTarget
    exact ⟨⟨a, Or.inl front, (split less).1⟩, b, Or.inl back, (split less).2⟩
  · obtain ⟨a, b, rfl, front, back⟩ := unfolds.of_isCons yCons yTarget
    exact ⟨⟨a, Or.inr front, (split less).1⟩, b, Or.inr back, (split less).2⟩

/-- As many steps as the shallower tree is deep, and one more, are enough. -/
theorem Sound.equalFrom_apply (sound : s.state.Sound) (spansFirst : s.state.Spans x)
    (spansSecond : s.state.Spans y) (shallow : s.state.Shallow n x y) :
    ∃ b k, Data.equalFrom n x y s = .ok b ⟨k, s.journal⟩ ∧ Read s.state k ∧
      (b = true ↔ s.state.SameTree x y) := by
  induction n generalizing x y s with
  | zero =>
    obtain ⟨t, -, less⟩ := shallow
    cases less
  | succ n ih =>
    rw [Data.equalFrom]
    by_cases same : x = y
    · subst same
      obtain ⟨t, unfolds, -⟩ := shallow
      exact ⟨true, s.state, by simp, .refl sound, by simpa using ⟨t, unfolds.elim id id, unfolds.elim id id⟩⟩
    rw [if_neg same]
    by_cases pairs : x.isCons = true ∧ y.isCons = true
    · obtain ⟨xCons, yCons⟩ := pairs
      rw [if_neg (by simp [xCons, yCons])]
      have xTarget := Ref.target?_of_isCons xCons
      have yTarget := Ref.target?_of_isCons yCons
      have below := shallow.below xCons yCons xTarget yTarget
      have branch := fun {r : Ref L} (spans : s.state.Spans r) (isCons : r.isCons = true) =>
        And.intro (spans.branch (branches_first isCons (Ref.target?_of_isCons isCons)))
          (spans.branch (branches_rest isCons (Ref.target?_of_isCons isCons)))
      obtain ⟨xFirst, xRest⟩ := branch spansFirst xCons
      obtain ⟨yFirst, yRest⟩ := branch spansSecond yCons
      rw [sameTree_pair xCons yCons xTarget yTarget]
      -- the four reads and the two comparisons, each in the heap that the one before has left
      obtain ⟨k₁, front, -, read₁⟩ := sound.reads spansFirst xCons xTarget
      obtain ⟨k₂, front', -, read₂⟩ := read₁.sound.reads (s := ⟨k₁, s.journal⟩)
        (read₁.spans spansSecond) yCons yTarget
      rw [read₁.contents] at front'
      have read₂ := read₁.trans read₂
      obtain ⟨b, k₃, compared, read₃, decided⟩ := ih (s := ⟨k₂, s.journal⟩) read₂.sound
        (read₂.spans xFirst) (read₂.spans yFirst) (read₂.shallow below.1)
      have read₃ := read₂.trans read₃
      rw [read₂.sameTree] at decided
      simp only [Task.bind_apply, front, front', compared]
      cases b with
      | false => exact ⟨false, k₃, rfl, read₃, by simp [← decided]⟩
      | true =>
        obtain ⟨k₄, -, back, read₄⟩ := read₃.sound.reads (s := ⟨k₃, s.journal⟩)
          (read₃.spans spansFirst) xCons xTarget
        rw [read₃.contents] at back
        have read₄ := read₃.trans read₄
        obtain ⟨k₅, -, back', read₅⟩ := read₄.sound.reads (s := ⟨k₄, s.journal⟩)
          (read₄.spans spansSecond) yCons yTarget
        rw [read₄.contents] at back'
        have read₅ := read₄.trans read₅
        obtain ⟨b, k₆, compared', read₆, decided'⟩ := ih (s := ⟨k₅, s.journal⟩) read₅.sound
          (read₅.spans xRest) (read₅.spans yRest) (read₅.shallow below.2)
        rw [read₅.sameTree] at decided'
        refine ⟨b, k₆, ?_, read₅.trans read₆, ?_⟩
        · simp only [if_true, Task.bind_apply, back, back', compared']
        · rw [decided', and_iff_right (decided.mp rfl)]
    · rw [if_pos (by simpa [imp_iff_not_or] using pairs)]
      exact ⟨false, s.state, rfl, .refl sound, by simpa using fun alike => same (alike.eq_of_leaf pairs)⟩

theorem Sound.equal_apply (sound : s.state.Sound) (comparable : s.state.Comparable x y) :
    ∃ b k, Data.equal x y s = .ok b ⟨k, s.journal⟩ ∧ Read s.state k ∧ (b = true ↔ s.state.SameTree x y) := by
  obtain ⟨limit, limited, enough⟩ := walkLimit_apply s
  have shallow : s.state.Shallow limit x y := by
    rcases comparable.finite with acyclic | acyclic
    · obtain ⟨t, unfolds⟩ := acyclic.unfolds
      have deep := unfolds.depth_le comparable.first sound.threaded
      exact ⟨t, Or.inl unfolds, by omega⟩
    · obtain ⟨t, unfolds⟩ := acyclic.unfolds
      have deep := unfolds.depth_le comparable.second sound.threaded
      exact ⟨t, Or.inr unfolds, by omega⟩
  obtain ⟨b, k, compared, read, decided⟩ :=
    sound.equalFrom_apply comparable.first comparable.second shallow
  exact ⟨b, k, by rw [Data.equal, Task.bind_apply, limited]; exact compared, read, decided⟩

theorem Sound.equal_ok_true_iff (sound : s.state.Sound) (comparable : s.state.Comparable x y) :
    outcomeOf (Data.equal x y s) = .ok true ↔ s.state.SameTree x y := by
  obtain ⟨b, k, compared, -, decided⟩ := sound.equal_apply comparable
  rw [compared, ← decided]
  simp [outcomeOf]

/-- An actor equals itself alone. -/
theorem eq_of_equal_actor (isActor : x.isActor = true)
    (equal : outcomeOf (Data.equal x y s) = .ok true) : x = y := by
  obtain ⟨limit, limited, enough⟩ := walkLimit_apply s
  obtain ⟨n, rfl⟩ : ∃ n, limit = n + 1 := ⟨limit - 1, by omega⟩
  have kind : x.kind = .actor := by simpa [Ref.isActor] using isActor
  by_contra other
  rw [Data.equal, Task.bind_apply, limited] at equal
  simp [Data.equalFrom, other, Ref.isCons, Ref.isPair, kind, outcomeOf] at equal

theorem equal_self (s : Logged (Heap L)) (x : Ref L) : Data.equal x x s = .ok true s := by
  obtain ⟨limit, limited, enough⟩ := walkLimit_apply s
  obtain ⟨n, rfl⟩ : ∃ n, limit = n + 1 := ⟨limit - 1, by omega⟩
  rw [Data.equal, Task.bind_apply, limited]
  simp [Data.equalFrom]

/-- What comparing values in the heap `s` comes to. -/
structure Equates (s : Logged (Heap L)) : Prop where
  /-- Values are found equal just when they unfold to one tree, and no cell is changed by that. -/
  decides : ∀ x y, s.state.Comparable x y → ∃ b k, Data.equal x y s = .ok b ⟨k, s.journal⟩ ∧
    (b = true ↔ s.state.SameTree x y) ∧ k.Sound ∧ ∀ i, k.contents i = s.state.contents i
  refl : ∀ x, outcomeOf (Data.equal x x s) = .ok true
  symm : ∀ x y, s.state.Comparable x y →
    outcomeOf (Data.equal y x s) = outcomeOf (Data.equal x y s)
  trans : ∀ x y z, s.state.Comparable x y → s.state.Comparable y z →
    outcomeOf (Data.equal x y s) = .ok true → outcomeOf (Data.equal y z s) = .ok true →
      outcomeOf (Data.equal x z s) = .ok true
  actors : ∀ x y, x.isActor = true → outcomeOf (Data.equal x y s) = .ok true → x = y

/-- In a sound heap, be it in the middle of a cycle, equality decides whether two values unfold to one
tree. -/
theorem Sound.equates (sound : s.state.Sound) : Equates s where
  decides x y comparable := by
    obtain ⟨b, k, compared, read, decided⟩ := sound.equal_apply comparable
    exact ⟨b, k, compared, decided, read.sound, read.contents⟩
  refl x := by rw [equal_self, outcomeOf]
  symm x y comparable := by
    obtain ⟨b, k, one, -, decided⟩ := sound.equal_apply comparable
    obtain ⟨c, m, two, -, decided'⟩ := sound.equal_apply comparable.symm
    have same : c = b := Bool.eq_iff_iff.mpr
      (decided'.trans (Iff.intro SameTree.symm SameTree.symm |>.trans decided.symm))
    rw [one, two, same, outcomeOf, outcomeOf]
  trans x y z first second one two := by
    have alike := (sound.equal_ok_true_iff first).mp one
    have alike' := (sound.equal_ok_true_iff second).mp two
    have acyclic : s.state.Acyclic x := alike.elim fun _ both => both.1.acyclic
    exact (sound.equal_ok_true_iff ⟨first.first, second.second, Or.inl acyclic⟩).mpr
      (alike.trans alike')
  actors _ _ := eq_of_equal_actor

/-- Two cells that hold the same, and one that holds itself, as candidates of a cycle. -/
theorem equates_candidates : ∃ (s : Logged (Heap .twoLow)) (x y z : Ref .twoLow), s.state.Sound ∧
    s.state.collecting = true ∧ x ≠ y ∧ s.state.Comparable x y ∧ s.state.Comparable x z ∧
    outcomeOf (Data.equal x y s) = .ok true ∧ outcomeOf (Data.equal x z s) = .ok false := by
  obtain ⟨x, y, z, s₁, s₂, s₃, s₄, s₅, is₁, is₂, is₃, is₄, is₅, apart, xCons, yCons, zCons, xCell, yCell,
      zCell, fresh, aged, xHolds, yHolds, zHolds, busy⟩ :
      ∃ (x y z : Ref .twoLow) (s₁ s₂ s₃ s₄ s₅ : Logged (Heap .twoLow)),
        s₁ = stateAfter ((Op.act (.cons .nil .nil)).task ⟨Heap.empty false, ⟨none, #[]⟩⟩) ∧
        s₂ = stateAfter ((Op.act (.cons .nil .nil)).task s₁) ∧
        s₃ = stateAfter ((Op.act (.cons .nil .nil)).task s₂) ∧
        s₄ = stateAfter ((Op.act (.setRest z z)).task s₃) ∧ s₅ = stateAfter (Op.age.task s₄) ∧
        x ≠ y ∧ x.isCons = true ∧ y.isCons = true ∧ z.isCons = true ∧ x.target? = some 6 ∧
        y.target? = some 7 ∧ z.target? = some 8 ∧ s₃.state.members .fresh = [6, 7, 8] ∧
        s₅.state.members .aged = [6, 7, 8] ∧ s₅.state.contents 6 = (.nil, .nil) ∧
        s₅.state.contents 7 = (.nil, .nil) ∧ s₅.state.contents 8 = (.nil, z) ∧
        s₅.state.collecting = true :=
    ⟨⟨24, by decide⟩, ⟨28, by decide⟩, ⟨32, by decide⟩, _, _, _, _, _, rfl, rfl, rfl, rfl, rfl,
      by decide +kernel⟩
  have blank : ∀ {h : Heap .twoLow} {v : Ref .twoLow}, v.target? = none → h.Holds v :=
    fun none i target => by simp [none] at target
  have made : ∀ {h : Heap .twoLow}, ∀ v ∈ (Op.act (.cons (.nil : Ref .twoLow) .nil)).operands, h.Holds v := by
    simp [Op.operands, Act.operands, blank]
  have run := (((((Runs.nil ⟨(Heap.empty false : Heap .twoLow), ⟨none, #[]⟩⟩).snoc
    (.act (.cons .nil .nil)) made).snoc (.act (.cons .nil .nil)) made).snoc (.act (.cons .nil .nil)) made).snoc
    (.act (.setRest z z)) (by
      rw [← is₁, ← is₂, ← is₃]
      simpa [Op.operands, Act.operands] using holds_of_fresh zCell (by simp [fresh]))).snoc .age
    (by simp [Op.operands])
  rw [← is₁, ← is₂, ← is₃, ← is₄, ← is₅] at run
  have sound := run.sound_of_empty
  have held : ∀ v ∈ [x, y, z, .nil], s₅.state.Holds v := by
    have candidate : ∀ {v : Ref .twoLow} {i : Nat}, v.target? = some i → i ∈ [6, 7, 8] → s₅.state.Holds v :=
      fun target on j named => Or.inl (Or.inr (Or.inl (by
        rw [aged, ← Option.some.inj (target.symm.trans named)]
        exact on)))
    simp only [List.forall_mem_cons, List.not_mem_nil, false_implies, implies_true, and_true]
    exact ⟨candidate xCell (by simp), candidate yCell (by simp), candidate zCell (by simp),
      blank Ref.target?_nil⟩
  have spans : ∀ v ∈ [x, y, z, .nil], s₅.state.Spans v := fun v on => by
    refine spans_of_mem on held ?_
    simp [xCell, yCell, zCell, xHolds, yHolds, zHolds]
  have empty : s₅.state.Unfolds .nil (.leaf .nil) := .leaf (by simp [Ref.isCons])
  have spread : ∀ {v : Ref .twoLow} {i : Nat}, v.isCons = true → v.target? = some i →
      s₅.state.contents i = (.nil, .nil) → s₅.state.Unfolds v (.node (.leaf .nil) (.leaf .nil)) :=
    fun isCons target holds => .node isCons target (by simpa [holds] using empty) (by simpa [holds] using empty)
  have xTree := spread xCons xCell xHolds
  have yTree := spread yCons yCell yHolds
  have first : s₅.state.Comparable x y := ⟨spans x (by simp), spans y (by simp), Or.inl xTree.acyclic⟩
  have second : s₅.state.Comparable x z := ⟨spans x (by simp), spans z (by simp), Or.inl xTree.acyclic⟩
  have circle : ¬s₅.state.SameTree x z := by
    rintro ⟨t, -, unfolds⟩
    refine unfolds.acyclic z .refl (.single ?_)
    simpa [zHolds] using branches_rest (h := s₅.state) zCons zCell
  obtain ⟨b, k, one, decided, -⟩ := sound.equates.decides x y first
  obtain ⟨c, m, two, decided', -⟩ := sound.equates.decides x z second
  refine ⟨s₅, x, y, z, sound, busy, apart, first, second, ?_, ?_⟩
  · rw [one, decided.mpr ⟨_, xTree, yTree⟩, outcomeOf]
  · rw [two, outcomeOf, Bool.eq_false_iff.mpr fun same => circle (decided'.mp same)]

end Heap

end Treadmill

import Mathlib
import Treadmill.Proofs.Heap.Stale

/-!
What the check of a ring tells, whatever the links are (`checkRing_judges`). A walk that passes the check of
its back links meets no cell twice: each cell but the head was reached from the cell that its own back link
names. So it ends within the arena, and the bound on its steps never decides.
-/

namespace Treadmill.Heap
variable {L : Layout} {h : Heap L} {r : Ring} {s : Logged (Heap L)} {a p q stop n seen found : Nat}
  {row visited : List Nat}

/-! ### Walks that come to their end -/

theorem Linked.next_eq (linked : h.Linked (p :: row ++ [stop])) : h.next p = row.headD stop := by
  cases row with
  | nil => exact (List.isChain_cons_cons.mp linked).1.1
  | cons i row => exact (List.isChain_cons_cons.mp linked).1.1

/-- Where links lead to depends on where they are followed from alone. -/
theorem Linked.unique {row' : List Nat} (linked : h.Linked (p :: row ++ [stop])) (outside : stop ∉ row)
    (linked' : h.Linked (p :: row' ++ [stop])) (outside' : stop ∉ row') : row = row' := by
  have first := membersFrom_eq (List.IsChain.tail linked) outside (Nat.le_max_left _ row'.length)
  have second := membersFrom_eq (List.IsChain.tail linked') outside' (Nat.le_max_right row.length _)
  rw [← linked.next_eq] at first
  rw [← linked'.next_eq, first] at second
  exact second

/-- A walk that met a cell again would go on as it did the first time, and not come to its end. -/
theorem Linked.nodup (linked : h.Linked (p :: row ++ [stop])) (outside : stop ∉ row) : row.Nodup := by
  induction row generalizing p with
  | nil => exact List.nodup_nil
  | cons i row ih =>
    have rest : h.Linked (i :: row ++ [stop]) := List.IsChain.tail linked
    have outsideRest : stop ∉ row := fun on => outside (List.mem_cons_of_mem i on)
    refine List.nodup_cons.mpr ⟨fun again => ?_, ih rest outsideRest⟩
    obtain ⟨before, behind, rfl⟩ := List.append_of_mem again
    have later : h.Linked (i :: behind ++ [stop]) := by
      have shape : i :: (before ++ i :: behind) ++ [stop] = (i :: before) ++ (i :: behind ++ [stop]) := by simp
      rw [shape] at rest
      exact List.IsChain.right_of_append rest
    have lengths := congrArg List.length
      (Linked.unique rest outsideRest later fun on => outsideRest (by simp [on]))
    simp only [List.length_append, List.length_cons] at lengths
    omega

theorem of_countFrom_ok (counted : h.countFrom stop n seen p = .ok found) :
    ∃ row, h.Linked (p :: row ++ [stop]) ∧ stop ∉ row ∧ (∀ i ∈ row, i < h.cells.size) ∧
      found = seen + row.length := by
  have once {p q : Nat} (there : h.next p = q) (back : h.prev q = p) : h.Linked (p :: [] ++ [q]) :=
    .cons_cons ⟨there, back⟩ (.singleton q)
  induction n generalizing seen p with
  | zero =>
    simp only [countFrom] at counted
    split at counted
    · cases counted
    next sound =>
      obtain ⟨-, back, ends⟩ := by simpa only [not_or, not_not] using sound
      exact ⟨[], once ends (ends ▸ back), by simp, by simp, by simpa using counted.symm⟩
  | succ n ih =>
    simp only [countFrom] at counted
    split at counted
    · cases counted
    next sound =>
      obtain ⟨inside, back⟩ := by simpa only [not_or, not_le, not_not] using sound
      split at counted
      next ends => exact ⟨[], once ends (ends ▸ back), by simp, by simp, by simpa using counted.symm⟩
      next goesOn =>
        obtain ⟨row, linked, outside, within, total⟩ := ih counted
        refine ⟨h.next p :: row, .cons_cons ⟨rfl, back⟩ linked, ?_, ?_, ?_⟩
        · exact fun on => (List.mem_cons.mp on).elim (fun same => goesOn same.symm) outside
        · exact List.forall_mem_cons.mpr ⟨inside, within⟩
        · rw [total, List.length_cons]
          omega

/-! ### Walks under way -/

/-- The cell before `q` is the one that the back link of `q` names, and the walk has only now come to that
one. So `q` was not met before, unless the walk began there. -/
theorem Linked.new {path : List Nat} (linked : h.Linked (path ++ [p])) (distinct : (path ++ [p]).Nodup)
    (back : h.prev q = p) (notFirst : (path ++ [p]).head? ≠ some q) : q ∉ path ++ [p] := by
  intro on
  obtain ⟨before, behind, shape⟩ := List.append_of_mem on
  have last : p ∈ q :: behind := by
    have ends := congrArg List.getLast? shape
    rw [List.getLast?_concat, List.getLast?_append_of_ne_nil _ (List.cons_ne_nil q behind)] at ends
    exact List.mem_of_getLast? ends.symm
  rw [shape] at linked distinct notFirst
  rcases List.eq_nil_or_concat before with rfl | ⟨before, y, rfl⟩
  · exact notFirst rfl
  · rw [List.concat_eq_append, List.append_assoc, List.singleton_append] at linked distinct
    obtain rfl : p = y := back.symm.trans (linked_join.mp linked).2.1.2
    exact (List.nodup_cons.mp (List.nodup_append.mp distinct).2.1).1 last

/-- A check has come from `a` by `path` to `p`. -/
structure Walked (h : Heap L) (a : Nat) (path : List Nat) (p : Nat) : Prop where
  linked : h.Linked (path ++ [p])
  nodup : (path ++ [p]).Nodup
  first : (path ++ [p]).head? = some a
  inside : ∀ i ∈ path ++ [p], i < h.cells.size

namespace Walked
variable {path : List Nat}

theorem start (inside : a < h.cells.size) : h.Walked a [] a :=
  ⟨.singleton a, List.nodup_singleton a, rfl, by simpa using inside⟩

theorem short (walked : h.Walked a path p) : path.length < h.cells.size := by
  have bounded : (path ++ [p]).Subperm (List.range h.cells.size) :=
    walked.nodup.subperm fun i on => List.mem_range.mpr (walked.inside i on)
  simpa using bounded.length_le

theorem step (walked : h.Walked a path p) (low : h.next p < h.cells.size) (back : h.prev (h.next p) = p)
    (goesOn : h.next p ≠ a) : h.Walked a (path ++ [p]) (h.next p) where
  linked := by
    rw [List.append_assoc, List.singleton_append, linked_join]
    exact ⟨walked.linked, ⟨rfl, back⟩, .singleton _⟩
  nodup := by
    have notFirst : (path ++ [p]).head? ≠ some (h.next p) := by
      rw [walked.first]
      exact fun same => goesOn (Option.some.inj same).symm
    have new := walked.linked.new walked.nodup back notFirst
    rw [← List.concat_eq_append]
    exact walked.nodup.concat new
  first := by
    rw [List.head?_append, walked.first]
    rfl
  inside := List.forall_mem_append.mpr ⟨walked.inside, List.forall_mem_singleton.mpr low⟩

/-- Once there are as many steps left as there are cells that were not met, one more makes no difference. -/
theorem countFrom_succ (walked : h.Walked stop path p) (enough : h.cells.size ≤ n + path.length) :
    h.countFrom stop (n + 1) seen p = h.countFrom stop n seen p := by
  induction n generalizing seen p path with
  | zero =>
    have := walked.short
    omega
  | succ n ih =>
    conv_lhs => rw [countFrom]
    conv_rhs => rw [countFrom]
    split
    · rfl
    next sound =>
      obtain ⟨low, back⟩ := by simpa only [not_or, not_le, not_not] using sound
      split
      · rfl
      next goesOn => exact ih (walked.step low back goesOn) (by simp; omega)

/-- The walk gives up at a link that is broken. -/
theorem of_countFrom_error {link : BrokenLink} (walked : h.Walked stop path p)
    (enough : h.cells.size ≤ n + path.length) (failed : h.countFrom stop n seen p = .error link) :
    (∃ path, h.Walked stop path link.source) ∧ link.target = h.next link.source ∧
      (h.cells.size ≤ link.target ∨ h.prev link.target ≠ link.source) := by
  induction n generalizing seen p path with
  | zero =>
    have := walked.short
    omega
  | succ n ih =>
    rw [countFrom] at failed
    split at failed
    next broken =>
      obtain rfl := Except.error.inj failed
      exact ⟨⟨path, walked⟩, rfl, broken⟩
    next sound =>
      obtain ⟨low, back⟩ := by simpa only [not_or, not_le, not_not] using sound
      split at failed
      · cases failed
      next goesOn => exact ih (walked.step low back goesOn) (by simp; omega) failed

end Walked

/-- The bound on the steps of the check never decides. -/
theorem countFrom_eq_countChecked (heads : firstCell ≤ h.cells.size) (enough : h.cells.size ≤ n) :
    h.countFrom r.head n 0 r.head = h.countChecked r := by
  have head : r.head < h.cells.size := Nat.lt_of_lt_of_le (Ring.head_lt r) heads
  have all : ∀ more, h.countFrom r.head (h.cells.size + more) 0 r.head =
      h.countFrom r.head h.cells.size 0 r.head := by
    intro more
    induction more with
    | zero => rfl
    | succ more ih =>
      rw [← ih]
      exact (Walked.start head).countFrom_succ (by simp)
  obtain ⟨more, rfl⟩ := Nat.exists_eq_add_of_le enough
  rw [countChecked, all, all]

/-! ### The verdict -/

/-- The cells of a ring whose links are sound: `next` leads from the head through the row, each cell of which
is met once, and back to the head, and `prev` leads back the same way. -/
structure Ringed (h : Heap L) (r : Ring) (row : List Nat) : Prop where
  circle : h.Circle r.head row
  outside : r.head ∉ row
  nodup : row.Nodup
  inside : ∀ i ∈ row, i < h.cells.size

theorem countChecked_ok_iff (heads : firstCell ≤ h.cells.size) :
    h.countChecked r = .ok n ↔ ∃ row, h.Ringed r row ∧ row.length = n := by
  constructor
  · intro counted
    obtain ⟨row, circle, outside, inside, total⟩ := of_countFrom_ok counted
    exact ⟨row, ⟨circle, outside, circle.nodup outside, inside⟩, by omega⟩
  · rintro ⟨row, ringed, rfl⟩
    have bounded : row.Subperm (List.range h.cells.size) :=
      ringed.nodup.subperm fun i on => List.mem_range.mpr (ringed.inside i on)
    have short := bounded.length_le
    rw [List.length_range] at short
    have head : r.head < h.cells.size := Nat.lt_of_lt_of_le (Ring.head_lt r) heads
    rw [countChecked, countFrom_eq ringed.circle ringed.outside
      (List.forall_mem_cons.mpr ⟨head, ringed.inside⟩) (by omega), Nat.zero_add]

/-- What comes of checking a ring: whether it passes, and why not. -/
structure Judges (s : Logged (Heap L)) (r : Ring) : Prop where
  passes : checkRing r s = .ok () s ↔ ∃ row, s.state.Ringed r row ∧ row.length = s.state.size r
  /-- Lengths on record that exceed the arena may keep the report from being made. -/
  fails : checkRing r s ≠ .ok () s → ∃ f j, checkRing r s = .error f ⟨s.state, j⟩ ∧
    (f = .ringSize r ∨ (∃ p, f = .corruptRing r p) ∨ f = .subtractOverflow)
  broken : ∀ {link : BrokenLink}, s.state.countChecked r = .error link →
    (∃ path, s.state.Walked r.head path link.source) ∧ link.target = s.state.next link.source ∧
      (s.state.cells.size ≤ link.target ∨ s.state.prev link.target ≠ link.source)
  unbounded : ∀ n, s.state.cells.size ≤ n → s.state.countFrom r.head n 0 r.head = s.state.countChecked r

theorem checkRing_judges (heads : firstCell ≤ s.state.cells.size) (r : Ring) : Judges s r where
  passes := by rw [checkRing_ok_iff, countChecked_ok_iff heads]
  fails refused := by
    unfold checkRing at refused ⊢
    rw [Task.bind_apply, Task.view_apply] at refused ⊢
    cases counted : s.state.countChecked r with
    | error link =>
      obtain ⟨f, j, failed, fault⟩ := reported_fault (α := Unit) .error
        (.linkBroken r link.source link.target) (.corruptRing r link.source) s
      exact ⟨f, j, failed, Or.inr (fault.imp_left fun same => ⟨_, same⟩)⟩
    | ok found =>
      simp only [counted, Task.bind_apply, Task.view_apply] at refused ⊢
      split
      next differ =>
        obtain ⟨f, j, failed, fault⟩ := reported_fault (α := Unit) .error
          (.sizeMismatch r found (s.state.size r)) (.ringSize r) s
        exact ⟨f, j, failed, fault.imp_right Or.inr⟩
      next same => exact absurd (by rw [if_neg same]; rfl) refused
  broken failed := by
    have head : r.head < s.state.cells.size := Nat.lt_of_lt_of_le (Ring.head_lt r) heads
    exact (Walked.start head).of_countFrom_error (by simp) failed
  unbounded _ enough := countFrom_eq_countChecked heads enough

/-- Links that lead from a head into a loop beside it, which the back link of the first cell there gives
away. -/
theorem judges_lasso : ∃ s : Logged (Heap .twoLow), firstCell ≤ s.state.cells.size ∧
    s.state.next 1 = 0 ∧ s.state.next 0 = 0 ∧ Judges s .free ∧ checkRing .free s ≠ .ok () s ∧
    s.state.countChecked .free = .error ⟨0, 0⟩ ∧ Judges s .fresh ∧ checkRing .fresh s = .ok () s := by
  refine ⟨⟨((Heap.empty false).setNext 1 0).setPrev 0 1, ⟨none, #[]⟩⟩, by decide, by decide, by decide,
    checkRing_judges (by decide) .free, ?_, rfl, checkRing_judges (by decide) .fresh, rfl⟩
  intro passed
  cases (checkRing_ok_iff .free).mp passed

end Treadmill.Heap

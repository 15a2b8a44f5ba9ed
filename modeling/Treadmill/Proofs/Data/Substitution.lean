import Mathlib
import Treadmill.Data.Replace
import Treadmill.Proofs.Data.Lookup

/-!
Substitution. What is rebuilt of a value is laid down by the value itself (`Substituted`): all its keys are
replaced at once, none is looked for in what takes its place, and every pair above one is a new pair.
-/

namespace Treadmill.Heap
open Data
variable {L : Layout} {h k m : Heap L} {s : Logged (Heap L)} {map p q r d tail : Ref L} {n : Nat}
  {made : List (Ref L)} {spine : List Nat} {t : Tree L} {value? : Ref L → Option (Ref L)}

/-- The value of `h` that `k` holds in place of another one, with what is bound by `value?` replaced. -/
inductive Substituted (h k : Heap L) (value? : Ref L → Option (Ref L)) : Ref L → Ref L → Prop
  | nil : Substituted h k value? .nil .nil
  | bound {r v : Ref L} (notNil : r.isNil = false) (found : value? r = some v) : Substituted h k value? r v
  | leaf {r : Ref L} (notPair : r.isPair = false) (unbound : value? r = none) : Substituted h k value? r r
  | pair {r q : Ref L} (isCons : r.isCons = true) (unbound : value? r = none) (new : New h k q)
      (first : Substituted h k value? (h.parts r).1 (k.parts q).1)
      (rest : Substituted h k value? (h.parts r).2 (k.parts q).2) : Substituted h k value? r q

namespace Substituted

theorem grown (substituted : Substituted h m value? r q) (grown : Enlarged m k) : Substituted h k value? r q := by
  induction substituted with
  | nil => exact .nil
  | bound notNil found => exact .bound notNil found
  | leaf notPair unbound => exact .leaf notPair unbound
  | pair isCons unbound new _ _ first rest =>
    rw [← grown.parts new.holds] at first rest
    exact .pair isCons unbound (new.grown grown) first rest

theorem of_bound {v : Ref L} (substituted : Substituted h k value? r q) (notNil : r.isNil = false)
    (found : value? r = some v) : q = v := by
  cases substituted with
  | nil => simp at notNil
  | bound _ found' => exact Option.some.inj (found'.symm.trans found)
  | leaf _ unbound | pair _ unbound => simp [unbound] at found

theorem of_leaf (substituted : Substituted h k value? r q) (notPair : r.isPair = false)
    (unbound : value? r = none) : q = r := by
  cases substituted with
  | nil | leaf => rfl
  | bound _ found => simp [unbound] at found
  | pair isCons => simp [Ref.isCons, notPair] at isCons

theorem of_pair (substituted : Substituted h k value? r q) (isCons : r.isCons = true)
    (unbound : value? r = none) : New h k q ∧ Substituted h k value? (h.parts r).1 (k.parts q).1 ∧
      Substituted h k value? (h.parts r).2 (k.parts q).2 := by
  cases substituted with
  | nil => simp [Ref.isCons] at isCons
  | bound _ found => simp [unbound] at found
  | leaf notPair => simp [Ref.isCons, notPair] at isCons
  | pair _ _ new first rest => exact ⟨new, first, rest⟩

/-- With nothing to replace the value is spread out as it was. -/
theorem unfolds (substituted : Substituted h k (fun _ => none) r q) (unfolds : h.Unfolds r t) : k.Unfolds q t := by
  induction substituted generalizing t with
  | nil =>
    cases unfolds with
    | leaf notCons => exact .leaf notCons
    | node isCons => simp [Ref.isCons] at isCons
  | bound _ found => cases found
  | leaf notPair =>
    cases unfolds with
    | leaf notCons => exact .leaf notCons
    | node isCons => simp [Ref.isCons, notPair] at isCons
  | pair isCons _ new _ _ first rest =>
    have target := Ref.target?_of_isCons isCons
    have target' := Ref.target?_of_isCons new.isCons
    rw [parts_of_target target, parts_of_target target'] at first rest
    obtain ⟨a, b, rfl, front, back⟩ := unfolds.of_isCons isCons target
    exact .node new.isCons target' (first front) (rest back)

end Substituted

/-- The last of the new cells is what becomes of a pair whose slots it holds the substitutes of. -/
theorem Strings.substituted {a : Ref L} {cells : List Nat} (strings : Strings m k (made ++ [a]) q d cells)
    (grown : Enlarged h m) (isCons : r.isCons = true) (unbound : value? r = none)
    (first : Substituted h k value? (h.parts r).1 a) (rest : Substituted h k value? (h.parts r).2 d) :
    ∃ v before, Strings m k made q v before ∧ Substituted h k value? r v := by
  obtain ⟨before, v, i, strings, pair⟩ := strings.of_concat
  refine ⟨v, before, strings, .pair isCons unbound (pair.since grown).new ?_ ?_⟩
  · rwa [pair.parts]
  · rwa [pair.parts]

theorem builds_close (sound : s.state.Sound) (each : ∀ v ∈ made, s.state.Intact v) (rest : s.state.Intact tail) :
    Builds (replaceFrom.close tail made) s fun q k =>
      k.Intact q ∧ ∃ cells, Strings s.state k made.reverse q tail cells := by
  have same : replaceFrom.close tail made = consAll made.reverse tail := by
    rw [replaceFrom.close, consAll, List.foldrM_reverse]
  rw [same]
  apply builds_consAll sound _ rest
  simpa using each

/-- What is made so far is put in front of the value of a binding. -/
theorem builds_close_bound {b : Ref L} (isCons : b.isCons = true) (intact : h.Intact b) (grown : Enlarged h s.state)
    (each : ∀ v ∈ made, s.state.Intact v) : Builds (do replaceFrom.close (← rest b) made) s fun q k =>
      k.Intact q ∧ ∃ cells, Strings s.state k made.reverse q (h.parts b).2 cells := by
  apply builds_rest grown intact isCons
  intro m read grown
  apply (builds_close (s := ⟨m, s.journal⟩) grown.sound (fun v on => read.enlarged.intact (each v on))
    (grown.intact (intact.rest isCons))).mono
  rintro q k - ⟨whole, cells, strings⟩
  exact ⟨whole, cells, strings.since read.enlarged⟩

/-- The rebuilt value of `p` stands behind the items in front of it, which are made last. -/
theorem builds_replaceFrom (maps : h.Maps map spine) (intact : h.Intact p) (unfolds : h.Unfolds p t)
    (deep : t.depth < n) (grown : Enlarged h s.state) (each : ∀ v ∈ made, s.state.Intact v) :
    Builds (replaceFrom map n p made) s fun q k => k.Intact q ∧
      ∃ d cells, Strings s.state k made.reverse q d cells ∧ Substituted h k (h.value? spine) p d := by
  induction n generalizing p t s made with
  | zero => cases deep
  | succ n ih =>
    rw [replaceFrom]
    cases isNil : p.isNil with
    | true =>
      rw [if_pos rfl, Ref.isNil_iff.mp isNil]
      apply (builds_close grown.sound each intact_nil).mono
      rintro q k - ⟨whole, cells, strings⟩
      exact ⟨whole, _, cells, strings, .nil⟩
    | false =>
      rw [if_neg Bool.false_ne_true]
      apply builds_mapFind maps grown
      intro k₁ read₁ grown₁
      have each₁ : ∀ v ∈ made, k₁.Intact v := fun v on => read₁.enlarged.intact (each v on)
      cases found : h.binding? spine p with
      | some b =>
        have bound : h.value? spine p = some (h.parts b).2 := by rw [Heap.value?, found, Option.map_some]
        obtain ⟨isCons, whole⟩ := maps.binding?_isCons found
        rw [Option.getD_some, Ref.isNil_of_target? (Ref.target?_of_isCons isCons), if_pos (by rfl)]
        apply (builds_close_bound (s := ⟨k₁, s.journal⟩) isCons whole grown₁ each₁).mono
        rintro q k - ⟨whole, cells, strings⟩
        exact ⟨whole, _, cells, strings.since read₁.enlarged, .bound isNil bound⟩
      | none =>
        have unbound : h.value? spine p = none := by rw [Heap.value?, found, Option.map_none]
        rw [Option.getD_none, Ref.isNil_nil, if_neg (by simp)]
        cases isPair : p.isPair with
        | false =>
          rw [if_pos (by rfl)]
          apply (builds_close (s := ⟨k₁, s.journal⟩) grown₁.sound each₁ (grown₁.intact intact)).mono
          rintro q k - ⟨whole, cells, strings⟩
          exact ⟨whole, _, cells, strings.since read₁.enlarged, .leaf isPair unbound⟩
        | true =>
          rw [if_neg (by simp)]
          have isCons := Ref.isCons_of_isPair isPair isNil
          have target := Ref.target?_of_isCons isCons
          obtain ⟨a, b, rfl, front, behind⟩ := unfolds.of_isCons isCons target
          rw [← parts_of_target target] at front behind
          simp only [Tree.depth] at deep
          apply builds_first (s := ⟨k₁, s.journal⟩) grown₁ intact isCons
          intro k₂ read₂ grown₂
          -- the item is rebuilt on its own, with nothing in front of it
          have item : Builds (replaceFrom map n (h.parts p).1 []) ⟨k₂, s.journal⟩ _ :=
            ih (intact.first isCons) front (by omega) grown₂ (by simp)
          apply item.bind
          rintro a' u born ⟨whole, d', cells', strings', first⟩
          obtain rfl := strings'.eq_of_nil
          apply builds_rest (grown₂.trans born) intact isCons
          intro k₃ read₃ grown₃
          have sinceStart := ((read₁.trans read₂).enlarged.trans born).trans read₃.enlarged
          have held : ∀ v ∈ a' :: made, k₃.Intact v := by
            rw [List.forall_mem_cons]
            exact ⟨read₃.enlarged.intact whole, fun v on => sinceStart.intact (each v on)⟩
          apply (ih (s := ⟨k₃, u.journal⟩) (intact.rest isCons) behind (by omega) grown₃ held).mono
          rintro q k last ⟨whole', d, cells, strings, rest⟩
          rw [List.reverse_cons] at strings
          obtain ⟨r, before, strings, pair⟩ := (strings.since sinceStart).substituted grown isCons unbound
            (first.grown (read₃.enlarged.trans last)) rest
          exact ⟨whole', r, before, strings, pair⟩

/-- In a sound heap, be it in the middle of a cycle, a value that does not run in circles is rebuilt with
all that the map binds replaced at once, and no cell in use is changed. With an empty map it comes out equal
to what it was. -/
theorem Sound.replace_substitutes (sound : s.state.Sound) (intact : s.state.Intact p)
    (acyclic : s.state.Acyclic p) (maps : s.state.Maps map spine) :
    Builds (replace p map) s fun q k => k.Intact q ∧ Substituted s.state k (s.state.value? spine) p q ∧
      (map = .nil → ∀ j, outcomeOf (equal q p ⟨k, j⟩) = .ok true) := by
  obtain ⟨limit, limited, enough⟩ := walkLimit_apply s
  obtain ⟨t, unfolds⟩ := acyclic.unfolds
  have deep := unfolds.depth_le intact.spans sound.threaded
  rw [replace]
  apply builds_read limited (.refl sound)
  have rebuilt : Builds (replaceFrom map limit p []) s _ :=
    builds_replaceFrom maps intact unfolds (by omega) (.refl sound) (by simp)
  apply rebuilt.mono
  rintro q k grown ⟨whole, d, cells, strings, substituted⟩
  obtain rfl := strings.eq_of_nil
  refine ⟨whole, substituted, ?_⟩
  rintro rfl j
  have empty : spine = [] := (maps.leads.unique (show s.state.Leads .nil [] .nil from rfl) Ref.isCons_nil).symm
  subst empty
  have same := grown.unfolds intact unfolds
  have alike : k.SameTree q p := ⟨t, substituted.unfolds unfolds, same⟩
  exact (grown.sound.equal_ok_true_iff (s := ⟨k, j⟩)
    ⟨whole.spans, (grown.intact intact).spans, Or.inr same.acyclic⟩).mpr alike

/-- In the middle of a cycle a pair that stands in both slots of another, and has a bound pair for its rest,
is rebuilt in each of the two. -/
theorem replace_shared_pair : ∃ (s : Logged (Heap .twoLow)) (form map q v : Ref .twoLow) (k : Heap .twoLow)
    (j : Journal), s.state.Sound ∧ s.state.collecting = true ∧ s.state.parts form = (v, v) ∧
      replace form map s = .ok q ⟨k, j⟩ ∧ New s.state k q ∧
      New s.state k (k.parts q).1 ∧ k.parts (k.parts q).1 = (.bool true, .bool false) ∧
      New s.state k (k.parts q).2 ∧ k.parts (k.parts q).2 = (.bool true, .bool false) := by
  obtain ⟨x, v, b, map, form, q, script, s, values, scripted, is, fitting, busy, inside, closed, leads, pairs,
      xCons, vCons, formCons, xHolds, vHolds, formHolds, xBound, vUnbound, formUnbound, trueUnbound, ran⟩ :
      ∃ (x v b map form q : Ref .twoLow) (script : List (Op .twoLow)) (s : Logged (Heap .twoLow))
        (values : List (Ref .twoLow)),
        script = [.act (.cons .nil .nil), .act (.cons (.bool true) x), .act (.cons x (.bool false)),
          .act (.cons b .nil), .act (.cons v v), .age] ∧
        s = afterAll (blank .twoLow) script ∧ Fitting (blank .twoLow) script ∧ s.state.collecting = true ∧
        (map ∈ values ∧ form ∈ values) ∧ s.state.Closed values ∧
        s.state.Leads map [9] .nil ∧ (∀ u ∈ s.state.items [9], u.isCons = true) ∧
        x.isCons = true ∧ v.isCons = true ∧ form.isCons = true ∧ s.state.parts x = (.nil, .nil) ∧
        s.state.parts v = (.bool true, x) ∧ s.state.parts form = (v, v) ∧
        s.state.value? [9] x = some (.bool false) ∧ s.state.value? [9] v = none ∧
        s.state.value? [9] form = none ∧ s.state.value? [9] (.bool true) = none ∧
        outcomeOf (replace form map s) = .ok q :=
    ⟨⟨24, by decide⟩, ⟨28, by decide⟩, ⟨32, by decide⟩, ⟨36, by decide⟩, ⟨40, by decide⟩, ⟨52, by decide⟩, _, _,
      [⟨24, by decide⟩, ⟨28, by decide⟩, ⟨32, by decide⟩, ⟨36, by decide⟩, ⟨40, by decide⟩, .bool true, .bool false,
        .nil], rfl, rfl, by decide +kernel⟩
  have sound : s.state.Sound := is ▸ fitting.sound_blank
  have maps : s.state.Maps map [9] := ⟨⟨leads, closed.intact inside.1⟩, pairs⟩
  have unfolds : ∃ t, s.state.Unfolds form t := by
    have leaf : ∀ {u : Ref .twoLow}, u.isCons = false → s.state.Unfolds u (.leaf u) := Unfolds.leaf
    have bare : s.state.Unfolds x _ := unfolds_parts xCons (by rw [xHolds]; exact leaf (by decide))
      (by rw [xHolds]; exact leaf (by decide))
    have shared : s.state.Unfolds v _ := unfolds_parts vCons
      (by rw [vHolds]; exact leaf (show (Ref.bool true).isCons = false by decide)) (by rw [vHolds]; exact bare)
    exact ⟨_, unfolds_parts formCons (by rw [formHolds]; exact shared) (by rw [formHolds]; exact shared)⟩
  have builds := sound.replace_substitutes (closed.intact inside.2) (unfolds_iff_acyclic.mp unfolds) maps
  obtain ⟨⟨k, j⟩, done⟩ : ∃ u, replace form map s = .ok q u := ⟨_, eq_ok_of_outcome ran⟩
  obtain ⟨-, -, substituted, -⟩ := builds.of_ok done
  obtain ⟨new, first, rest⟩ := substituted.of_pair formCons formUnbound
  rw [formHolds] at first rest
  -- the shared pair is rebuilt in the same way wherever it stands
  have rebuilt : ∀ {h : Heap .twoLow} {u : Ref .twoLow}, Substituted s.state h (s.state.value? [9]) v u →
      New s.state h u ∧ h.parts u = (.bool true, .bool false) := by
    intro h u substituted
    obtain ⟨new, first, rest⟩ := substituted.of_pair vCons vUnbound
    rw [vHolds] at first rest
    exact ⟨new, Prod.ext (first.of_leaf (show (Ref.bool true).isPair = false by decide) trueUnbound)
      (rest.of_bound (Ref.isNil_of_target? (Ref.target?_of_isCons xCons)) xBound)⟩
  obtain ⟨newFirst, firstHolds⟩ := rebuilt first
  obtain ⟨newRest, restHolds⟩ := rebuilt rest
  exact ⟨s, form, map, q, v, k, j, sound, busy, formHolds, done, new, newFirst, firstHolds, newRest, restHolds⟩

end Treadmill.Heap

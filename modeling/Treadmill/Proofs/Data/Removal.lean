import Mathlib
import Treadmill.Proofs.Data.Lookup

/-!
Removal of a key without touching the map. The bindings that count, less the one of the key, are gathered
on a list that has the last of them in front (`retain`), and this is turned round at the end.
-/

namespace Treadmill.Heap
open Data
variable {L : Layout} {α κ : Type} {h k : Heap L} {s : Logged (Heap L)} {map p kept key b : Ref L} {n : Nat}
  {spine cells : List Nat}

section Keys
variable [DecidableEq κ] (f : α → κ) (x y : κ) (a : α)

/-- The first of the items with each key. -/
def firsts : List α → List α
  | [] => []
  | a :: items => a :: (firsts items).filter fun c => f c ≠ f a

/-- Puts an item in front, unless its key is `x` or stands there already. -/
def retain (kept : List α) (a : α) : List α :=
  if f a = x then kept else if (kept.find? fun c => f c = f a) = none then a :: kept else kept

theorem firsts_sublist (items : List α) : (firsts f items).Sublist items := by
  induction items with
  | nil => exact .slnil
  | cons a items ih => exact (List.filter_sublist.trans ih).cons_cons a

theorem firsts_keys_nodup (items : List α) : ((firsts f items).map f).Nodup := by
  induction items with
  | nil => exact List.nodup_nil
  | cons a items ih =>
    rw [firsts, List.map_cons, List.nodup_cons]
    constructor
    · simp
    · exact ih.sublist (List.filter_sublist.map f)

theorem find?_firsts (items : List α) :
    ((firsts f items).find? fun c => f c = y) = items.find? fun c => f c = y := by
  induction items with
  | nil => rfl
  | cons a items ih =>
    rw [firsts, List.find?_cons, List.find?_cons, List.find?_filter, ← ih]
    by_cases here : f a = y
    · simp [here]
    · simp only [here, decide_false]
      apply List.find?_congr
      intro c _
      by_cases there : f c = y
      · simp [there, Ne.symm here]
      · simp [there]

theorem find?_firsts_without (items : List α) : (((firsts f items).filter fun a => f a ≠ x).find? fun c => f c = y) =
    if y = x then none else items.find? fun c => f c = y := by
  rw [List.find?_filter, ← find?_firsts]
  split
  · simp_all
  · rename_i other
    apply List.find?_congr
    intro c _
    by_cases here : f c = y
    · simp [here, other]
    · simp [here]

/-- What is retained in the end: of the items whose key is not there yet, the first ones. -/
theorem foldl_retain (items kept : List α) : (items.foldl (retain f x) kept).reverse =
    kept.reverse ++ (firsts f items).filter fun a => f a ≠ x ∧ ∀ c ∈ kept, f c ≠ f a := by
  induction items generalizing kept with
  | nil => simp [firsts]
  | cons a items ih =>
    rw [List.foldl_cons, ih, firsts]
    by_cases taken : f a = x ∨ ∃ c ∈ kept, f c = f a
    · have same : retain f x kept a = kept := by
        rw [retain]
        split
        · rfl
        · rename_i other
          simpa [List.find?_eq_none] using taken.resolve_left other
      have dropped : ¬(f a ≠ x ∧ ∀ c ∈ kept, f c ≠ f a) := by
        rintro ⟨other, apart⟩
        obtain ⟨c, on, same⟩ := taken.resolve_left other
        exact apart c on same
      rw [same, List.filter_cons_of_neg (by simpa using dropped), List.filter_filter]
      congr 1
      apply List.filter_congr
      intro c _
      by_cases alike : f c = f a
      · simpa [alike] using dropped
      · simp [alike]
    · obtain ⟨other, apart⟩ : f a ≠ x ∧ ∀ c ∈ kept, f c ≠ f a := by simpa using taken
      have added : retain f x kept a = a :: kept := by
        rw [retain, if_neg other, if_pos (List.find?_eq_none.mpr (by simpa using apart))]
      rw [added, List.filter_cons_of_pos (by simpa using ⟨other, apart⟩), List.filter_filter, List.reverse_cons,
        List.append_assoc, List.singleton_append]
      congr 2
      apply List.filter_congr
      intro c _
      rw [← Bool.decide_and, decide_eq_decide, List.forall_mem_cons]
      constructor
      · rintro ⟨notKey, here, below⟩
        exact ⟨⟨notKey, below⟩, here.symm⟩
      · rintro ⟨⟨notKey, below⟩, here⟩
        exact ⟨notKey, Ne.symm here, below⟩

end Keys

/-! ### The gathered bindings -/

/-- `kept` is a map of bindings from `h`, gathered in a heap that has grown from it. -/
structure Gathered (h k : Heap L) (kept : Ref L) (cells : List Nat) : Prop extends k.Maps kept cells where
  old : ∀ b ∈ k.items cells, h.Holds b

theorem Gathered.binding? (gathered : Gathered h k kept cells) (grown : Enlarged h k) (key : Ref L) :
    k.binding? cells key = (k.items cells).find? fun b => h.keyOf b = key := by
  rw [Heap.binding?]
  apply List.find?_congr
  intro b on
  rw [keyOf, grown.parts (gathered.old b on)]

theorem Gathered.value? (gathered : Gathered h k kept cells) (grown : Enlarged h k) (key : Ref L) :
    k.value? cells key = ((k.items cells).find? fun b => h.keyOf b = key).map fun b => (h.parts b).2 := by
  rw [Heap.value?, gathered.binding? grown]
  cases found : (k.items cells).find? fun b => h.keyOf b = key with
  | none => rfl
  | some b => rw [Option.map_some, Option.map_some, grown.parts (gathered.old b (List.mem_of_find?_eq_some found))]

theorem Gathered.grown {m : Heap L} (gathered : Gathered h m kept cells) (grown : Enlarged m k) :
    Gathered h k kept cells where
  toMaps := grown.maps gathered.toMaps
  old := by
    rw [grown.items gathered.inUse]
    exact gathered.old

theorem builds_keepBinding (grown : Enlarged h s.state) (intact : h.Intact b) (isCons : b.isCons = true)
    (gathered : Gathered h s.state kept cells) : Builds (keepBinding key b kept) s fun q k =>
      ∃ made, Gathered h k q made ∧ k.items made = retain h.keyOf key (s.state.items cells) b := by
  apply builds_first grown intact isCons
  intro k₁ read₁ grown₁
  by_cases isKey : h.keyOf b = key
  · rw [if_pos isKey]
    apply builds_pure (s := ⟨k₁, s.journal⟩) grown₁.sound
    refine ⟨cells, gathered.grown read₁.enlarged, ?_⟩
    rw [retain, if_pos isKey, read₁.enlarged.items gathered.inUse]
  · rw [if_neg isKey]
    apply builds_mapFind (s := ⟨k₁, s.journal⟩) gathered.toMaps read₁.enlarged
    intro k₂ read₂ _
    have read := read₁.trans read₂
    rw [gathered.binding? grown]
    cases found : (s.state.items cells).find? fun c => h.keyOf c = h.keyOf b with
    | some c =>
      have isCons := gathered.pairs c (List.mem_of_find?_eq_some found)
      rw [Option.getD_some, Ref.isNil_of_target? (Ref.target?_of_isCons isCons), if_neg Bool.false_ne_true]
      apply builds_pure (s := ⟨k₂, s.journal⟩) read.sound
      refine ⟨cells, gathered.grown read.enlarged, ?_⟩
      rw [retain, if_neg isKey, found, if_neg (by simp), read.enlarged.items gathered.inUse]
    | none =>
      rw [Option.getD_none, Ref.isNil_nil, if_pos rfl]
      have kept' := gathered.grown read.enlarged
      have grown₂ := grown.trans read.enlarged
      apply (builds_cons (s := ⟨k₂, s.journal⟩) grown₂.sound (grown₂.intact intact) kept'.intact).mono
      rintro q k last ⟨whole, i, pair⟩
      have kept'' := kept'.grown last
      have items : k.items (i :: cells) = b :: s.state.items cells := by
        rw [items_cons, pair.holds, last.items kept'.inUse, read.enlarged.items gathered.inUse]
      refine ⟨i :: cells, ⟨kept''.toMaps.cons whole pair.points pair.holds isCons, ?_⟩, ?_⟩
      · rw [items, List.forall_mem_cons]
        exact ⟨intact.holds, gathered.old⟩
      · rw [items, retain, if_neg isKey, found, if_pos rfl]

/-- Each binding from `p` on is gathered in its turn, and then the list of them is turned round. -/
theorem builds_mapRemoveFrom (maps : h.Maps p spine) (grown : Enlarged h s.state)
    (gathered : Gathered h s.state kept cells) (enough : spine.length < n) :
    Builds (mapRemoveFrom key n p kept) s fun q k => ∃ made, k.Lists q made ∧ (∀ i ∈ made, ¬s.state.InUse i) ∧
      k.items made = ((h.items spine).foldl (retain h.keyOf key) (s.state.items cells)).reverse := by
  induction spine generalizing n p s kept cells with
  | nil =>
    obtain ⟨n, rfl⟩ := Nat.exists_eq_add_one.mpr (Nat.zero_lt_of_lt enough)
    rw [mapRemoveFrom, maps.eq_nil, if_pos Ref.isNil_nil]
    apply (builds_reverse gathered.toLists (.refl grown.sound)).mono
    rintro q k - ⟨made, lists, items, unused⟩
    exact ⟨made, lists, unused, items⟩
  | cons i spine ih =>
    obtain ⟨n, rfl⟩ := Nat.exists_eq_add_one.mpr (Nat.zero_lt_of_lt enough)
    obtain ⟨points, isCons, intact, rest⟩ := maps.uncons
    rw [mapRemoveFrom, if_neg (by simp [points.isNil])]
    apply builds_first grown maps.intact points.isCons
    intro k₁ read₁ grown₁
    rw [parts_of_points points]
    apply (builds_keepBinding (s := ⟨k₁, s.journal⟩) grown₁ intact isCons (gathered.grown read₁.enlarged)).bind
    rintro kept' u born ⟨cells', gathered', items'⟩
    apply builds_rest (grown₁.trans born) maps.intact points.isCons
    intro k₂ read₂ grown₂
    rw [parts_of_points points]
    apply (ih (s := ⟨k₂, u.journal⟩) rest grown₂ (gathered'.grown read₂.enlarged)
      (Nat.lt_of_succ_lt_succ enough)).mono
    rintro q k - ⟨made, lists, unused, items⟩
    have since := (read₁.enlarged.trans born).trans read₂.enlarged
    refine ⟨made, lists, fun j on old => unused j on (since.inUse j old), ?_⟩
    rw [items, read₂.enlarged.items gathered'.inUse, items', read₁.enlarged.items gathered.inUse]
    rfl

/-- What becomes of a map from which a key is removed, `q` being the outcome. -/
structure Removes (h k : Heap L) (map key q : Ref L) (spine : List Nat) : Prop where
  /-- The outcome is a new list of the bindings that count, each once and in order. -/
  bindings : ∃ made, k.Maps q made ∧ (∀ i ∈ made, ¬h.InUse i) ∧
    k.items made = ((firsts h.keyOf (h.items spine)).filter fun b => h.keyOf b ≠ key) ∧
    ((k.items made).map h.keyOf).Nodup
  gets : ∀ x found, h.Gets map x found → k.Gets q x (if x = key then none else found)
  sameMap : SameMap h k map spine

theorem Sound.mapRemove_removes (sound : s.state.Sound) (maps : s.state.Maps map spine) :
    Builds (mapRemove map key) s fun q k => Removes s.state k map key q spine := by
  have none : Gathered s.state s.state .nil [] := ⟨maps_nil, by simp⟩
  apply builds_walkLimit maps.toLists (.refl sound)
  intro n enough
  apply (builds_mapRemoveFrom maps (.refl sound) none enough).mono
  rintro q k grown ⟨made, lists, unused, items⟩
  rw [foldl_retain] at items
  have items : k.items made = (firsts s.state.keyOf (s.state.items spine)).filter fun b => s.state.keyOf b ≠ key := by
    simpa using items
  have among : ∀ b ∈ k.items made, b ∈ s.state.items spine := by
    rw [items]
    exact fun b on => (firsts_sublist _ _).subset (List.mem_filter.mp on).1
  have gathered : Gathered s.state k q made :=
    ⟨⟨lists, fun b on => maps.pairs b (among b on)⟩, fun b on => (maps.items_intact b (among b on)).holds⟩
  have once : ((k.items made).map s.state.keyOf).Nodup := by
    rw [items]
    exact (firsts_keys_nodup _ _).sublist (List.filter_sublist.map _)
  refine ⟨⟨made, gathered.toMaps, unused, items, once⟩, fun x found before => ?_, grown.sameMap sound maps⟩
  have after := gathered.gets grown.sound x
  rw [gathered.value? grown, items, find?_firsts_without] at after
  rw [before.unique (maps.gets sound x), Heap.value?, binding?]
  split
  · rename_i same
    rwa [if_pos same] at after
  · rename_i other
    rwa [if_neg other] at after

/-- In the middle of a cycle a key is removed, and of two bindings of another key the first is left. -/
theorem mapRemove_shadowed : ∃ (s : Logged (Heap .twoLow)) (map b c d q : Ref .twoLow) (k : Heap .twoLow)
    (j : Journal), s.state.Sound ∧ s.state.collecting = true ∧ s.state.items [11, 10, 9] = [b, c, d] ∧
      mapRemove map (.bool true) s = .ok q ⟨k, j⟩ ∧ (∃ made, k.Maps q made ∧ k.items made = [b]) ∧
      k.Gets q (.bool true) none ∧ k.Gets q (.bool false) (some (.bool false)) ∧
      k.Gets map (.bool true) (some (.bool true)) := by
  obtain ⟨map, b, c, d, q, script, s, values, scripted, is, fitting, busy, inside, closed, leads, pairs, bindings,
      left, bound, other, ran⟩ :
      ∃ (map b c d q : Ref .twoLow) (script : List (Op .twoLow)) (s : Logged (Heap .twoLow))
        (values : List (Ref .twoLow)),
        script = [.act (.cons (.bool false) (.bool false)), .act (.cons (.bool true) (.bool true)),
          .act (.cons (.bool false) (.bool true)), .act (.cons d .nil), .act (.cons c ⟨36, by decide⟩),
          .act (.cons b ⟨40, by decide⟩), .age] ∧
        s = afterAll (blank .twoLow) script ∧ Fitting (blank .twoLow) script ∧ s.state.collecting = true ∧
        map ∈ values ∧ s.state.Closed values ∧ s.state.Leads map [11, 10, 9] .nil ∧
        (∀ b ∈ s.state.items [11, 10, 9], b.isCons = true) ∧ s.state.items [11, 10, 9] = [b, c, d] ∧
        ((firsts s.state.keyOf (s.state.items [11, 10, 9])).filter fun b => s.state.keyOf b ≠ .bool true) = [b] ∧
        s.state.value? [11, 10, 9] (.bool true) = some (.bool true) ∧
        s.state.value? [11, 10, 9] (.bool false) = some (.bool false) ∧
        outcomeOf (mapRemove map (.bool true) s) = .ok q :=
    ⟨⟨44, by decide⟩, ⟨24, by decide⟩, ⟨28, by decide⟩, ⟨32, by decide⟩, ⟨52, by decide⟩, _, _, [⟨24, by decide⟩,
      ⟨28, by decide⟩, ⟨32, by decide⟩, ⟨36, by decide⟩, ⟨40, by decide⟩, ⟨44, by decide⟩, .bool true, .bool false,
      .nil], rfl, rfl, by decide +kernel⟩
  have sound : s.state.Sound := is ▸ fitting.sound_blank
  have maps : s.state.Maps map [11, 10, 9] := ⟨⟨leads, closed.intact inside⟩, pairs⟩
  have before := maps.gets sound
  obtain ⟨⟨k, j⟩, done⟩ : ∃ u, mapRemove map (.bool true) s = .ok q u := ⟨_, eq_ok_of_outcome ran⟩
  obtain ⟨-, removes⟩ := (sound.mapRemove_removes maps).of_ok done
  obtain ⟨made, whole, -, items, -⟩ := removes.bindings
  have gone := removes.gets _ _ (before (.bool true))
  have kept := removes.gets _ _ (before (.bool false))
  rw [if_pos rfl] at gone
  rw [if_neg (by decide), other] at kept
  have same := (removes.sameMap.gets _ _).mpr (before (.bool true))
  rw [bound] at same
  exact ⟨s, map, b, c, d, q, k, j, sound, busy, bindings, done, ⟨made, whole, items.trans left⟩, gone, kept, same⟩

end Treadmill.Heap

import Mathlib
import Treadmill.Data.Map
import Treadmill.Proofs.Data.Spines

/-!
Maps. A map is a proper list of pairs (`Maps`), and the first of its bindings with a key is the one that
counts (`binding?`). To look a key up reads cells and changes none of them.
-/

namespace Treadmill.Heap
open Data
variable {L : Layout} {h k : Heap L} {s : Logged (Heap L)} {map p key : Ref L} {i n : Nat} {spine : List Nat}

/-- `map` is a proper list of pairs through the cells `spine`. -/
structure Maps (h : Heap L) (map : Ref L) (spine : List Nat) : Prop extends h.Lists map spine where
  pairs : ∀ b ∈ h.items spine, b.isCons = true

/-- The bindings of a map, as keys with their values. -/
def entries (h : Heap L) (spine : List Nat) : List (Ref L × Ref L) := (h.items spine).map h.parts

/-- The key that a binding binds. -/
abbrev keyOf (h : Heap L) (b : Ref L) : Ref L := (h.parts b).1

/-- The binding of a key that counts. -/
def binding? (h : Heap L) (spine : List Nat) (key : Ref L) : Option (Ref L) :=
  (h.items spine).find? fun b => h.keyOf b = key

/-- What the binding of a key that counts binds it to. -/
def value? (h : Heap L) (spine : List Nat) (key : Ref L) : Option (Ref L) :=
  (h.binding? spine key).map fun b => (h.parts b).2

/-- What a key is bound to in a list of bindings: the first counts. -/
def bound? (entries : List (Ref L × Ref L)) (key : Ref L) : Option (Ref L) :=
  (entries.find? fun e => e.1 = key).map Prod.snd

@[simp] theorem entries_cons : h.entries (i :: spine) = h.parts (h.contents i).1 :: h.entries spine := rfl

theorem value?_eq_bound? (h : Heap L) (spine : List Nat) (key : Ref L) :
    h.value? spine key = bound? (h.entries spine) key := by
  rw [value?, binding?, bound?, entries, List.find?_map, Option.map_map]
  rfl

theorem bound?_append (front back : List (Ref L × Ref L)) (key : Ref L) :
    bound? (front ++ back) key = (bound? front key).or (bound? back key) := by
  rw [bound?, List.find?_append, Option.map_or]
  rfl

/-- In `h` the binding `b` is found for the key, the empty list if there is none, and this only reads. -/
def Locates (h : Heap L) (map key b : Ref L) : Prop :=
  ∀ j, ∃ k, mapFind map key ⟨h, j⟩ = .ok b ⟨k, j⟩ ∧ Read h k

/-- In `h` the key is looked up as `found`, and this only reads. -/
def Gets (h : Heap L) (map key : Ref L) (found : Option (Ref L)) : Prop :=
  ∀ j, ∃ k, mapGet? map key ⟨h, j⟩ = .ok found ⟨k, j⟩ ∧ Read h k

namespace Maps

theorem uncons (maps : h.Maps map (i :: spine)) : map.Points i ∧ (h.contents i).1.isCons = true ∧
    h.Intact (h.contents i).1 ∧ h.Maps (h.contents i).2 spine := by
  obtain ⟨points, first, rest⟩ := maps.toLists.uncons
  exact ⟨points, maps.pairs _ (by simp), first, rest, fun b on => maps.pairs b (by simp [on])⟩

/-- A map from some cell of its spine on. -/
theorem drop {before : List Nat} (maps : h.Maps map (before ++ spine)) :
    ∃ r, h.Leads map before r ∧ h.Maps r spine := by
  induction before generalizing map with
  | nil => exact ⟨map, rfl, maps⟩
  | cons i before ih =>
    obtain ⟨points, -, -, rest⟩ := maps.uncons
    obtain ⟨r, leads, maps⟩ := ih rest
    exact ⟨r, ⟨points, leads⟩, maps⟩

theorem binding?_isCons {b : Ref L} (maps : h.Maps map spine) (found : h.binding? spine key = some b) :
    b.isCons = true ∧ h.Intact b := by
  have on := List.mem_of_find?_eq_some found
  exact ⟨maps.pairs b on, maps.items_intact b on⟩

end Maps

/-- One more pair in front. -/
theorem Maps.cons {b r : Ref L} (maps : h.Maps map spine) (intact : h.Intact r) (points : r.Points i)
    (holds : h.contents i = (b, map)) (isCons : b.isCons = true) : h.Maps r (i :: spine) where
  leads := ⟨points, by rw [holds]; exact maps.leads⟩
  intact := intact
  pairs := by
    rw [items_cons, holds, List.forall_mem_cons]
    exact ⟨isCons, maps.pairs⟩

theorem maps_nil : h.Maps .nil [] := ⟨lists_nil, by simp⟩

namespace Enlarged
variable (grown : Enlarged h k)
include grown

theorem maps (maps : h.Maps map spine) : k.Maps map spine := by
  refine ⟨grown.lists maps.toLists, ?_⟩
  rw [grown.items maps.inUse]
  exact maps.pairs

theorem entries (lists : h.Lists map spine) : k.entries spine = h.entries spine := by
  rw [Heap.entries, Heap.entries, grown.items lists.inUse]
  exact List.map_congr_left fun b on => grown.parts (lists.items_intact b on).holds

theorem value? (lists : h.Lists map spine) (key : Ref L) : k.value? spine key = h.value? spine key := by
  rw [value?_eq_bound?, value?_eq_bound?, grown.entries lists]

end Enlarged

/-! ### Looking keys up -/

theorem mapFindFrom_apply (maps : h.Maps p spine) (grown : Enlarged h s.state) (enough : spine.length < n) :
    ∃ k, mapFindFrom key n p s = .ok ((h.binding? spine key).getD .nil) ⟨k, s.journal⟩ ∧ Read s.state k := by
  induction spine generalizing n p s with
  | nil =>
    obtain ⟨n, rfl⟩ := Nat.exists_eq_add_one.mpr (Nat.zero_lt_of_lt enough)
    rw [mapFindFrom, maps.eq_nil, if_pos Ref.isNil_nil]
    exact ⟨s.state, rfl, .refl grown.sound⟩
  | cons i spine ih =>
    obtain ⟨n, rfl⟩ := Nat.exists_eq_add_one.mpr (Nat.zero_lt_of_lt enough)
    obtain ⟨points, isCons, intact, rest⟩ := maps.uncons
    obtain ⟨k₁, item, -, read₁⟩ := grown.reads (j := s.journal) maps.intact points.isCons
    rw [parts_of_points points] at item
    have grown := grown.trans read₁.enlarged
    obtain ⟨k₂, own, -, read₂⟩ := grown.reads (j := s.journal) intact isCons
    have read := read₁.trans read₂
    rw [mapFindFrom, if_neg (by simp [points.isNil])]
    simp only [Task.bind_apply, item, own]
    by_cases here : h.keyOf (h.contents i).1 = key
    · have found : h.binding? (i :: spine) key = some (h.contents i).1 := by simp [binding?, here]
      rw [if_pos here, found]
      exact ⟨k₂, rfl, read⟩
    · have found : h.binding? (i :: spine) key = h.binding? spine key := by simp [binding?, here]
      rw [if_neg here, found]
      have grown := grown.trans read₂.enlarged
      obtain ⟨k₃, -, back, read₃⟩ := grown.reads (j := s.journal) maps.intact points.isCons
      rw [parts_of_points points] at back
      obtain ⟨k₄, ran, read₄⟩ := ih (s := ⟨k₃, s.journal⟩) rest (grown.trans read₃.enlarged)
        (Nat.lt_of_succ_lt_succ enough)
      simp only [Task.bind_apply, back, ran]
      exact ⟨k₄, rfl, (read.trans read₃).trans read₄⟩

theorem mapFind_apply (maps : h.Maps map spine) (grown : Enlarged h s.state) (key : Ref L) :
    ∃ k, mapFind map key s = .ok ((h.binding? spine key).getD .nil) ⟨k, s.journal⟩ ∧ Read s.state k := by
  obtain ⟨limit, limited, enough⟩ := grown.walkLimit (j := s.journal) maps.toLists
  rw [mapFind, Task.bind_apply, show walkLimit s = .ok limit s from limited]
  exact mapFindFrom_apply maps grown enough

theorem builds_mapFind {β : Type} {next : Ref L → HeapTask L β} {after : β → Heap L → Prop}
    (maps : h.Maps map spine) (grown : Enlarged h s.state) (onward : ∀ k, Read s.state k → Enlarged h k →
      Builds (next ((h.binding? spine key).getD .nil)) ⟨k, s.journal⟩ after) :
    Builds (mapFind map key >>= next) s after := by
  obtain ⟨k, ran, read⟩ := mapFind_apply maps grown key
  exact builds_read ran read (onward k read (grown.trans read.enlarged))

theorem mapGet?_apply (maps : h.Maps map spine) (grown : Enlarged h s.state) (key : Ref L) :
    ∃ k, mapGet? map key s = .ok (h.value? spine key) ⟨k, s.journal⟩ ∧ Read s.state k := by
  obtain ⟨k₁, ran, read₁⟩ := mapFind_apply maps grown key
  rw [mapGet?, Task.bind_apply, ran, value?]
  cases found : h.binding? spine key with
  | none =>
    simp only [Option.getD_none, Ref.isNil_nil, if_true]
    exact ⟨k₁, rfl, read₁⟩
  | some b =>
    obtain ⟨isCons, intact⟩ := maps.binding?_isCons found
    obtain ⟨k₂, -, back, read₂⟩ := (grown.trans read₁.enlarged).reads (j := s.journal) intact isCons
    simp only [Option.getD_some, Ref.isNil_of_target? (Ref.target?_of_isCons isCons), Bool.false_eq_true, if_false,
      Task.bind_apply, back]
    exact ⟨k₂, rfl, read₁.trans read₂⟩

/-- A key is looked up as one thing only. -/
theorem Gets.unique {found other : Option (Ref L)} (gets : h.Gets map key found) (again : h.Gets map key other) :
    found = other := by
  obtain ⟨k, one, -⟩ := gets ⟨none, #[]⟩
  obtain ⟨m, two, -⟩ := again ⟨none, #[]⟩
  rw [one] at two
  cases two
  rfl

theorem Locates.unique {b c : Ref L} (locates : h.Locates map key b) (again : h.Locates map key c) : b = c := by
  obtain ⟨k, one, -⟩ := locates ⟨none, #[]⟩
  obtain ⟨m, two, -⟩ := again ⟨none, #[]⟩
  rw [one] at two
  cases two
  rfl

theorem Maps.locates (maps : h.Maps map spine) (sound : h.Sound) (key : Ref L) :
    h.Locates map key ((h.binding? spine key).getD .nil) :=
  fun j => mapFind_apply (s := ⟨h, j⟩) maps (.refl sound) key

theorem Maps.gets (maps : h.Maps map spine) (sound : h.Sound) (key : Ref L) :
    h.Gets map key (h.value? spine key) :=
  fun j => mapGet?_apply (s := ⟨h, j⟩) maps (.refl sound) key

/-- The map has the same bindings in both heaps, and each key is looked up alike. -/
structure SameMap (h k : Heap L) (map : Ref L) (spine : List Nat) : Prop where
  maps : k.Maps map spine
  items : k.items spine = h.items spine
  entries : k.entries spine = h.entries spine
  gets : ∀ key found, k.Gets map key found ↔ h.Gets map key found

theorem Enlarged.sameMap (grown : Enlarged h k) (sound : h.Sound) (maps : h.Maps map spine) :
    SameMap h k map spine where
  maps := grown.maps maps
  items := grown.items maps.inUse
  entries := grown.entries maps.toLists
  gets key found := by
    have before := maps.gets sound key
    have after := (grown.maps maps).gets grown.sound key
    rw [grown.value? maps.toLists] at after
    constructor
    · intro gets
      obtain rfl := gets.unique after
      exact before
    · intro gets
      obtain rfl := gets.unique before
      exact after

end Treadmill.Heap

import Mathlib
import Treadmill.Proofs.Data.Lookup

/-!
One map put onto another. The bindings go onto the front one by one, so they come out in reverse order:
of several bindings with one key it is the last that counts afterwards (`Sound.mapPutAll_overlays`).
-/

namespace Treadmill.Heap
open Data
variable {L : Layout} {h k : Heap L} {s : Logged (Heap L)} {map other p key val : Ref L} {n : Nat}
  {spine cells : List Nat}

theorem builds_mapPut (sound : s.state.Sound) (maps : s.state.Maps map cells) (whole : s.state.Intact key)
    (whole' : s.state.Intact val) : Builds (mapPut map key val) s fun q k =>
      ∃ i, k.Maps q (i :: cells) ∧ k.entries (i :: cells) = (key, val) :: s.state.entries cells := by
  rw [mapPut, maps.isPair]
  apply builds_read rfl (.refl sound)
  apply (builds_cons sound whole whole').bind
  rintro b u grown ⟨intact, _, binding⟩
  apply (builds_cons grown.sound intact (grown.intact maps.intact)).mono
  rintro q k grown' ⟨intact, i, pair⟩
  have later := grown.trans grown'
  refine ⟨i, (later.maps maps).cons intact pair.points pair.holds binding.new.isCons, ?_⟩
  rw [entries_cons, pair.holds, (binding.grown grown').parts, later.entries maps.toLists]

theorem builds_mapPutBinding {b : Ref L} (grown : Enlarged h s.state) (intact : h.Intact b)
    (isCons : b.isCons = true) (maps : s.state.Maps map cells) : Builds (mapPutBinding map b) s fun q k =>
      ∃ i, k.Maps q (i :: cells) ∧ k.entries (i :: cells) = h.parts b :: s.state.entries cells := by
  rw [mapPutBinding, if_pos isCons]
  apply builds_first grown intact isCons
  intro k₁ read₁ grown₁
  apply builds_rest (s := ⟨k₁, s.journal⟩) grown₁ intact isCons
  intro k₂ read₂ grown₂
  have read := (read₁.trans read₂).enlarged
  rw [← read.entries maps.toLists]
  exact builds_mapPut (s := ⟨k₂, s.journal⟩) grown₂.sound (read.maps maps) (grown₂.intact (intact.first isCons))
    (grown₂.intact (intact.rest isCons))

/-- The bindings from `p` on go to the front of what is there so far, the last of them foremost. -/
theorem builds_mapPutAllFrom (others : h.Maps p spine) (grown : Enlarged h s.state)
    (maps : s.state.Maps map cells) (enough : spine.length < n) :
    Builds (mapPutAllFrom n map p) s fun q k =>
      ∃ made, k.Maps q made ∧ k.entries made = (h.entries spine).reverse ++ s.state.entries cells := by
  induction spine generalizing n p s map cells with
  | nil =>
    obtain ⟨n, rfl⟩ := Nat.exists_eq_add_one.mpr (Nat.zero_lt_of_lt enough)
    rw [mapPutAllFrom, others.eq_nil, if_neg (by simp [Ref.isCons])]
    exact builds_pure grown.sound ⟨cells, maps, rfl⟩
  | cons i spine ih =>
    obtain ⟨n, rfl⟩ := Nat.exists_eq_add_one.mpr (Nat.zero_lt_of_lt enough)
    obtain ⟨points, isCons, intact, rest⟩ := others.uncons
    rw [mapPutAllFrom, if_pos points.isCons]
    apply builds_first grown others.intact points.isCons
    intro k₁ read₁ grown₁
    rw [parts_of_points points]
    apply (builds_mapPutBinding (s := ⟨k₁, s.journal⟩) grown₁ intact isCons (read₁.enlarged.maps maps)).bind
    rintro map' u born ⟨c, maps', entries'⟩
    apply builds_rest (grown₁.trans born) others.intact points.isCons
    intro k₂ read₂ grown₂
    rw [parts_of_points points]
    apply (ih (s := ⟨k₂, u.journal⟩) rest grown₂ (read₂.enlarged.maps maps') (Nat.lt_of_succ_lt_succ enough)).mono
    rintro q k - ⟨made, maps'', entries''⟩
    refine ⟨made, maps'', ?_⟩
    rw [entries'', read₂.enlarged.entries maps'.toLists, entries', read₁.enlarged.entries maps.toLists]
    simp

theorem builds_mapPutAll (sound : s.state.Sound) (maps : s.state.Maps map cells)
    (others : s.state.Maps other spine) : Builds (mapPutAll map other) s fun q k =>
      ∃ made, k.Maps q made ∧ k.entries made = (s.state.entries spine).reverse ++ s.state.entries cells := by
  apply builds_walkLimit others.toLists (.refl sound)
  intro n enough
  exact builds_mapPutAllFrom others (.refl sound) maps enough

/-- What becomes of two maps when the second is put onto the first, `q` being the outcome. -/
structure Overlays (h k : Heap L) (map other q : Ref L) (cells spine : List Nat) : Prop where
  /-- The last binding of a key in the second map counts. -/
  gets : ∀ key found, h.Gets map key found → k.Gets q key ((bound? (h.entries spine).reverse key).or found)
  /-- A key is looked up as in the second map just when the last of its bindings there agrees with the first. -/
  agrees : ∀ key found above, h.Gets map key found → h.Gets other key above →
    (k.Gets q key (above.or found) ↔ bound? (h.entries spine).reverse key = above)
  sameMap : SameMap h k map cells
  sameOther : SameMap h k other spine

theorem bound?_reverse_eq_none {entries : List (Ref L × Ref L)} :
    bound? entries.reverse key = none ↔ bound? entries key = none := by
  simp [bound?]

theorem Sound.mapPutAll_overlays (sound : s.state.Sound) (maps : s.state.Maps map cells)
    (others : s.state.Maps other spine) :
    Builds (mapPutAll map other) s fun q k => Overlays s.state k map other q cells spine := by
  apply (builds_mapPutAll sound maps others).mono
  rintro q k grown ⟨made, whole, entries⟩
  have gets : ∀ key found, s.state.Gets map key found →
      k.Gets q key ((bound? (s.state.entries spine).reverse key).or found) := by
    intro key found before
    have after := whole.gets grown.sound key
    rwa [value?_eq_bound?, entries, bound?_append, ← value?_eq_bound?,
      ← before.unique (maps.gets sound key)] at after
  refine ⟨gets, fun key found above before before' => ?_, grown.sameMap sound maps, grown.sameMap sound others⟩
  have first := before'.unique (others.gets sound key)
  rw [value?_eq_bound?] at first
  constructor
  · intro again
    have same := (gets key found before).unique again
    cases above with
    | none => rw [bound?_reverse_eq_none, first]
    | some v =>
      cases last : bound? (s.state.entries spine).reverse key with
      | none =>
        rw [bound?_reverse_eq_none, ← first] at last
        cases last
      | some w => simpa [last] using same
  · intro same
    rw [← same]
    exact gets key found before

/-- In the middle of a cycle the one binding of the second map counts, and the first map stays as it was. -/
theorem mapPutAll_one_binding : ∃ (s : Logged (Heap .twoLow)) (map other key val val' q : Ref .twoLow)
    (k : Heap .twoLow) (j : Journal), s.state.Sound ∧ s.state.collecting = true ∧ val ≠ val' ∧
      s.state.Gets map key (some val) ∧ s.state.Gets other key (some val') ∧
      mapPutAll map other s = .ok q ⟨k, j⟩ ∧ k.Gets q key (some val') ∧ k.Gets map key (some val) := by
  obtain ⟨map, other, q, script, s, values, scripted, is, fitting, busy, inside, closed, leads, leads', pairs,
      pairs', below, above, last, ran⟩ :
      ∃ (map other q : Ref .twoLow) (script : List (Op .twoLow)) (s : Logged (Heap .twoLow))
        (values : List (Ref .twoLow)),
        script = [.act (.cons (.bool true) .nil), .act (.cons ⟨24, by decide⟩ .nil),
          .act (.cons (.bool true) (.bool false)), .act (.cons ⟨32, by decide⟩ .nil), .age] ∧
        s = afterAll (blank .twoLow) script ∧ Fitting (blank .twoLow) script ∧ s.state.collecting = true ∧
        (map ∈ values ∧ other ∈ values) ∧ s.state.Closed values ∧ s.state.Leads map [7] .nil ∧
        s.state.Leads other [9] .nil ∧ (∀ b ∈ s.state.items [7], b.isCons = true) ∧
        (∀ b ∈ s.state.items [9], b.isCons = true) ∧ s.state.value? [7] (.bool true) = some .nil ∧
        s.state.value? [9] (.bool true) = some (.bool false) ∧
        bound? (s.state.entries [9]).reverse (.bool true) = some (.bool false) ∧
        outcomeOf (mapPutAll map other s) = .ok q :=
    ⟨⟨28, by decide⟩, ⟨36, by decide⟩, ⟨44, by decide⟩, _, _, [⟨24, by decide⟩, ⟨28, by decide⟩, ⟨32, by decide⟩,
      ⟨36, by decide⟩, .bool true, .bool false, .nil], rfl, rfl, by decide +kernel⟩
  have sound : s.state.Sound := is ▸ fitting.sound_blank
  have maps : s.state.Maps map [7] := ⟨⟨leads, closed.intact inside.1⟩, pairs⟩
  have others : s.state.Maps other [9] := ⟨⟨leads', closed.intact inside.2⟩, pairs'⟩
  have inMap := maps.gets sound (.bool true)
  have inOther := others.gets sound (.bool true)
  rw [below] at inMap
  rw [above] at inOther
  obtain ⟨⟨k, j⟩, done⟩ : ∃ u, mapPutAll map other s = .ok q u := ⟨_, eq_ok_of_outcome ran⟩
  obtain ⟨-, overlays⟩ := (sound.mapPutAll_overlays maps others).of_ok done
  exact ⟨s, map, other, .bool true, .nil, .bool false, q, k, j, sound, busy, by decide, inMap, inOther, done,
    (overlays.agrees _ _ _ inMap inOther).mpr last, (overlays.sameMap.gets _ _).mpr inMap⟩

/-- A binding that is shadowed in the second map comes to the front, and the one that shadowed it is lost. -/
theorem mapPutAll_uncovers : ¬∀ (s : Logged (Heap .twoLow)) (map other : Ref .twoLow) (cells spine : List Nat),
    s.state.Sound → s.state.Maps map cells → s.state.Maps other spine →
      Builds (mapPutAll map other) s fun q k => ∀ key found above, s.state.Gets map key found →
        s.state.Gets other key above → k.Gets q key (above.or found) := by
  intro claim
  obtain ⟨other, q, script, s, values, scripted, is, fitting, inside, closed, leads, pairs, above, ran, got⟩ :
      ∃ (other q : Ref .twoLow) (script : List (Op .twoLow)) (s : Logged (Heap .twoLow))
        (values : List (Ref .twoLow)),
        script = [.act (.cons (.bool true) (.bool true)), .act (.cons (.bool true) (.bool false)),
          .act (.cons ⟨28, by decide⟩ .nil), .act (.cons ⟨24, by decide⟩ ⟨32, by decide⟩)] ∧
        s = afterAll (blank .twoLow) script ∧ Fitting (blank .twoLow) script ∧ other ∈ values ∧
        s.state.Closed values ∧ s.state.Leads other [9, 8] .nil ∧
        (∀ b ∈ s.state.items [9, 8], b.isCons = true) ∧ s.state.value? [9, 8] (.bool true) = some (.bool true) ∧
        outcomeOf (mapPutAll .nil other s) = .ok q ∧
        outcomeOf (mapGet? q (.bool true) (stateAfter (mapPutAll .nil other s))) = .ok (some (.bool false)) :=
    ⟨⟨36, by decide⟩, ⟨52, by decide⟩, _, _, [⟨24, by decide⟩, ⟨28, by decide⟩, ⟨32, by decide⟩, ⟨36, by decide⟩,
      .bool true, .bool false, .nil], rfl, rfl, by decide +kernel⟩
  have sound : s.state.Sound := is ▸ fitting.sound_blank
  have others : s.state.Maps other [9, 8] := ⟨⟨leads, closed.intact inside⟩, pairs⟩
  have inOther := others.gets sound (.bool true)
  rw [above] at inOther
  obtain ⟨⟨k, j⟩, done⟩ : ∃ u, mapPutAll .nil other s = .ok q u := ⟨_, eq_ok_of_outcome ran⟩
  obtain ⟨-, gets⟩ := (claim s .nil other [] [9, 8] sound maps_nil others).of_ok done
  obtain ⟨m, found, -⟩ := gets _ _ _ (maps_nil.gets sound (.bool true)) inOther j
  rw [done, stateAfter, found, outcomeOf] at got
  exact absurd got (by rw [Option.some_or]; decide)

end Treadmill.Heap

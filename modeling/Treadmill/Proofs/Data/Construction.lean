import Mathlib
import Treadmill.Proofs.Data.Overlay

/-!
Lists and maps that are made of others. A list is copied in front of whatever stands behind it, or not at
all if it does not come to a proper end; keys and values are bound in pairs, and of several bindings with
one key it is the last that counts (`Sound.constructs`).
-/

namespace Treadmill.Heap
open Data
variable {L : Layout} {h k : Heap L} {s : Logged (Heap L)} {map key keys vals p q v x y tail tail' : Ref L}
  {i n : Nat} {spine cells more : List Nat} {values : List (Ref L)}

/-- What is no pair with a cell is the empty list or no pair at all. -/
theorem Strand.isPair_eq_false (strand : h.Strand p spine tail) (improper : tail ≠ .nil) :
    tail.isPair = false := by
  cases isPair : tail.isPair with
  | false => rfl
  | true =>
    have notNil : tail.isNil = false := by rwa [Bool.eq_false_iff, ne_eq, Ref.isNil_iff]
    simpa [Ref.isCons_of_isPair isPair notNil] using strand.ends

theorem Strand.eq_tail (strand : h.Strand p [] tail) : p = tail := strand.leads

/-! ### Walks -/

/-- The walk reads what it passes and then looks at how the chain ends. -/
theorem itemsFrom_apply (strand : h.Strand p spine tail) (grown : Enlarged h s.state) (enough : spine.length < n)
    (seen : List (Ref L)) : ∃ k, Read s.state k ∧ itemsFrom n p seen s =
      if tail.isNil then .ok (seen.reverse ++ h.items spine) ⟨k, s.journal⟩
      else .error (.misuse .first tail.value) ⟨k, s.journal⟩ := by
  induction spine generalizing n p s seen with
  | nil =>
    obtain ⟨n, rfl⟩ := Nat.exists_eq_add_one.mpr (Nat.zero_lt_of_lt enough)
    obtain rfl := strand.eq_tail
    refine ⟨s.state, .refl grown.sound, ?_⟩
    rw [itemsFrom]
    cases isNil : p.isNil with
    | true => simp
    | false =>
      have notPair := strand.isPair_eq_false fun same => by simp [same] at isNil
      simp [first, isNil, notPair, Task.bind_apply]
  | cons i spine ih =>
    obtain ⟨n, rfl⟩ := Nat.exists_eq_add_one.mpr (Nat.zero_lt_of_lt enough)
    obtain ⟨points, -, behind⟩ := strand.uncons
    obtain ⟨k₁, item, -, read₁⟩ := grown.reads (j := s.journal) strand.intact points.isCons
    have grown := grown.trans read₁.enlarged
    obtain ⟨k₂, -, onward, read₂⟩ := grown.reads (j := s.journal) strand.intact points.isCons
    have grown := grown.trans read₂.enlarged
    rw [parts_of_points points] at item onward
    obtain ⟨k, read, walked⟩ := ih (s := ⟨k₂, s.journal⟩) behind grown (Nat.lt_of_succ_lt_succ enough)
      ((h.contents i).1 :: seen)
    refine ⟨k, (read₁.trans read₂).trans read, ?_⟩
    rw [itemsFrom, if_neg (by simp [points.isNil])]
    simp only [Task.bind_apply, item, onward, walked]
    simp

theorem lengthFrom_apply (lists : h.Lists p spine) (grown : Enlarged h s.state) (enough : spine.length < n)
    (count : Nat) :
    ∃ k, Read s.state k ∧ lengthFrom n p count s = .ok (count + spine.length) ⟨k, s.journal⟩ := by
  induction spine generalizing n p s count with
  | nil =>
    obtain ⟨n, rfl⟩ := Nat.exists_eq_add_one.mpr (Nat.zero_lt_of_lt enough)
    rw [lengthFrom, lists.eq_nil, if_pos Ref.isNil_nil]
    exact ⟨s.state, .refl grown.sound, rfl⟩
  | cons i spine ih =>
    obtain ⟨n, rfl⟩ := Nat.exists_eq_add_one.mpr (Nat.zero_lt_of_lt enough)
    obtain ⟨points, -, behind⟩ := lists.uncons
    obtain ⟨k₁, -, onward, read₁⟩ := grown.reads (j := s.journal) lists.intact points.isCons
    rw [parts_of_points points] at onward
    obtain ⟨k, read, walked⟩ := ih (s := ⟨k₁, s.journal⟩) behind (grown.trans read₁.enlarged)
      (Nat.lt_of_succ_lt_succ enough) (count + 1)
    refine ⟨k, read₁.trans read, ?_⟩
    rw [lengthFrom, if_neg (by simp [points.isNil])]
    simp only [Task.bind_apply, onward, walked, List.length_cons]
    congr 1
    omega

theorem items_apply (strand : s.state.Strand p spine tail) (sound : s.state.Sound) :
    ∃ k, Read s.state k ∧ Data.items p s =
      if tail.isNil then .ok (s.state.items spine) ⟨k, s.journal⟩
      else .error (.misuse .first tail.value) ⟨k, s.journal⟩ := by
  obtain ⟨limit, limited, enough⟩ := (Enlarged.refl sound).strandLimit (j := s.journal) strand
  obtain ⟨k, read, walked⟩ := itemsFrom_apply strand (.refl sound) enough []
  refine ⟨k, read, ?_⟩
  rw [Data.items, Task.bind_apply, show walkLimit s = .ok limit s from limited]
  exact walked

theorem length_apply (lists : s.state.Lists p spine) (sound : s.state.Sound) :
    ∃ k, Read s.state k ∧ length p s = .ok spine.length ⟨k, s.journal⟩ := by
  obtain ⟨limit, limited, enough⟩ := (Enlarged.refl sound).walkLimit (j := s.journal) lists
  obtain ⟨k, read, walked⟩ := lengthFrom_apply lists (.refl sound) enough 0
  refine ⟨k, read, ?_⟩
  rw [length, Task.bind_apply, show walkLimit s = .ok limit s from limited]
  simpa using walked

/-! ### Copies -/

theorem Strings.getLast? (strings : Strings h k values q tail spine) (last : i ∈ spine.getLast?) :
    (k.contents i).2 = tail := by
  obtain ⟨front, rfl⟩ := List.getLast?_eq_some_iff.mp last
  obtain ⟨r, -, -, rest⟩ := leads_concat.mp strings.leads
  exact rest

/-- A copy of `values`, its new cells `cells`, stands in front of `y` from `q` on. -/
structure Copies (h k : Heap L) (values : List (Ref L)) (y q : Ref L) (cells : List Nat) : Prop where
  strings : Strings h k values q y cells
  last : ∀ i ∈ cells.getLast?, (k.contents i).2 = y
  bare : values = [] → q = y
  whole : ∀ more, h.Lists y more → k.Lists q (cells ++ more) ∧ k.items (cells ++ more) = values ++ h.items more

theorem Strings.copies (strings : Strings h k values q y cells) (intact : k.Intact q) (grown : Enlarged h k) :
    Copies h k values y q cells where
  strings := strings
  last i := strings.getLast?
  bare none := by
    subst none
    exact strings.eq_of_nil
  whole more lists := by
    have behind := grown.lists lists
    refine ⟨⟨leads_append.mpr ⟨y, strings.leads, behind.leads⟩, intact⟩, ?_⟩
    rw [items_append, strings.items, grown.items lists.inUse]

theorem builds_append (sound : s.state.Sound) (lists : s.state.Lists x spine) (intact : s.state.Intact y) :
    Builds (append x y) s fun q k => ∃ cells, Copies s.state k (s.state.items spine) y q cells := by
  obtain ⟨m, read, walked⟩ := items_apply lists.strand sound
  rw [if_pos Ref.isNil_nil] at walked
  rw [append, lists.isPair]
  apply builds_read rfl (.refl sound)
  apply builds_read walked read
  have each : ∀ v ∈ s.state.items spine, m.Intact v := fun v on => read.enlarged.intact (lists.items_intact v on)
  apply (builds_consAll (s := ⟨m, s.journal⟩) read.sound each (read.enlarged.intact intact)).mono
  rintro q k grown ⟨whole, cells, strings⟩
  exact ⟨cells, (strings.since read.enlarged).copies whole (read.enlarged.trans grown)⟩

theorem builds_ofList (sound : s.state.Sound) (each : ∀ v ∈ values, s.state.Intact v) :
    Builds (ofList values) s fun q k => ∃ cells, k.Lists q cells ∧ k.items cells = values := by
  apply (builds_consAll sound each intact_nil).mono
  rintro q k - ⟨intact, cells, strings⟩
  exact ⟨cells, strings.lists intact, strings.items⟩

/-! ### Pairs of keys and values -/

/-- `v` stands at the last place that has `key` among the keys and any value at all. -/
def Assigns (keys values : List (Ref L)) (key v : Ref L) : Prop :=
  ∃ i : Nat, keys[i]? = some key ∧ values[i]? = some v ∧ ∀ j, i < j → keys[j]? = some key → values[j]? = none

/-- Nothing stands among the values where `key` does among the keys. -/
def Omits (keys values : List (Ref L)) (key : Ref L) : Prop :=
  ∀ i : Nat, keys[i]? = some key → values[i]? = none

section Zip
variable {ks vs : List (Ref L)}

theorem Omits.bound? (omits : Omits ks vs key) : bound? (ks.zip vs).reverse key = none := by
  rw [Heap.bound?, Option.map_eq_none_iff, List.find?_eq_none]
  rintro ⟨k, v⟩ on same
  obtain ⟨i, at'⟩ := List.getElem?_of_mem (List.mem_reverse.mp on)
  obtain ⟨left, right⟩ := List.getElem?_zip_eq_some.mp at'
  obtain rfl : k = key := by simpa using same
  rw [omits i left] at right
  cases right

theorem Assigns.bound? (assigns : Assigns ks vs key v) : bound? (ks.zip vs).reverse key = some v := by
  obtain ⟨i, left, right, last⟩ := assigns
  induction ks generalizing vs i with
  | nil => simp at left
  | cons k ks ih =>
    cases vs with
    | nil => simp at right
    | cons w vs =>
      rw [List.zip_cons_cons, List.reverse_cons, bound?_append]
      cases i with
      | zero =>
        have omits : Omits ks vs key := fun j here => last (j + 1) (Nat.succ_pos j) here
        obtain rfl : k = key := by simpa using left
        obtain rfl : w = v := by simpa using right
        rw [omits.bound?]
        simp [Heap.bound?]
      | succ i =>
        rw [ih i left right fun j less here => last (j + 1) (Nat.succ_lt_succ less) here]
        rfl

end Zip

/-- Where the pairs of slots run out, so do the bindings that are made. -/
theorem builds_mapDefineFrom (ks : h.Strand keys spine tail) (vs : h.Strand vals more tail')
    (grown : Enlarged h s.state) (maps : s.state.Maps map cells) (enough : spine.length < n) :
    Builds (mapDefineFrom n map keys vals) s fun q k => ∃ made, k.Maps q made ∧
      k.entries made = ((h.items spine).zip (h.items more)).reverse ++ s.state.entries cells := by
  induction spine generalizing n keys vals more s map cells with
  | nil =>
    obtain ⟨n, rfl⟩ := Nat.exists_eq_add_one.mpr (Nat.zero_lt_of_lt enough)
    obtain rfl := ks.eq_tail
    rw [mapDefineFrom, if_neg (by simp [ks.ends])]
    exact builds_pure grown.sound ⟨cells, maps, rfl⟩
  | cons i spine ih =>
    obtain ⟨n, rfl⟩ := Nat.exists_eq_add_one.mpr (Nat.zero_lt_of_lt enough)
    cases more with
    | nil =>
      obtain rfl := vs.eq_tail
      rw [mapDefineFrom, if_neg (by simp [vs.ends])]
      exact builds_pure grown.sound ⟨cells, maps, by simp⟩
    | cons j more =>
      obtain ⟨points, whole, behind⟩ := ks.uncons
      obtain ⟨points', whole', behind'⟩ := vs.uncons
      rw [mapDefineFrom, if_pos (by simp [points.isCons, points'.isCons])]
      apply builds_first grown ks.intact points.isCons
      intro k₁ read₁ grown₁
      apply builds_first (s := ⟨k₁, s.journal⟩) grown₁ vs.intact points'.isCons
      intro k₂ read₂ grown₂
      have read := (read₁.trans read₂).enlarged
      rw [parts_of_points points, parts_of_points points']
      apply (builds_mapPut (s := ⟨k₂, s.journal⟩) grown₂.sound (read.maps maps) (grown₂.intact whole)
        (grown₂.intact whole')).bind
      rintro map' u born ⟨c, maps', entries'⟩
      apply builds_rest (grown₂.trans born) ks.intact points.isCons
      intro k₃ read₃ grown₃
      apply builds_rest (s := ⟨k₃, u.journal⟩) grown₃ vs.intact points'.isCons
      intro k₄ read₄ grown₄
      have read' := (read₃.trans read₄).enlarged
      rw [parts_of_points points, parts_of_points points']
      apply (ih (s := ⟨k₄, u.journal⟩) behind behind' grown₄ (read'.maps maps')
        (Nat.lt_of_succ_lt_succ enough)).mono
      rintro q k - ⟨made, maps'', entries''⟩
      refine ⟨made, maps'', ?_⟩
      rw [entries'', read'.entries maps'.toLists, entries', read.entries maps.toLists]
      simp

theorem builds_mapDefine (sound : s.state.Sound) (maps : s.state.Maps map cells)
    (ks : s.state.Strand keys spine tail) (vs : s.state.Strand vals more tail') :
    Builds (mapDefine map keys vals) s fun q k => ∃ made, k.Maps q made ∧ k.entries made =
      ((s.state.items spine).zip (s.state.items more)).reverse ++ s.state.entries cells := by
  apply builds_strandLimit ks (.refl sound)
  intro n enough
  exact builds_mapDefineFrom ks vs (.refl sound) maps enough

/-- What a map is after keys have been bound to values in pairs, `q` being the outcome. -/
structure Defines (h k : Heap L) (map q : Ref L) (keys values : List (Ref L)) : Prop where
  assigned : ∀ key v, Assigns keys values key v → k.Gets q key (some v)
  omitted : ∀ key found, Omits keys values key → h.Gets map key found → k.Gets q key found

theorem Sound.defines (sound : s.state.Sound) (maps : s.state.Maps map cells)
    (ks : s.state.Strand keys spine tail) (vs : s.state.Strand vals more tail') :
    Builds (mapDefine map keys vals) s fun q k =>
      Defines s.state k map q (s.state.items spine) (s.state.items more) := by
  apply (builds_mapDefine sound maps ks vs).mono
  rintro q k grown ⟨made, maps', entries⟩
  have gets := maps'.gets grown.sound
  constructor
  · intro key v assigns
    have here := gets key
    rwa [value?_eq_bound?, entries, bound?_append, assigns.bound?] at here
  · intro key found omits before
    have here := gets key
    rwa [value?_eq_bound?, entries, bound?_append, omits.bound?, Option.none_or, ← value?_eq_bound?,
      ← before.unique (maps.gets sound key)] at here

/-! ### All of them -/

/-- What is made of lists and maps in `s`. Nothing that was in use changes, be it by reading alone (`Read`) or
next to new cells (`Builds`). -/
structure Constructs (s : Logged (Heap L)) : Prop where
  ofList : ∀ values, (∀ v ∈ values, s.state.Intact v) →
    Builds (ofList values) s fun q k => ∃ cells, k.Lists q cells ∧ k.items cells = values
  append : ∀ x y spine, s.state.Lists x spine → s.state.Intact y →
    Builds (append x y) s fun q k => ∃ cells, Copies s.state k (s.state.items spine) y q cells
  reverse : ∀ x spine, s.state.Lists x spine →
    Builds (reverse x) s fun q k => ∃ cells, k.Lists q cells ∧ k.items cells = (s.state.items spine).reverse
  length : ∀ x spine, s.state.Lists x spine →
    ∃ k, Read s.state k ∧ length x s = .ok (s.state.items spine).length ⟨k, s.journal⟩
  define : ∀ map cells keys spine tail vals more tail', s.state.Maps map cells → s.state.Strand keys spine tail →
    s.state.Strand vals more tail' → Builds (mapDefine map keys vals) s fun q k =>
      Defines s.state k map q (s.state.items spine) (s.state.items more)
  /-- What is no pair is not copied, and nothing is read. -/
  refuses : ∀ x y, x.isPair = false → Data.append x y s = .error (.misuse .append x.value) s
  /-- A chain that ends in anything but the empty list is not copied either, though it has been read. -/
  breaks : ∀ x y spine tail, s.state.Strand x spine tail → x.isPair = true → tail ≠ .nil →
    ∃ k, Read s.state k ∧ Data.append x y s = .error (.misuse .first tail.value) ⟨k, s.journal⟩

theorem append_refuses (isPair : x.isPair = false) : append x y s = .error (.misuse .append x.value) s := by
  rw [append, isPair]
  rfl

theorem Sound.append_breaks (sound : s.state.Sound) (strand : s.state.Strand x spine tail)
    (isPair : x.isPair = true) (improper : tail ≠ .nil) :
    ∃ k, Read s.state k ∧ append x y s = .error (.misuse .first tail.value) ⟨k, s.journal⟩ := by
  obtain ⟨k, read, walked⟩ := items_apply strand sound
  rw [if_neg (by simpa [Ref.isNil_iff] using improper)] at walked
  refine ⟨k, read, ?_⟩
  rw [append, isPair]
  simp [Task.bind_apply, walked]

theorem Sound.constructs (sound : s.state.Sound) : Constructs s where
  ofList values each := builds_ofList sound each
  append x y spine lists intact := builds_append sound lists intact
  reverse x spine lists := by
    apply (builds_reverse lists (.refl sound)).mono
    rintro q k - ⟨cells, lists, items, -⟩
    exact ⟨cells, lists, items⟩
  length x spine lists := by
    rw [Heap.items, List.length_map]
    exact length_apply lists sound
  define map cells keys spine tail vals more tail' maps ks vs := sound.defines maps ks vs
  refuses x y isPair := append_refuses isPair
  breaks x y spine tail strand isPair improper := sound.append_breaks strand isPair improper

/-- In the middle of a cycle, two keys that are the same are bound to the first two of three values: the second
counts. A chain that ends in a truth value is not copied. -/
theorem constructs_repeated_key : ∃ (s : Logged (Heap .twoLow)) (keys vals dotted q : Ref .twoLow)
    (k m : Heap .twoLow) (j : Journal), s.state.Sound ∧ s.state.collecting = true ∧ Constructs s ∧
      mapDefine .nil keys vals s = .ok q ⟨k, j⟩ ∧ k.Gets q (.bool true) (some .nil) ∧
      append dotted keys s = .error (.misuse .first (.bool false)) ⟨m, s.journal⟩ ∧ Read s.state m := by
  obtain ⟨keys, vals, dotted, q, script, s, values, scripted, is, fitting, busy, inside, closed, leads, leads',
      leads'', isPair, first, second, ran⟩ :
      ∃ (keys vals dotted q : Ref .twoLow) (script : List (Op .twoLow)) (s : Logged (Heap .twoLow))
        (values : List (Ref .twoLow)),
        script = [.act (.cons (.bool true) .nil), .act (.cons (.bool true) ⟨24, by decide⟩),
          .act (.cons (.bool true) .nil), .act (.cons .nil ⟨32, by decide⟩),
          .act (.cons (.bool false) ⟨36, by decide⟩), .act (.cons (.bool true) (.bool false)), .age] ∧
        s = afterAll (blank .twoLow) script ∧ Fitting (blank .twoLow) script ∧ s.state.collecting = true ∧
        (keys ∈ values ∧ vals ∈ values ∧ dotted ∈ values) ∧ s.state.Closed values ∧
        s.state.Leads keys [7, 6] .nil ∧ s.state.Leads vals [10, 9, 8] .nil ∧
        s.state.Leads dotted [11] (.bool false) ∧ dotted.isPair = true ∧
        s.state.items [7, 6] = [.bool true, .bool true] ∧
        s.state.items [10, 9, 8] = [.bool false, .nil, .bool true] ∧
        outcomeOf (mapDefine .nil keys vals s) = .ok q :=
    ⟨⟨28, by decide⟩, ⟨40, by decide⟩, ⟨44, by decide⟩, ⟨60, by decide⟩, _, _, [⟨24, by decide⟩, ⟨28, by decide⟩,
      ⟨32, by decide⟩, ⟨36, by decide⟩, ⟨40, by decide⟩, ⟨44, by decide⟩, .bool true, .bool false, .nil], rfl, rfl,
      by decide +kernel⟩
  have sound : s.state.Sound := is ▸ fitting.sound_blank
  have constructs := sound.constructs
  obtain ⟨⟨k, j⟩, done⟩ : ∃ u, mapDefine .nil keys vals s = .ok q u := ⟨_, eq_ok_of_outcome ran⟩
  obtain ⟨-, defines⟩ := (constructs.define .nil [] keys [7, 6] .nil vals [10, 9, 8] .nil maps_nil
    ⟨leads, closed.intact inside.1, by simp⟩ ⟨leads', closed.intact inside.2.1, by simp⟩).of_ok done
  have got : k.Gets q (.bool true) (some .nil) := by
    apply defines.assigned
    rw [first, second]
    refine ⟨1, rfl, rfl, ?_⟩
    rintro (_ | _ | j) less here
    · simp at less
    · simp at less
    · simp at here
  obtain ⟨m, read, broke⟩ := constructs.breaks dotted keys [11] (.bool false)
    ⟨leads'', closed.intact inside.2.2, by decide⟩ isPair (by decide)
  exact ⟨s, keys, vals, dotted, q, k, m, j, sound, busy, constructs, done, got, broke, read⟩

end Treadmill.Heap

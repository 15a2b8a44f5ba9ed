import Mathlib
import Treadmill.Data.List
import Treadmill.Proofs.Data.Building

/-!
Proper lists. A list is read along its spine, the cells that its rest slots lead through
(`Lists`); no cell stands on a spine twice, so a walk along one never comes to its limit. New lists are
built from the back (`builds_consAll`) or from the front (`builds_reverse`).
-/

namespace Treadmill.Heap
open Data
variable {L : Layout} {h k m : Heap L} {s : Logged (Heap L)} {p q r v made tail : Ref L} {i n : Nat}
  {spine cells more : List Nat} {values : List (Ref L)}

/-- What stands in the first slots of some cells. -/
def items (h : Heap L) (spine : List Nat) : List (Ref L) := spine.map fun i => (h.contents i).1

/-- `r` is a proper list through the cells `spine`, and all that it reaches is in use. -/
structure Lists (h : Heap L) (r : Ref L) (spine : List Nat) : Prop where
  leads : h.Leads r spine .nil
  intact : h.Intact r

/-- `r` runs through the cells `spine` up to `tail`, which is no pair with a cell, and all that it reaches
is in use. -/
structure Strand (h : Heap L) (r : Ref L) (spine : List Nat) (tail : Ref L) : Prop where
  leads : h.Leads r spine tail
  intact : h.Intact r
  ends : tail.isCons = false

@[simp] theorem items_nil : h.items [] = [] := rfl

@[simp] theorem items_cons : h.items (i :: spine) = (h.contents i).1 :: h.items spine := rfl

@[simp] theorem items_append : h.items (cells ++ more) = h.items cells ++ h.items more := List.map_append

theorem items_congr (same : ∀ i ∈ spine, k.contents i = h.contents i) : k.items spine = h.items spine :=
  List.map_congr_left fun i on => by rw [same i on]

/-! ### Spines -/

theorem Leads.unique (leads : h.Leads r cells tail) (other : h.Leads r more tail) (ends : tail.isCons = false) :
    more = cells := by
  induction cells generalizing r more with
  | nil =>
    obtain rfl : r = tail := leads
    cases more with
    | nil => rfl
    | cons j more => simp [other.1.isCons] at ends
  | cons i cells ih =>
    cases more with
    | nil =>
      obtain rfl : r = tail := other
      simp [leads.1.isCons] at ends
    | cons j more =>
      obtain rfl := Option.some.inj (leads.1.2.symm.trans other.1.2)
      rw [ih leads.2 other.2]

/-- What comes behind a cell does not hang on how the cell was reached, so it cannot be reached from itself. -/
theorem Leads.nodup (leads : h.Leads r spine tail) (ends : tail.isCons = false) : spine.Nodup := by
  induction spine generalizing r with
  | nil => exact List.nodup_nil
  | cons i spine ih =>
    refine List.nodup_cons.mpr ⟨fun again => ?_, ih leads.2⟩
    obtain ⟨before, behind, rfl⟩ := List.append_of_mem again
    obtain ⟨q, -, points, rest⟩ := leads_append.mp leads.2
    have lengths := congrArg List.length (leads.2.unique rest ends)
    simp only [List.length_append, List.length_cons] at lengths
    omega

theorem Leads.spine_inUse (leads : h.Leads r cells tail) (intact : h.Intact r) : ∀ i ∈ cells, h.InUse i := by
  induction cells generalizing r with
  | nil => simp
  | cons i cells ih =>
    have target := leads.1.2
    have rest := intact.branch (branches_rest leads.1.isCons target)
    intro j on
    rcases List.mem_cons.mp on with rfl | on
    · exact intact.holds j target
    · exact ih leads.2 rest j on

namespace Strand

theorem uncons (strand : h.Strand r (i :: spine) tail) :
    r.Points i ∧ h.Intact (h.contents i).1 ∧ h.Strand (h.contents i).2 spine tail := by
  obtain ⟨⟨points, leads⟩, intact, ends⟩ := strand
  exact ⟨points, intact.branch (branches_first points.isCons points.2), leads,
    intact.branch (branches_rest points.isCons points.2), ends⟩

theorem length_le (strand : h.Strand r spine tail) (sound : h.Sound) : spine.length ≤ h.cells.size := by
  have inside : spine ⊆ List.range h.cells.size := by
    intro i on
    have := sound.threaded.inside_of_inUse (strand.leads.spine_inUse strand.intact i on)
    simpa using this.2
  simpa using ((strand.leads.nodup strand.ends).subperm inside).length_le

end Strand

namespace Lists

theorem strand (lists : h.Lists r spine) : h.Strand r spine .nil := ⟨lists.leads, lists.intact, Ref.isCons_nil⟩

theorem uncons (lists : h.Lists r (i :: spine)) :
    r.Points i ∧ h.Intact (h.contents i).1 ∧ h.Lists (h.contents i).2 spine := by
  obtain ⟨⟨points, leads⟩, intact⟩ := lists
  exact ⟨points, intact.branch (branches_first points.isCons points.2), leads,
    intact.branch (branches_rest points.isCons points.2)⟩

theorem eq_nil (lists : h.Lists r []) : r = .nil := lists.leads

theorem isPair (lists : h.Lists r spine) : r.isPair = true := by
  cases spine with
  | nil => simp [lists.eq_nil, Ref.isPair]
  | cons i spine => exact lists.uncons.1.1

theorem items_intact (lists : h.Lists r spine) : ∀ v ∈ h.items spine, h.Intact v := by
  induction spine generalizing r with
  | nil => simp
  | cons i spine ih =>
    obtain ⟨-, first, rest⟩ := lists.uncons
    intro v on
    rcases List.mem_cons.mp on with rfl | on
    · exact first
    · exact ih rest v on

theorem inUse (lists : h.Lists r spine) : ∀ i ∈ spine, h.InUse i := lists.leads.spine_inUse lists.intact

end Lists

theorem lists_nil : h.Lists .nil [] := ⟨rfl, intact_nil⟩

namespace Enlarged
variable (grown : Enlarged h k)
include grown

theorem leads (leads : h.Leads r spine tail) (use : ∀ i ∈ spine, h.InUse i) : k.Leads r spine tail :=
  leads.congr fun i on => grown.contents i (use i on)

theorem items (use : ∀ i ∈ spine, h.InUse i) : k.items spine = h.items spine :=
  items_congr fun i on => grown.contents i (use i on)

theorem lists (lists : h.Lists r spine) : k.Lists r spine :=
  ⟨grown.leads lists.leads lists.inUse, grown.intact lists.intact⟩

theorem strand (strand : h.Strand r spine tail) : k.Strand r spine tail :=
  ⟨grown.leads strand.leads (strand.leads.spine_inUse strand.intact), grown.intact strand.intact, strand.ends⟩

theorem strandLimit {j : Journal} (strand : h.Strand r spine tail) :
    ∃ limit, walkLimit ⟨k, j⟩ = .ok limit ⟨k, j⟩ ∧ spine.length < limit := by
  obtain ⟨limit, limited, enough⟩ := walkLimit_apply ⟨k, j⟩
  have short := (grown.strand strand).length_le grown.sound
  exact ⟨limit, limited, by dsimp only at enough; omega⟩

theorem walkLimit {j : Journal} (lists : h.Lists r spine) :
    ∃ limit, walkLimit ⟨k, j⟩ = .ok limit ⟨k, j⟩ ∧ spine.length < limit :=
  grown.strandLimit lists.strand

end Enlarged

theorem builds_strandLimit {β : Type} {next : Nat → HeapTask L β} {after : β → Heap L → Prop}
    (strand : h.Strand r spine tail) (grown : Enlarged h s.state)
    (onward : ∀ n, spine.length < n → Builds (next n) s after) : Builds (Heap.walkLimit >>= next) s after := by
  obtain ⟨limit, limited, enough⟩ := grown.strandLimit (j := s.journal) strand
  exact builds_read limited (.refl grown.sound) (onward limit enough)

theorem builds_walkLimit {β : Type} {next : Nat → HeapTask L β} {after : β → Heap L → Prop} (lists : h.Lists r spine)
    (grown : Enlarged h s.state) (onward : ∀ n, spine.length < n → Builds (next n) s after) :
    Builds (Heap.walkLimit >>= next) s after :=
  builds_strandLimit lists.strand grown onward

/-! ### Building -/

/-- The new cells `spine`, which hold `values`, lead from `q` to `tail`. -/
structure Strings (h k : Heap L) (values : List (Ref L)) (q tail : Ref L) (spine : List Nat) : Prop where
  leads : k.Leads q spine tail
  items : k.items spine = values
  unused : ∀ i ∈ spine, ¬h.InUse i
  inUse : ∀ i ∈ spine, k.InUse i

namespace Strings

theorem nil : Strings h k [] r r [] := ⟨rfl, rfl, by simp, by simp⟩

theorem eq_of_nil (strings : Strings h k [] q tail spine) : q = tail := by
  obtain rfl := List.map_eq_nil_iff.mp strings.items
  exact strings.leads

theorem since (strings : Strings m k values q tail spine) (grown : Enlarged h m) :
    Strings h k values q tail spine :=
  ⟨strings.leads, strings.items, fun i on old => strings.unused i on (grown.inUse i old), strings.inUse⟩

/-- One more new cell in front. -/
theorem cons (strings : Strings h m values q tail spine) (before : Enlarged h m) (pair : NewPair m k r i v q)
    (grown : Enlarged m k) : Strings h k (v :: values) r tail (i :: spine) where
  leads := ⟨pair.points, by rw [pair.holds]; exact grown.leads strings.leads strings.inUse⟩
  items := by rw [items_cons, pair.holds, grown.items strings.inUse, strings.items]
  unused j on := by
    rcases List.mem_cons.mp on with rfl | on
    · exact (pair.since before).unused
    · exact strings.unused j on
  inUse j on := by
    rcases List.mem_cons.mp on with rfl | on
    · exact pair.inUse
    · exact grown.inUse j (strings.inUse j on)

/-- One more new cell behind, which was there before the others. -/
theorem concat (strings : Strings m k values q r spine) (before : Enlarged h m) (pair : NewPair h m r i v tail)
    (grown : Enlarged m k) : Strings h k (values ++ [v]) q tail (spine ++ [i]) where
  leads := leads_concat.mpr ⟨r, strings.leads, pair.points, by rw [(pair.grown grown).holds]⟩
  items := by rw [items_append, strings.items, items_cons, (pair.grown grown).holds, items_nil]
  unused j on := by
    rcases List.mem_append.mp on with on | on
    · exact (strings.since before).unused j on
    · obtain rfl := List.mem_singleton.mp on
      exact pair.unused
  inUse j on := by
    rcases List.mem_append.mp on with on | on
    · exact strings.inUse j on
    · obtain rfl := List.mem_singleton.mp on
      exact (pair.grown grown).inUse

/-- The last of the new cells is itself a new pair. -/
theorem of_concat (strings : Strings h k (values ++ [v]) q tail spine) :
    ∃ before r i, Strings h k values q r before ∧ NewPair h k r i v tail := by
  obtain ⟨before, last, rfl, front, back⟩ := List.map_eq_append_iff.mp strings.items
  obtain ⟨i, rfl, first⟩ := List.map_eq_singleton_iff.mp back
  obtain ⟨r, leads, points, rest⟩ := leads_concat.mp strings.leads
  have old : ∀ j ∈ before, ¬h.InUse j ∧ k.InUse j :=
    fun j on => ⟨strings.unused j (by simp [on]), strings.inUse j (by simp [on])⟩
  refine ⟨before, r, i, ⟨leads, front, fun j on => (old j on).1, fun j on => (old j on).2⟩, points, ?_, ?_, ?_⟩
  · exact strings.unused i (by simp)
  · exact strings.inUse i (by simp)
  · exact Prod.ext first rest

theorem lists (strings : Strings h k values q .nil spine) (intact : k.Intact q) : k.Lists q spine :=
  ⟨strings.leads, intact⟩

end Strings

/-- A copy of some values in front of a tail, the last one first. -/
theorem builds_consAll (sound : s.state.Sound) (each : ∀ v ∈ values, s.state.Intact v)
    (rest : s.state.Intact tail) :
    Builds (consAll values tail) s fun q k => k.Intact q ∧ ∃ spine, Strings s.state k values q tail spine := by
  induction values with
  | nil => exact builds_pure sound ⟨rest, [], .nil⟩
  | cons v values ih =>
    rw [consAll, List.foldrM_cons]
    apply (ih fun w on => each w (by simp [on])).bind
    rintro q u grown ⟨intact, spine, strings⟩
    apply (builds_cons grown.sound (grown.intact (each v (by simp))) intact).mono
    rintro r k grown' ⟨intact, i, pair⟩
    exact ⟨intact, i :: spine, strings.cons grown pair grown'⟩

/-- The items of a list, one after the other, are put in front of what is made so far. -/
theorem builds_reverseFrom (lists : h.Lists p spine) (grown : Enlarged h s.state) (intact : s.state.Intact made)
    (enough : spine.length < n) :
    Builds (reverseFrom n p made) s fun q k =>
      k.Intact q ∧ ∃ cells, Strings s.state k (h.items spine).reverse q made cells := by
  induction spine generalizing n p s made with
  | nil =>
    obtain ⟨n, rfl⟩ := Nat.exists_eq_add_one.mpr (Nat.zero_lt_of_lt enough)
    rw [reverseFrom, lists.eq_nil, if_pos Ref.isNil_nil]
    exact builds_pure grown.sound ⟨intact, [], .nil⟩
  | cons i spine ih =>
    obtain ⟨n, rfl⟩ := Nat.exists_eq_add_one.mpr (Nat.zero_lt_of_lt enough)
    obtain ⟨points, first, rest⟩ := lists.uncons
    rw [reverseFrom, if_neg (by simp [points.isNil])]
    apply builds_first grown lists.intact points.isCons
    intro k read grown
    rw [parts_of_points points]
    apply (builds_cons (s := ⟨k, s.journal⟩) grown.sound (grown.intact first) (read.enlarged.intact intact)).bind
    intro made' u born both
    obtain ⟨intact, i', pair⟩ := both
    apply builds_rest (grown.trans born) lists.intact points.isCons
    intro m read' grown'
    rw [parts_of_points points]
    apply (ih (s := ⟨m, u.journal⟩) rest grown' (read'.enlarged.intact intact) (Nat.lt_of_succ_lt_succ enough)).mono
    rintro q k' last ⟨intact, cells, strings⟩
    refine ⟨intact, cells ++ [i'], ?_⟩
    rw [items_cons, List.reverse_cons]
    apply strings.concat (read.enlarged.trans (born.trans read'.enlarged)) _ last
    exact (pair.since read.enlarged).grown read'.enlarged

theorem builds_reverse (lists : h.Lists p spine) (grown : Enlarged h s.state) :
    Builds (reverse p) s fun q k => ∃ cells, k.Lists q cells ∧ k.items cells = (h.items spine).reverse ∧
      ∀ i ∈ cells, ¬s.state.InUse i := by
  apply builds_walkLimit lists grown
  intro n enough
  apply (builds_reverseFrom lists grown intact_nil enough).mono
  rintro q k - ⟨intact, cells, strings⟩
  exact ⟨cells, strings.lists intact, strings.items, strings.unused⟩

end Treadmill.Heap

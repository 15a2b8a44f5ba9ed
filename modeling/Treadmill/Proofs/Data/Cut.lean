import Mathlib
import Treadmill.Proofs.Data.Lookup

/-!
A key cut out of a map in place. The first binding of the key is unlinked by writing one rest slot, that of
the spine cell in front of it; if it is the first of all, nothing is written (`Unlinks`). No binding of
another key is lost, and it binds what it bound before, unless it is itself the cell that is written
(`Sound.mapCut_cuts`).
-/

namespace Treadmill.Heap
open Data
variable {L : Layout} {h k m : Heap L} {s : Logged (Heap L)} {map p q r v b key : Ref L} {i c n : Nat}
  {spine front back : List Nat}

/-- The cell `i` stands on the spine just in front of the first one whose binding is of the key. -/
def Precedes (h : Heap L) (spine : List Nat) (key : Ref L) (i : Nat) : Prop :=
  ∃ front c back, spine = front ++ i :: c :: back ∧ (∀ b ∈ h.items (front ++ [i]), h.keyOf b ≠ key) ∧
    h.keyOf (h.contents c).1 = key

/-- The slots that are written to cut a key out of a map, by where its first binding stands on the spine,
and the map that is left. -/
inductive Unlinks (h k : Heap L) (map key : Ref L) : List Nat → Ref L → Prop
  | absent {spine : List Nat} (others : ∀ b ∈ h.items spine, h.keyOf b ≠ key)
      (same : ∀ j, k.contents j = h.contents j) : Unlinks h k map key spine map
  | first {c : Nat} {back : List Nat} (here : h.keyOf (h.contents c).1 = key)
      (same : ∀ j, k.contents j = h.contents j) : Unlinks h k map key (c :: back) (h.contents c).2
  | behind {front back : List Nat} {i c : Nat} (others : ∀ b ∈ h.items (front ++ [i]), h.keyOf b ≠ key)
      (here : h.keyOf (h.contents c).1 = key)
      (written : ∀ j, k.contents j = if j = i then ((h.contents i).1, (h.contents c).2) else h.contents j) :
      Unlinks h k map key (front ++ i :: c :: back) map

/-! ### Lists without their first binding of a key -/

theorem find?_eraseP_of_apart {α : Type} {p q : α → Bool} (apart : ∀ a, p a = true → q a = false) (items : List α) :
    (items.eraseP p).find? q = items.find? q := by
  induction items with
  | nil => rfl
  | cons a items ih =>
    cases here : p a with
    | true => rw [List.eraseP_cons_of_pos here, List.find?_cons_of_neg (by simp [apart a here])]
    | false => rw [List.eraseP_cons_of_neg (by simp [here]), List.find?_cons, List.find?_cons, ih]

/-- Without the first binding of a key the second is found. -/
theorem find?_eraseP_self {α : Type} (p : α → Bool) (items : List α) :
    (items.eraseP p).find? p = (items.filter p)[1]? := by
  induction items with
  | nil => rfl
  | cons a items ih =>
    cases here : p a with
    | true =>
      rw [List.eraseP_cons_of_pos here, List.filter_cons_of_pos here, List.getElem?_cons_succ,
        ← List.head?_filter, List.head?_eq_getElem?]
    | false =>
      have there : ¬p a = true := by simp [here]
      rw [List.eraseP_cons_of_neg there, List.filter_cons_of_neg there, List.find?_cons_of_neg there, ih]

/-! ### Writing a rest slot -/

/-- In `k` the rest slot of the cell `i` holds `v`, and all else is as in `h`. -/
structure Rewrites (h k : Heap L) (i : Nat) (v : Ref L) : Prop where
  sound : k.Sound
  inUse : ∀ j, k.InUse j ↔ h.InUse j
  contents : ∀ j, k.contents j = if j = i then ((h.contents i).1, v) else h.contents j

theorem slots_written (threaded : h.Threaded h.members) (use : h.InUse i) (a b : Ref L) (j : Nat) :
    (h.written r i a b).slots j = if j = i then [a, b] else h.slots j := by
  have inside : i < (h.keepTarget r).cells.size := by
    rw [arena_keepTarget]
    exact (threaded.inside_of_inUse use).2
  rw [written, slots_setSlots inside, slots_keepTarget]

theorem Sound.setRest_rewrites (sound : s.state.Sound) (points : r.Points i) (use : s.state.InUse i)
    (holds : s.state.Holds v) : ∃ k, setRest r v s = .ok () ⟨k, s.journal⟩ ∧ Rewrites s.state k i v := by
  have ran := setRest_apply sound.toTidy points.isCons points.2 use (slots_eq s.state i) holds
  have held : ∀ w ∈ (Act.setRest r v).operands, s.state.Holds w := by
    simpa [Act.operands] using ⟨holds_of_inUse points use, holds⟩
  rcases (Act.setRest r v).outcome sound held with ⟨f, refusal, -⟩ | ⟨-, answer, k, j, done, effect⟩
  · simp [Act.refusal, points.isCons] at refusal
  · simp only [Act.task, Task.bind_apply, ran, Task.pure_apply, EStateM.Result.ok.injEq, Logged.mk.injEq] at done
    obtain ⟨rfl, rfl, rfl⟩ := done
    refine ⟨_, ran, effect.sound, fun j => ?_, fun j => ?_⟩
    · rw [effect.inUse_iff]
      simp [Act.Makes, Act.birth]
    · have slots := (slots_keepTarget _ v j).trans
        (slots_written (r := r) sound.threaded use (s.state.contents i).1 v j)
      split
      · rename_i here
        rw [if_pos here] at slots
        exact slots_eq_iff.mp slots
      · rename_i other
        rw [if_neg other] at slots
        exact contents_congr slots

namespace Rewrites
variable (rewrites : Rewrites h k i v)
include rewrites

theorem first (j : Nat) : (k.contents j).1 = (h.contents j).1 := by
  rw [rewrites.contents]
  split
  · rename_i same
    rw [same]
  · rfl

theorem keyOf : k.keyOf = h.keyOf := by
  funext b
  cases target : b.target? with
  | none => simp [Heap.keyOf, parts, target]
  | some j => rw [Heap.keyOf, parts_of_target target, rewrites.first, Heap.keyOf, parts_of_target target]

theorem items (spine : List Nat) : k.items spine = h.items spine :=
  List.map_congr_left fun j _ => rewrites.first j

theorem holds (holds : h.Holds r) : k.Holds r := fun j target => (rewrites.inUse j).mpr (holds j target)

/-- What is met in `k` is met in `h`, or else met from what was written. -/
theorem intact (written : h.Intact v) (intact : h.Intact r) : k.Intact r := by
  intro w met
  suffices reached : h.Intact w from rewrites.holds reached.holds
  induction met with
  | refl => exact intact
  | tail _ branch ih =>
    obtain ⟨isCons, j, target, slot⟩ := branch
    have first := ih.branch (branches_first isCons target)
    have rest := ih.branch (branches_rest isCons target)
    rw [rewrites.contents] at slot
    split at slot
    · rename_i same
      subst same
      rcases slot with rfl | rfl
      · exact first
      · exact written
    · rcases slot with rfl | rfl
      · exact first
      · exact rest

/-- Away from the cell that was written the spine leads where it led. -/
theorem leads {cells : List Nat} {tail : Ref L} (leads : h.Leads r cells tail) (off : i ∉ cells) :
    k.Leads r cells tail := by
  apply leads.congr
  intro j on
  rw [rewrites.contents, if_neg]
  rintro rfl
  exact off on

end Rewrites

/-! ### Looking for the key -/

/-- Each binding is read and compared; the walk goes on behind it with its cell as the one in front. -/
theorem mapCutFrom_step (map key before : Ref L) (n : Nat) (maps : h.Maps p (i :: spine)) (grown : Enlarged h s.state) :
    ∃ k m, Read s.state k ∧ Read s.state m ∧ mapCutFrom map key (n + 1) before p s =
      if h.keyOf (h.contents i).1 = key then cutNode map before p ⟨k, s.journal⟩
      else mapCutFrom map key n p (h.contents i).2 ⟨m, s.journal⟩ := by
  obtain ⟨points, isCons, intact, -⟩ := maps.uncons
  obtain ⟨k₁, item, -, read₁⟩ := grown.reads (j := s.journal) maps.intact points.isCons
  have grown := grown.trans read₁.enlarged
  obtain ⟨k₂, own, -, read₂⟩ := grown.reads (j := s.journal) intact isCons
  have grown := grown.trans read₂.enlarged
  obtain ⟨k₃, -, back, read₃⟩ := grown.reads (j := s.journal) maps.intact points.isCons
  rw [parts_of_points points] at item back
  refine ⟨k₂, k₃, read₁.trans read₂, (read₁.trans read₂).trans read₃, ?_⟩
  rw [mapCutFrom, if_neg (by simp [points.isNil])]
  simp only [Task.bind_apply, item, own]
  split
  · rfl
  · simp only [Task.bind_apply, back]

theorem mapCutFrom_absent {before : Ref L} (maps : h.Maps p spine) (grown : Enlarged h s.state)
    (enough : spine.length < n) (others : ∀ b ∈ h.items spine, h.keyOf b ≠ key) :
    ∃ k, mapCutFrom map key n before p s = .ok map ⟨k, s.journal⟩ ∧ Read s.state k := by
  induction spine generalizing n p s before with
  | nil =>
    obtain ⟨n, rfl⟩ := Nat.exists_eq_add_one.mpr (Nat.zero_lt_of_lt enough)
    rw [mapCutFrom, maps.eq_nil, if_pos Ref.isNil_nil]
    exact ⟨s.state, rfl, .refl grown.sound⟩
  | cons i spine ih =>
    obtain ⟨n, rfl⟩ := Nat.exists_eq_add_one.mpr (Nat.zero_lt_of_lt enough)
    rw [items_cons, List.forall_mem_cons] at others
    obtain ⟨_, m, -, read, ran⟩ := mapCutFrom_step map key before n maps grown
    rw [ran, if_neg others.1]
    obtain ⟨k, done, read'⟩ := ih (s := ⟨m, s.journal⟩) maps.uncons.2.2.2 (grown.trans read.enlarged)
      (Nat.lt_of_succ_lt_succ enough) others.2
    exact ⟨k, done, read.trans read'⟩

/-- The walk comes to the first binding of the key, and has the cell in front of it at hand. -/
theorem mapCutFrom_found (map before : Ref L) (maps : h.Maps p (front ++ c :: back)) (grown : Enlarged h s.state)
    (enough : (front ++ c :: back).length < n) (others : ∀ b ∈ h.items front, h.keyOf b ≠ key)
    (here : h.keyOf (h.contents c).1 = key) :
    ∃ k q last, mapCutFrom map key n before p s = cutNode map last q ⟨k, s.journal⟩ ∧ Read s.state k ∧
      h.Maps q (c :: back) ∧ (front = [] → q = p ∧ last = before) ∧ ∀ i ∈ front.getLast?, last.Points i := by
  induction front generalizing n p s before with
  | nil =>
    obtain ⟨n, rfl⟩ := Nat.exists_eq_add_one.mpr (Nat.zero_lt_of_lt enough)
    obtain ⟨k, _, read, -, ran⟩ := mapCutFrom_step map key before n maps grown
    rw [ran, if_pos here]
    exact ⟨k, p, before, rfl, read, maps, fun _ => ⟨rfl, rfl⟩, by simp⟩
  | cons i front ih =>
    obtain ⟨n, rfl⟩ := Nat.exists_eq_add_one.mpr (Nat.zero_lt_of_lt enough)
    rw [items_cons, List.forall_mem_cons] at others
    obtain ⟨points, -, -, rest⟩ := maps.uncons
    obtain ⟨_, m, -, read, ran⟩ := mapCutFrom_step map key before n maps grown
    rw [ran, if_neg others.1]
    obtain ⟨k, q, last, done, read', whole, first, behind⟩ := ih p (s := ⟨m, s.journal⟩) rest
      (grown.trans read.enlarged) (Nat.lt_of_succ_lt_succ enough) others.2
    refine ⟨k, q, last, done, read.trans read', whole, by simp, ?_⟩
    cases front with
    | nil =>
      obtain ⟨-, rfl⟩ := first rfl
      simpa using points
    | cons j front => rwa [List.getLast?_cons_cons]

/-! ### Unlinking the binding -/

/-- What is left of a map in which a key is cut: its bindings but the first of the key, each holding what it
held unless it is written. -/
structure Leaves (h k : Heap L) (spine : List Nat) (key q : Ref L) (left : List Nat) : Prop where
  sound : k.Sound
  maps : k.Maps q left
  keys : k.keyOf = h.keyOf
  items : k.items left = (h.items spine).eraseP fun b => h.keyOf b = key
  parts : ∀ b, b.isCons = true → (∀ i, b.Points i → ¬h.Precedes spine key i) → k.parts b = h.parts b

variable {left : List Nat}

theorem leaves_of_read (read : Read h k) (maps : h.Maps q left)
    (items : h.items left = (h.items spine).eraseP fun b => h.keyOf b = key) : Leaves h k spine key q left := by
  have parts : k.parts = h.parts := by
    funext b
    simp only [Heap.parts, read.contents]
  refine ⟨read.sound, read.enlarged.maps maps, ?_, ?_, fun b _ _ => by rw [parts]⟩
  · funext b
    rw [keyOf, parts]
  · rw [items_congr fun i _ => read.contents i, items]

theorem leaves_of_rewrites (rewrites : Rewrites h k i (h.contents c).2)
    (maps : h.Maps map (front ++ i :: c :: back)) (others : ∀ b ∈ h.items (front ++ [i]), h.keyOf b ≠ key)
    (here : h.keyOf (h.contents c).1 = key) :
    Leaves h k (front ++ i :: c :: back) key map (front ++ i :: back) := by
  obtain ⟨r, leads, whole⟩ := maps.drop
  obtain ⟨points, -, -, whole'⟩ := whole.uncons
  obtain ⟨-, -, -, rest⟩ := whole'.uncons
  have off : i ∉ front ∧ i ∉ back := by
    have apart := (List.nodup_cons.mp (List.nodup_middle.mp (maps.leads.nodup Ref.isCons_nil))).1
    simp only [List.mem_append, List.mem_cons, not_or] at apart
    exact ⟨apart.1, apart.2.2⟩
  have onward : k.Leads r (i :: back) .nil := by
    refine ⟨points, ?_⟩
    rw [rewrites.contents, if_pos rfl]
    exact rewrites.leads rest.leads off.2
  refine ⟨rewrites.sound, ⟨⟨?_, rewrites.intact rest.intact maps.intact⟩, ?_⟩, rewrites.keyOf, ?_, ?_⟩
  · exact leads_append.mpr ⟨r, rewrites.leads leads off.1, onward⟩
  · rw [rewrites.items]
    intro b on
    apply maps.pairs
    simp only [items_append, items_cons, List.mem_append, List.mem_cons] at on ⊢
    tauto
  · have before : ∀ b ∈ h.items (front ++ [i]), ¬decide (h.keyOf b = key) = true := by simpa using others
    have whole : h.items (front ++ i :: c :: back) = h.items (front ++ [i]) ++ (h.contents c).1 :: h.items back := by
      simp
    rw [rewrites.items, whole, List.eraseP_append_right _ before, List.eraseP_cons_of_pos (by simpa using here)]
    simp
  · intro b isCons apart
    have points := points_of_isCons isCons
    rw [parts_of_points points, parts_of_points points, rewrites.contents, if_neg]
    intro same
    exact apart i (same ▸ points) ⟨front, c, back, rfl, others, here⟩

namespace Leaves
variable (leaves : Leaves h k spine key q left)
include leaves

theorem binding? (x : Ref L) : k.binding? left x = if x = key then ((h.items spine).filter fun b => h.keyOf b = key)[1]?
    else h.binding? spine x := by
  rw [Heap.binding?, leaves.items, leaves.keys]
  split
  · rename_i same
    rw [same, find?_eraseP_self]
  · rename_i other
    rw [find?_eraseP_of_apart, Heap.binding?]
    intro b isKey
    rw [of_decide_eq_true isKey]
    simpa using Ne.symm other

/-- What a binding that is left binds its key to. -/
theorem value? {x : Ref L} (apart : ∀ b i, k.binding? left x = some b → b.Points i → ¬h.Precedes spine key i) :
    k.value? left x = (k.binding? left x).map fun b => (h.parts b).2 := by
  rw [Heap.value?]
  cases found : k.binding? left x with
  | none => rfl
  | some b =>
    have isCons := (leaves.maps.binding?_isCons found).1
    rw [Option.map_some, Option.map_some, leaves.parts b isCons fun i => apart b i found]

end Leaves

/-- What comes of cutting a key out of a map, `q` being the map that is left. -/
structure Cuts (h k : Heap L) (map key q : Ref L) (spine : List Nat) : Prop where
  sound : k.Sound
  unlinks : Unlinks h k map key spine q
  bindings : ∃ left, k.Maps q left ∧ k.items left = (h.items spine).eraseP fun b => h.keyOf b = key
  /-- Of every other key the same binding is found. -/
  locates : ∀ x b, x ≠ key → h.Locates map x b → k.Locates q x b
  /-- It binds the key to what it did, unless it is the cell that is written. -/
  gets : ∀ x found, x ≠ key → (∀ b i, h.binding? spine x = some b → b.Points i → ¬h.Precedes spine key i) →
    h.Gets map x found → k.Gets q x found
  /-- Of the key itself the second binding is found, if there is one. -/
  locatesNext : k.Locates q key ((((h.items spine).filter fun b => h.keyOf b = key)[1]?).getD .nil)
  getsNext : (∀ b i, ((h.items spine).filter fun b => h.keyOf b = key)[1]? = some b → b.Points i →
    ¬h.Precedes spine key i) → k.Gets q key
      ((((h.items spine).filter fun b => h.keyOf b = key)[1]?).map fun b => (h.parts b).2)

theorem Leaves.cuts (leaves : Leaves h k spine key q left) (unlinks : Unlinks h k map key spine q)
    (sound : h.Sound) (maps : h.Maps map spine) : Cuts h k map key q spine where
  sound := leaves.sound
  unlinks := unlinks
  bindings := ⟨left, leaves.maps, leaves.items⟩
  locates x b other before := by
    have after := leaves.maps.locates leaves.sound x
    rwa [leaves.binding?, if_neg other, ← before.unique (maps.locates sound x)] at after
  gets x found other apart before := by
    have same := leaves.binding? x
    rw [if_neg other] at same
    rw [← same] at apart
    have after := leaves.maps.gets leaves.sound x
    rwa [leaves.value? apart, same, ← Heap.value?, ← before.unique (maps.gets sound x)] at after
  locatesNext := by
    have after := leaves.maps.locates leaves.sound key
    rwa [leaves.binding?, if_pos rfl] at after
  getsNext apart := by
    have same := leaves.binding? key
    rw [if_pos rfl] at same
    rw [← same] at apart ⊢
    have after := leaves.maps.gets leaves.sound key
    rwa [leaves.value? apart] at after

theorem exists_first_of_key (h : Heap L) (spine : List Nat) (key : Ref L) :
    (∀ b ∈ h.items spine, h.keyOf b ≠ key) ∨ ∃ front c back, spine = front ++ c :: back ∧
      (∀ b ∈ h.items front, h.keyOf b ≠ key) ∧ h.keyOf (h.contents c).1 = key := by
  cases found : spine.find? fun c => h.keyOf (h.contents c).1 = key with
  | none =>
    left
    simpa [items] using found
  | some c =>
    obtain ⟨here, front, back, rfl, others⟩ := List.find?_eq_some_iff_append.mp found
    exact Or.inr ⟨front, c, back, rfl, by simpa [items] using others, by simpa using here⟩

theorem Rewrites.after (rewrites : Rewrites m k i v) (read : Read h m) : Rewrites h k i v where
  sound := rewrites.sound
  inUse j := (rewrites.inUse j).trans read.promoted.inUse_iff
  contents j := by rw [rewrites.contents, read.contents, read.contents]

/-- To cut a key never fails, and it writes one rest slot at most. -/
theorem Sound.mapCut_cuts (sound : s.state.Sound) (maps : s.state.Maps map spine) (key : Ref L) :
    ∃ q k, mapCut map key s = .ok q ⟨k, s.journal⟩ ∧ Cuts s.state k map key q spine := by
  obtain ⟨limit, limited, enough⟩ := (Enlarged.refl sound).walkLimit (j := s.journal) maps.toLists
  rw [mapCut, Task.bind_apply, show walkLimit s = .ok limit s from limited]
  rcases exists_first_of_key s.state spine key with others | ⟨front, c, back, rfl, others, here⟩
  · obtain ⟨k, ran, read⟩ := mapCutFrom_absent maps (.refl sound) enough others
    refine ⟨map, k, ran, (leaves_of_read read maps ?_).cuts (.absent others read.contents) sound maps⟩
    rw [List.eraseP_of_forall_not (by simpa using others)]
  · obtain ⟨k, p, last, ran, read, whole, first, behind⟩ :=
      mapCutFrom_found map .nil maps (.refl sound) enough others here
    obtain ⟨points, -, -, rest⟩ := whole.uncons
    obtain ⟨m, -, after, read'⟩ := read.enlarged.reads (j := s.journal) whole.intact points.isCons
    rw [parts_of_points points] at after
    have read := read.trans read'
    dsimp only
    rw [ran, cutNode, Task.bind_apply, after]
    dsimp only
    rcases front.eq_nil_or_concat with rfl | ⟨front, i, rfl⟩
    · obtain ⟨rfl, rfl⟩ := first rfl
      rw [if_pos Ref.isNil_nil]
      refine ⟨_, m, rfl, (leaves_of_read read rest ?_).cuts (.first here read.contents) sound maps⟩
      rw [List.nil_append, items_cons, List.eraseP_cons_of_pos (by simpa using here)]
    · have points := behind i (by simp)
      have use := maps.inUse i (by simp)
      obtain ⟨k', wrote, rewrites⟩ := read.sound.setRest_rewrites (s := ⟨m, s.journal⟩) points
        (read.enlarged.inUse i use) (read.enlarged.holds rest.intact.holds)
      have rewrites := rewrites.after read
      rw [if_neg (by simp [points.isNil])]
      refine ⟨map, k', by rw [Task.bind_apply, wrote]; rfl, ?_⟩
      simp only [List.concat_eq_append, List.append_assoc, List.singleton_append] at others maps ⊢
      exact (leaves_of_rewrites rewrites maps others here).cuts (.behind others here rewrites.contents) sound maps

/-- In the middle of a cycle the first of two bindings of a key is cut, and the second counts then. -/
theorem mapCut_second_binding : ∃ (s : Logged (Heap .twoLow)) (map b c d : Ref .twoLow) (k : Heap .twoLow),
    s.state.Sound ∧ s.state.collecting = true ∧ s.state.items [11, 10, 9] = [b, c, d] ∧
      mapCut map (.bool true) s = .ok map ⟨k, s.journal⟩ ∧ (∃ left, k.Maps map left ∧ k.items left = [b, d]) ∧
      s.state.Gets map (.bool true) (some (.bool true)) ∧ k.Gets map (.bool true) (some (.bool false)) ∧
      s.state.Gets map (.bool false) (some .nil) ∧ k.Gets map (.bool false) (some .nil) := by
  obtain ⟨map, b, c, d, script, s, values, scripted, is, fitting, busy, inside, closed, leads, pairs, bindings,
      points, left, second, bound, first, other, value, ran⟩ :
      ∃ (map b c d : Ref .twoLow) (script : List (Op .twoLow)) (s : Logged (Heap .twoLow))
        (values : List (Ref .twoLow)),
        script = [.act (.cons (.bool false) .nil), .act (.cons (.bool true) (.bool true)),
          .act (.cons (.bool true) (.bool false)), .act (.cons d .nil), .act (.cons c ⟨36, by decide⟩),
          .act (.cons b ⟨40, by decide⟩), .age] ∧
        s = afterAll (blank .twoLow) script ∧ Fitting (blank .twoLow) script ∧ s.state.collecting = true ∧
        map ∈ values ∧ s.state.Closed values ∧ s.state.Leads map [11, 10, 9] .nil ∧
        (∀ b ∈ s.state.items [11, 10, 9], b.isCons = true) ∧ s.state.items [11, 10, 9] = [b, c, d] ∧
        (b.target? = some 6 ∧ d.target? = some 8) ∧
        ((s.state.items [11, 10, 9]).eraseP fun b => s.state.keyOf b = .bool true) = [b, d] ∧
        ((s.state.items [11, 10, 9]).filter fun b => s.state.keyOf b = .bool true)[1]? = some d ∧
        (s.state.parts d).2 = .bool false ∧ s.state.value? [11, 10, 9] (.bool true) = some (.bool true) ∧
        s.state.binding? [11, 10, 9] (.bool false) = some b ∧ (s.state.parts b).2 = .nil ∧
        outcomeOf (mapCut map (.bool true) s) = .ok map :=
    ⟨⟨44, by decide⟩, ⟨24, by decide⟩, ⟨28, by decide⟩, ⟨32, by decide⟩, _, _, [⟨24, by decide⟩, ⟨28, by decide⟩,
      ⟨32, by decide⟩, ⟨36, by decide⟩, ⟨40, by decide⟩, ⟨44, by decide⟩, .bool true, .bool false, .nil], rfl, rfl,
      by decide +kernel⟩
  have sound : s.state.Sound := is ▸ fitting.sound_blank
  have maps : s.state.Maps map [11, 10, 9] := ⟨⟨leads, closed.intact inside⟩, pairs⟩
  have before := maps.gets sound (.bool true)
  rw [first] at before
  have before' := maps.gets sound (.bool false)
  rw [value?, other, Option.map_some, value] at before'
  obtain ⟨q, k, done, cuts⟩ := sound.mapCut_cuts maps (.bool true)
  rw [done, outcomeOf, Except.ok.injEq] at ran
  subst ran
  obtain ⟨cells, whole, items⟩ := cuts.bindings
  -- neither binding stands on the spine
  have off : ∀ i, s.state.Precedes [11, 10, 9] (.bool true) i → i ≠ 6 ∧ i ≠ 8 := by
    rintro i ⟨front, c, back, spine, -⟩
    have on : i ∈ [11, 10, 9] := by rw [spine]; simp
    simp only [List.mem_cons, List.not_mem_nil, or_false] at on
    omega
  have after := cuts.getsNext fun b i found named precedes => by
    rw [second, Option.some.injEq] at found
    subst found
    exact (off i precedes).2 (Option.some.inj (named.2.symm.trans points.2))
  have after' := cuts.gets _ _ (by decide) (fun b i found named precedes => by
    rw [other, Option.some.injEq] at found
    subst found
    exact (off i precedes).1 (Option.some.inj (named.2.symm.trans points.1))) before'
  rw [second, Option.map_some, bound] at after
  exact ⟨s, q, b, c, d, k, sound, busy, bindings, done, ⟨cells, whole, items.trans left⟩, before, after, before',
    after'⟩

/-- A binding that is itself the spine cell in front of the one that is cut binds its key to something else
afterwards. -/
theorem mapCut_rebinds : ¬∀ (s : Logged (Heap .twoLow)) (map key : Ref .twoLow) (spine : List Nat),
    s.state.Sound → s.state.Maps map spine → ∃ q k, mapCut map key s = .ok q ⟨k, s.journal⟩ ∧
      ∀ x found, x ≠ key → s.state.Gets map x found → k.Gets q x found := by
  intro claim
  obtain ⟨map, b, c, script, s, values, scripted, is, fitting, inside, closed, leads, pairs, other, bound, ran,
      got⟩ :
      ∃ (map b c : Ref .twoLow) (script : List (Op .twoLow)) (s : Logged (Heap .twoLow))
        (values : List (Ref .twoLow)),
        script = [.act (.cons (.bool true) .nil), .act (.cons (.bool false) .nil), .act (.cons ⟨28, by decide⟩ .nil),
          .act (.cons b c), .act (.cons ⟨36, by decide⟩ ⟨36, by decide⟩)] ∧
        s = afterAll (blank .twoLow) script ∧ Fitting (blank .twoLow) script ∧ map ∈ values ∧
        s.state.Closed values ∧ s.state.Leads map [10, 9, 8] .nil ∧
        (∀ b ∈ s.state.items [10, 9, 8], b.isCons = true) ∧ (b ≠ .bool false ∧ c ≠ .nil) ∧
        s.state.value? [10, 9, 8] b = some c ∧ outcomeOf (mapCut map (.bool false) s) = .ok map ∧
        outcomeOf (mapGet? map b (stateAfter (mapCut map (.bool false) s))) = .ok (some .nil) :=
    ⟨⟨40, by decide⟩, ⟨24, by decide⟩, ⟨32, by decide⟩, _, _, [⟨24, by decide⟩, ⟨28, by decide⟩, ⟨32, by decide⟩,
      ⟨36, by decide⟩, ⟨40, by decide⟩, .bool true, .bool false, .nil], rfl, rfl, by decide +kernel⟩
  have sound : s.state.Sound := is ▸ fitting.sound_blank
  have maps : s.state.Maps map [10, 9, 8] := ⟨⟨leads, closed.intact inside⟩, pairs⟩
  have before := maps.gets sound b
  rw [bound] at before
  obtain ⟨q, k, done, gets⟩ := claim s map (.bool false) [10, 9, 8] sound maps
  rw [done, outcomeOf, Except.ok.injEq] at ran
  subst ran
  obtain ⟨m, found, -⟩ := gets b _ other.1 before s.journal
  rw [done, stateAfter, found, outcomeOf, Except.ok.injEq, Option.some.injEq] at got
  exact other.2 got

end Treadmill.Heap

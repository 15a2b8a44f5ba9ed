import Mathlib
import Treadmill.Proofs.Codec
import Treadmill.Proofs.Data.Spines
import Treadmill.Proofs.Heap.Print
import Treadmill.Proofs.Heap.Script

/-!
Values as text. What is written of a value is the text of the tree that it unfolds to
(`Spans.showFrom_eq`), so it tells neither where the cells are nor which of them are shared. A tree
within the limits is written as it would be without them (`Fits.written_eq`). A list that is too long is
written up to the limit whether or not it ever ends (`Renders.long`).
-/

namespace Treadmill
open Data
variable {L : Layout} {names : Symbols} {n : Nat}

/-- What is written in front of the closing bracket for the end of a list: nothing for NIL. -/
def dotted (tail : Ref L) (text : String) : String :=
  if tail.isNil then "" else " . " ++ text

/-- A value that is no pair as text. -/
def Ref.printed (names : Symbols) (r : Ref L) : String :=
  if r.isNil then "()" else leafText names r.value

theorem leafText_value (names : Symbols) (r : Ref L) : leafText names r.value = r.printed names := by
  unfold Ref.printed
  split
  next isNil => rw [Ref.isNil_iff.mp isNil, Ref.nil_value]; rfl
  next => rfl

namespace Tree
variable {t u v a b : Tree L}

/-- The items of a list, along the rest slots. -/
def items : Tree L → List (Tree L)
  | leaf _ => []
  | node first rest => first :: rest.items

/-- What the rest slots end in. -/
def tail : Tree L → Ref L
  | leaf r => r
  | node _ rest => rest.tail

/-- The values that a list is written with: its items, and its tail unless that is NIL. -/
def parts : Tree L → List (Tree L)
  | leaf _ => []
  | node first rest =>
    (node first rest).items ++ if rest.tail.isNil then [] else [leaf rest.tail]

/-- The value `v` stands in `t` at a depth of nesting, which is 0 for `t` itself. -/
inductive Stands : Tree L → Nat → Tree L → Prop
  | root (t : Tree L) : Stands t 0 t
  | part {t u v : Tree L} {n : Nat} (on : u ∈ t.parts) (stands : Stands u n v) : Stands t (n + 1) v

/-- No list of the tree is longer, and no value of it stands deeper, than what is written out. -/
structure Fits (t : Tree L) : Prop where
  depth : ∀ n u, t.Stands n u → n ≤ showLimit
  length : ∀ n u, t.Stands n u → u.items.length ≤ showLimit

mutual

/-- A tree as text without any limits. -/
def print (names : Symbols) : Tree L → String
  | leaf r => r.printed names
  | node first rest => "(" ++ first.print names ++ rest.printRest names ++ ")"

/-- What follows the first item of a list. -/
def printRest (names : Symbols) : Tree L → String
  | leaf r => dotted r (r.printed names)
  | node first rest => " " ++ first.print names ++ rest.printRest names

end

/-- A tree as text of at most `n` levels, with its lists cut at the limit. -/
def written (names : Symbols) : Nat → Tree L → String
  | 0, _ => "..."
  | _ + 1, leaf r => r.printed names
  | n + 1, node first rest =>
    let t := node first rest
    "(" ++ " ".intercalate ((t.items.take showLimit).map (written names n)) ++
      (if showLimit < t.items.length then " ..." else dotted t.tail (written names n (leaf t.tail))) ++ ")"

/-! ### Texts within the limits -/

theorem print_rest (a b : Tree L) : a.print names ++ b.printRest names =
    " ".intercalate ((node a b).items.map (print names)) ++ dotted b.tail (b.tail.printed names) := by
  induction b generalizing a with
  | leaf r => simp [printRest, items, tail]
  | node c d _ ih =>
    have next := ih c
    simp only [printRest, items, tail, List.map_cons, String.intercalate_cons_cons,
      String.append_assoc] at next ⊢
    rw [next]

theorem print_node (a b : Tree L) : (node a b).print names = "(" ++
    " ".intercalate ((node a b).items.map (print names)) ++ dotted b.tail (b.tail.printed names) ++ ")" := by
  have whole : a.print names ++ b.printRest names = _ := print_rest a b
  have bracketed := congrArg (fun inner => "(" ++ inner ++ ")") whole
  simpa only [print, String.append_assoc] using bracketed

theorem items_subset_parts (on : u ∈ t.items) : u ∈ t.parts := by
  cases t with
  | leaf => exact on
  | node => exact List.mem_append_left _ on

/-- A text of one level more than values stand deep is not cut anywhere. -/
theorem written_eq_print (depth : ∀ m u, t.Stands m u → m ≤ n)
    (length : ∀ m u, t.Stands m u → u.items.length ≤ showLimit) :
    t.written names (n + 1) = t.print names := by
  induction n generalizing t with
  | zero =>
    cases t with
    | leaf r => rw [written, print]
    | node a b => exact absurd (depth 1 a (.part (items_subset_parts (by simp [items])) (.root a))) (by simp)
  | succ n ih =>
    cases t with
    | leaf r => rw [written, print]
    | node a b =>
      have short := length 0 _ (.root _)
      have each : ∀ u ∈ (node a b).parts, u.written names (n + 1) = u.print names := fun u on =>
        ih (fun m v stands => Nat.le_of_succ_le_succ (depth _ v (.part on stands)))
          fun m v stands => length _ v (.part on stands)
      have ends : dotted b.tail ((leaf b.tail).written names (n + 1)) = dotted b.tail (b.tail.printed names) := by
        rw [written]
      have inner : (node a b).items.map (written names (n + 1)) = (node a b).items.map (print names) :=
        List.map_congr_left fun u on => each u (items_subset_parts on)
      rw [print_node, written, List.take_of_length_le short, if_neg (Nat.not_lt.mpr short), inner, tail, ends]

theorem Fits.written_eq (fits : t.Fits) : t.written names (showLimit + 1) = t.print names :=
  written_eq_print fits.depth fits.length

end Tree

namespace Heap
variable {h : Heap L} {s : Logged (Heap L)} {x y r tail : Ref L} {i j : Nat} {spine : List Nat} {t : Tree L}
  {item : Ref L → Writing}

/-! ### Lists -/

/-- What ends the text of a list when no more of its items are written. -/
def ending (item : Ref L → Writing) (tail : Ref L) : String :=
  if tail.isCons then " ..." else dotted tail (item tail).text

theorem Spans.peek (spans : h.Spans r) (threaded : h.Threaded h.members) (points : r.Points i) :
    Data.peek h r = .ok (h.contents i) := by
  have isCons := points.isCons
  have target := Ref.target?_of_isCons isCons
  have use := spans.holds isCons _ target
  rw [peek_of_inside target (threaded.inside_of_inUse use).2, Option.some.inj (target.symm.trans points.2)]

theorem Spans.showFrom_whole (spans : h.Spans r) (threaded : h.Threaded h.members) :
    (showFrom h names n r).fault? = none :=
  showFrom_whole_of (P := h.Spans) (fun r isCons spans => by
    have target := Ref.target?_of_isCons isCons
    have points : r.Points r.field.toNat := points_of_isCons isCons
    exact ⟨_, spans.peek threaded points, spans.branch (branches_first isCons target),
      spans.branch (branches_rest isCons target)⟩) spans

section
variable (spans : h.Spans r) (threaded : h.Threaded h.members)
  (each : ∀ v, h.Spans v → (item v).fault? = none)
include spans threaded each

theorem Spans.showItems_last (points : r.Points i) (ends : (h.contents i).2.isCons = true → n = 0) :
    showItems h item n r = .whole ((item (h.contents i).1).text ++ ending item (h.contents i).2) := by
  have first := each _ (spans.branch (branches_first points.isCons points.2))
  have last := each _ (spans.branch (branches_rest points.isCons points.2))
  rw [showItems.eq_def]
  simp only [spans.peek threaded points, Writing.after, ending, dotted]
  rw [Writing.eq_whole first, Writing.eq_whole last]
  cases isNil : (h.contents i).2.isNil with
  | true => simp [Ref.isCons, isNil, -Writing.whole_then]
  | false =>
    cases isPair : (h.contents i).2.isPair with
    | false => simp [Ref.isCons, isPair, -Writing.whole_then]
    | true =>
      have isCons := Ref.isCons_of_isPair isPair isNil
      simp [isCons, ends isCons, -Writing.whole_then]

theorem Spans.showItems_next (points : r.Points i) (next : (h.contents i).2.Points j) :
    showItems h item (n + 1) r =
      .whole ((item (h.contents i).1).text ++ " ") >> showItems h item n (h.contents i).2 := by
  have first := each _ (spans.branch (branches_first points.isCons points.2))
  rw [showItems, spans.peek threaded points]
  simp only [Writing.after, next.isNil, next.1]
  rw [Writing.eq_whole first]
  simp [String.append_assoc]

/-- As many items as there is room for are written, and the end after them. -/
theorem Spans.showItems_eq (leads : h.Leads r (i :: spine) tail) (room : spine.length ≤ n)
    (ends : tail.isCons = true → spine.length = n) : showItems h item n r =
      .whole (" ".intercalate ((h.items (i :: spine)).map fun v => (item v).text) ++ ending item tail) := by
  induction spine generalizing r i n with
  | nil =>
    obtain ⟨points, rfl⟩ := leads
    rw [spans.showItems_last threaded each points fun more => (ends more).symm]
    simp
  | cons j spine ih =>
    obtain ⟨points, next⟩ := leads
    obtain ⟨n, rfl⟩ : ∃ m, n = m + 1 := ⟨n - 1, by simp only [List.length_cons] at room; omega⟩
    have rest := ih (n := n) (spans.branch (branches_rest points.isCons points.2)) next
      (by simpa using room) fun more => by simpa using ends more
    rw [spans.showItems_next threaded each points next.1, rest]
    simp [String.append_assoc, -Writing.whole_then]

end

/-- A list is written with its items one level down: all of them and what the last one's rest slot holds,
or, if the list goes on, as many as there may be. -/
theorem Spans.showFrom_list (spans : h.Spans r) (threaded : h.Threaded h.members)
    (leads : h.Leads r spine tail) (some : spine ≠ []) (room : spine.length ≤ showLimit)
    (ends : tail.isCons = true → spine.length = showLimit) : showFrom h names (n + 1) r =
      .whole ("(" ++ " ".intercalate ((h.items spine).map fun v => (showFrom h names n v).text) ++
        ending (showFrom h names n) tail ++ ")") := by
  obtain ⟨i, more, rfl⟩ := List.exists_cons_of_ne_nil some
  simp only [List.length_cons] at room ends
  have items : showItems h (showFrom h names n) (showLimit - 1) r = _ := spans.showItems_eq threaded
    (fun v spans => spans.showFrom_whole threaded) leads (by omega) fun more => by have := ends more; omega
  rw [showFrom, if_pos leads.1.isCons, items]
  simp [String.append_assoc, -Writing.whole_then]

/-! ### Trees -/

/-- The rest slots of a value lead through pairs whose first slots unfold to the items of its tree. -/
theorem Unfolds.leads (unfolds : h.Unfolds r t) : ∃ spine, h.Leads r spine t.tail ∧
    List.Forall₂ h.Unfolds (h.items spine) t.items ∧ t.tail.isCons = false := by
  induction unfolds with
  | leaf notCons => exact ⟨[], rfl, .nil, notCons⟩
  | @node r i a b isCons target first rest _ ih =>
    obtain ⟨spine, leads, items, ends⟩ := ih
    have isPair : r.isPair = true := by
      rw [Ref.isCons, Bool.and_eq_true] at isCons
      exact isCons.1
    exact ⟨i :: spine, ⟨⟨isPair, target⟩, leads⟩, .cons first items, ends⟩

theorem Spans.items (spans : h.Spans r) (leads : h.Leads r spine tail) :
    h.Spans tail ∧ ∀ v ∈ h.items spine, h.Spans v := by
  induction spine generalizing r with
  | nil =>
    obtain rfl : r = tail := leads
    exact ⟨spans, by simp⟩
  | cons i spine ih =>
    obtain ⟨points, leads⟩ := leads
    obtain ⟨last, rest⟩ := ih (spans.branch (branches_rest points.isCons points.2)) leads
    exact ⟨last, List.forall_mem_cons.mpr ⟨spans.branch (branches_first points.isCons points.2), rest⟩⟩

theorem map_text {values : List (Ref L)} {trees : List (Tree L)} {f : Ref L → String} {g : Tree L → String}
    (each : List.Forall₂ h.Unfolds values trees) (same : ∀ v ∈ values, ∀ t, h.Unfolds v t → f v = g t) :
    values.map f = trees.map g := by
  induction each with
  | nil => rfl
  | cons first _ ih =>
    rw [List.map_cons, List.map_cons, same _ (by simp) _ first, ih fun v on => same v (by simp [on])]

/-- `spine` is the part that is written of a list that unfolds to `t`, and `last` stands behind it. -/
structure Written (h : Heap L) (r : Ref L) (t : Tree L) (spine : List Nat) (last : Ref L) : Prop where
  leads : h.Leads r spine last
  some : spine ≠ []
  room : spine.length ≤ showLimit
  items : List.Forall₂ h.Unfolds (h.items spine) (t.items.take showLimit)
  ends : last.isCons = true ∧ spine.length = showLimit ∧ showLimit < t.items.length ∨
    last = t.tail ∧ last.isCons = false ∧ t.items.length ≤ showLimit

theorem Unfolds.exists_written (unfolds : h.Unfolds r t) (isCons : r.isCons = true) :
    ∃ spine last, h.Written r t spine last := by
  obtain ⟨spine, leads, items, ends⟩ := unfolds.leads
  have length : spine.length = t.items.length := by simpa [Heap.items] using items.length_eq
  obtain ⟨last, front, rest⟩ := leads_append.mp ((spine.take_append_drop showLimit).symm ▸ leads)
  refine ⟨spine.take showLimit, last, front, fun none => ?_, by simp, ?_, ?_⟩
  · rw [none] at front
    obtain rfl : r = last := front
    obtain rfl : spine = [] := by simpa [showLimit] using none
    obtain rfl : r = t.tail := leads
    simp [ends] at isCons
  · rw [Heap.items, List.map_take]
    exact List.forall₂_take _ items
  · rw [← length]
    cases left : spine.drop showLimit with
    | nil =>
      rw [left] at rest
      obtain rfl : last = t.tail := rest
      exact .inr ⟨rfl, ends, List.drop_eq_nil_iff.mp left⟩
    | cons j more =>
      rw [left] at rest
      have long : showLimit < spine.length := by
        rw [← Nat.not_le, ← List.drop_eq_nil_iff, left]
        simp
      exact .inl ⟨rest.1.isCons, by simp [long.le], long⟩

/-- A value is written as the tree that it unfolds to. -/
theorem Spans.showFrom_eq (spans : h.Spans r) (threaded : h.Threaded h.members) (unfolds : h.Unfolds r t) :
    showFrom h names n r = .whole (t.written names n) := by
  induction n generalizing r t with
  | zero => rw [showFrom, Tree.written]
  | succ n ih =>
    cases isCons : r.isCons with
    | false =>
      cases unfolds with
      | leaf => rw [showFrom, if_neg (by simp [isCons]), leafText_value, Tree.written]
      | node cons => simp [isCons] at cons
    | true =>
      obtain ⟨spine, last, part⟩ := unfolds.exists_written isCons
      obtain ⟨a, b, rfl, -⟩ := unfolds.of_isCons isCons (Ref.target?_of_isCons isCons)
      have inside := spans.items part.leads
      have each : ∀ {v : Ref L} {u : Tree L}, h.Spans v → h.Unfolds v u →
          (showFrom h names n v).text = u.written names n := fun spans unfolds => by
        rw [ih spans unfolds, Writing.text_whole]
      have texts := map_text part.items fun v on t => each (inside.2 v on) (u := t)
      rw [spans.showFrom_list threaded part.leads part.some part.room
        (fun more => part.ends.elim (·.2.1) fun ended => by simp [ended.2.1] at more), texts, Tree.written, ending]
      rcases part.ends with ⟨more, -, long⟩ | ⟨isTail, notCons, short⟩
      · simp [more, long]
      · simp [notCons, Nat.not_lt.mpr short, ← isTail, each inside.1 (.leaf notCons)]

/-! ### Equal values -/

/-- The two values are one, or pairs whose slots match. -/
inductive Matches (h : Heap L) : Ref L → Ref L → Prop
  | same (r : Ref L) : Matches h r r
  | pair {x y : Ref L} {i j : Nat} (first : x.Points i) (second : y.Points j)
      (firsts : Matches h (h.contents i).1 (h.contents j).1)
      (rests : Matches h (h.contents i).2 (h.contents j).2) : Matches h x y

theorem Read.matches {k : Heap L} (read : Read h k) : k.Matches x y ↔ h.Matches x y := by
  have forth : ∀ {h k : Heap L}, (∀ i, k.contents i = h.contents i) → ∀ {x y}, h.Matches x y → k.Matches x y := by
    intro h k same x y alike
    induction alike with
    | same r => exact .same r
    | pair first second _ _ firsts rests =>
      exact .pair first second (by rwa [same, same]) (by rwa [same, same])
  exact ⟨forth fun i => (read.contents i).symm, forth read.contents⟩

/-- Values that are found equal match, and the search has changed no cell. -/
theorem Sound.matches_of_equalFrom {b : Bool} {u : Logged (Heap L)} (sound : s.state.Sound)
    (spansFirst : s.state.Spans x) (spansSecond : s.state.Spans y)
    (equal : Data.equalFrom n x y s = .ok b u) :
    Read s.state u.state ∧ (b = true → s.state.Matches x y) := by
  induction n generalizing x y s b u with
  | zero => simp [Data.equalFrom] at equal
  | succ n ih =>
    rw [Data.equalFrom] at equal
    by_cases same : x = y
    · rw [if_pos same, Task.pure_apply] at equal
      cases equal
      exact ⟨.refl sound, fun _ => same ▸ .same x⟩
    rw [if_neg same] at equal
    by_cases pairs : x.isCons = true ∧ y.isCons = true
    · obtain ⟨xCons, yCons⟩ := pairs
      rw [if_neg (by simp [xCons, yCons])] at equal
      have xPoints := points_of_isCons xCons
      have yPoints := points_of_isCons yCons
      -- the first slots of both pairs are read and compared, and then the rest slots
      obtain ⟨k₁, front, -, read₁⟩ := sound.reads spansFirst xCons xPoints.2
      obtain ⟨k₂, front', -, read₂⟩ := read₁.sound.reads (s := ⟨k₁, s.journal⟩)
        (read₁.spans spansSecond) yCons yPoints.2
      rw [read₁.contents] at front'
      have read₂ := read₁.trans read₂
      rw [Task.bind_of_ok front, Task.bind_of_ok front'] at equal
      obtain ⟨c, v, compared, equal⟩ := Task.bind_eq_ok.mp equal
      obtain ⟨read₃, firsts⟩ := ih (s := ⟨k₂, s.journal⟩) read₂.sound
        (read₂.spans (spansFirst.branch (branches_first xCons xPoints.2)))
        (read₂.spans (spansSecond.branch (branches_first yCons yPoints.2))) compared
      have read₃ := read₂.trans read₃
      cases c with
      | false =>
        cases equal
        exact ⟨read₃, by simp⟩
      | true =>
        obtain ⟨k₄, -, back, read₄⟩ := read₃.sound.reads (s := v) (read₃.spans spansFirst) xCons xPoints.2
        rw [read₃.contents] at back
        have read₄ := read₃.trans read₄
        obtain ⟨k₅, -, back', read₅⟩ := read₄.sound.reads (s := ⟨k₄, v.journal⟩)
          (read₄.spans spansSecond) yCons yPoints.2
        rw [read₄.contents] at back'
        have read₅ := read₄.trans read₅
        rw [if_pos rfl, Task.bind_of_ok back, Task.bind_of_ok back'] at equal
        obtain ⟨read₆, rests⟩ := ih (s := ⟨k₅, v.journal⟩) read₅.sound
          (read₅.spans (spansFirst.branch (branches_rest xCons xPoints.2)))
          (read₅.spans (spansSecond.branch (branches_rest yCons yPoints.2))) equal
        exact ⟨read₅.trans read₆, fun alike => .pair xPoints yPoints (read₂.matches.mp (firsts rfl))
          (read₅.matches.mp (rests alike))⟩
    · rw [if_pos (by simpa [imp_iff_not_or] using pairs), Task.pure_apply] at equal
      cases equal
      exact ⟨.refl sound, by simp⟩

/-- Values that are found equal match, even if neither of them ever comes to an end. -/
theorem Sound.matches_of_equal (sound : s.state.Sound) (spansFirst : s.state.Spans x)
    (spansSecond : s.state.Spans y) (equal : outcomeOf (Data.equal x y s) = .ok true) :
    s.state.Matches x y := by
  obtain ⟨limit, limited, -⟩ := walkLimit_apply s
  rw [Data.equal, Task.bind_apply, limited] at equal
  cases compared : Data.equalFrom limit x y s with
  | error f u => simp [compared, outcomeOf] at equal
  | ok b u =>
    obtain rfl : b = true := by simpa [compared, outcomeOf] using equal
    exact (sound.matches_of_equalFrom spansFirst spansSecond compared).2 rfl

theorem Matches.kinds (alike : h.Matches x y) :
    x.isNil = y.isNil ∧ x.isPair = y.isPair ∧ x.isCons = y.isCons := by
  cases alike with
  | same => simp
  | pair first second => simp [first.isNil, second.isNil, first.1, second.1, first.isCons, second.isCons]

section
variable (threaded : h.Threaded h.members)
include threaded

theorem Matches.showItems (alike : h.Matches x y) (first : h.Spans x) (second : h.Spans y)
    (each : ∀ u v, h.Matches u v → h.Spans u → h.Spans v → item u = item v) :
    showItems h item n x = showItems h item n y := by
  induction n generalizing x y with
  | zero =>
    cases alike with
    | same => rfl
    | @pair _ _ i j one two firsts rests =>
      have front := each _ _ firsts (first.branch (branches_first one.isCons one.2))
        (second.branch (branches_first two.isCons two.2))
      have back := each _ _ rests (first.branch (branches_rest one.isCons one.2))
        (second.branch (branches_rest two.isCons two.2))
      rw [Data.showItems, Data.showItems, first.peek threaded one, second.peek threaded two]
      simp only [Writing.after, front, back, rests.kinds]
  | succ n ih =>
    cases alike with
    | same => rfl
    | @pair _ _ i j one two firsts rests =>
      have spans := first.branch (branches_rest one.isCons one.2)
      have spans' := second.branch (branches_rest two.isCons two.2)
      have front := each _ _ firsts (first.branch (branches_first one.isCons one.2))
        (second.branch (branches_first two.isCons two.2))
      rw [Data.showItems, Data.showItems, first.peek threaded one, second.peek threaded two]
      simp only [Writing.after, front, each _ _ rests spans spans', rests.kinds, ih rests spans spans']

/-- Values that match are written alike. -/
theorem Matches.showFrom (alike : h.Matches x y) (first : h.Spans x) (second : h.Spans y) :
    showFrom h names n x = showFrom h names n y := by
  induction n generalizing x y with
  | zero => rw [Data.showFrom, Data.showFrom]
  | succ n ih =>
    cases alike with
    | same => rfl
    | pair one two firsts rests =>
      rw [Data.showFrom, Data.showFrom, if_pos one.isCons, if_pos two.isCons,
        (Matches.pair one two firsts rests).showItems threaded first second fun _ _ => ih]

end

/-- What writing values of the heap `h` comes to. -/
structure Renders (h : Heap L) : Prop where
  /-- Every value is written out, one that runs in circles too. -/
  whole : ∀ names r, h.Spans r → (showRef h names r).fault? = none
  /-- The text of a value that comes to an end is that of its tree. -/
  tree : ∀ names r t, h.Spans r → h.Unfolds r t → showRef h names r = .whole (t.written names (showLimit + 1))
  /-- Values that are found equal are written alike. -/
  equal : ∀ names j x y, h.Spans x → h.Spans y → outcomeOf (Data.equal x y ⟨h, j⟩) = .ok true →
    showRef h names x = showRef h names y
  /-- Nothing is left out of a tree within the limits. -/
  unlimited : ∀ names r t, h.Spans r → h.Unfolds r t → t.Fits → showRef h names r = .whole (t.print names)
  /-- Of a list that is too long the items up to the limit are written, each one as on its own but with one
  level less, and that there is more. -/
  long : ∀ names n r spine more, h.Spans r → h.Leads r spine more → spine.length = showLimit →
    more.isCons = true → showFrom h names (n + 1) r =
      .whole ("(" ++ " ".intercalate ((h.items spine).map fun v => (showFrom h names n v).text) ++ " ...)")

/-- Whatever is made of cells in use can be written, and the text shows what the value unfolds to. -/
theorem Sound.renders (sound : h.Sound) : Renders h where
  whole _ _ spans := spans.showFrom_whole sound.threaded
  tree _ _ _ spans unfolds := spans.showFrom_eq sound.threaded unfolds
  equal _ j _ _ first second equal :=
    (Sound.matches_of_equal (s := ⟨h, j⟩) sound first second equal).showFrom sound.threaded first second
  unlimited _ _ _ spans unfolds fits := by
    rw [showRef, spans.showFrom_eq sound.threaded unfolds, fits.written_eq]
  long _ _ _ spine more spans leads length isCons := by
    rw [spans.showFrom_list sound.threaded leads (by rintro rfl; simp [showLimit] at length) length.le
      fun _ => length, ending, if_pos isCons, String.append_assoc]
    rfl

/-- A list that runs in a circle is written up to the limit, and a pair that stands in both slots of another
is written twice. -/
theorem renders_circle : ∃ (s : Logged (Heap .twoLow)) (circle form v : Ref .twoLow), s.state.Sound ∧
    s.state.parts circle = (.bool true, circle) ∧ s.state.parts form = (v, v) ∧
    showRef s.state .empty circle =
      .whole ("(" ++ " ".intercalate (List.replicate showLimit "#t") ++ " ...)") ∧
    showRef s.state .empty form = .whole "((#f . #t) #f . #t)" := by
  obtain ⟨circle, form, v, script, s, values, scripted, is, fitting, inside, closed, circles, leads, items, turns,
      formCons, vCons, formHolds, vHolds⟩ :
      ∃ (circle form v : Ref .twoLow) (script : List (Op .twoLow)) (s : Logged (Heap .twoLow))
        (values : List (Ref .twoLow)),
        script = [.act (.cons (.bool true) .nil), .act (.setRest circle circle),
          .act (.cons (.bool false) (.bool true)), .act (.cons v v)] ∧
        s = afterAll (blank .twoLow) script ∧ Fitting (blank .twoLow) script ∧
        (circle ∈ values ∧ form ∈ values) ∧ s.state.Closed values ∧ circle.isCons = true ∧
        s.state.Leads circle (List.replicate showLimit 6) circle ∧
        s.state.items (List.replicate showLimit 6) = List.replicate showLimit (.bool true) ∧
        s.state.parts circle = (.bool true, circle) ∧ form.isCons = true ∧ v.isCons = true ∧
        s.state.parts form = (v, v) ∧ s.state.parts v = (.bool false, .bool true) :=
    ⟨⟨24, by decide⟩, ⟨32, by decide⟩, ⟨28, by decide⟩, _, _, [⟨24, by decide⟩, ⟨28, by decide⟩, ⟨32, by decide⟩,
      .bool true, .bool false, .nil], rfl, rfl, by decide +kernel⟩
  have sound : s.state.Sound := is ▸ fitting.sound_blank
  have renders := sound.renders
  refine ⟨s, circle, form, v, sound, turns, formHolds, ?_, ?_⟩
  · rw [showRef, renders.long .empty showLimit circle _ circle (closed.intact inside.1).spans leads (by simp) circles,
      items, List.map_replicate]
    rfl
  · have leaf : ∀ b, s.state.Unfolds (.bool b) (.leaf (.bool b)) := fun b => .leaf (by cases b <;> decide)
    have shared : s.state.Unfolds v (.node (.leaf (.bool false)) (.leaf (.bool true))) :=
      unfolds_parts vCons (by rw [vHolds]; exact leaf false) (by rw [vHolds]; exact leaf true)
    have unfolds : s.state.Unfolds form (.node _ _) :=
      unfolds_parts formCons (by rw [formHolds]; exact shared) (by rw [formHolds]; exact shared)
    rw [renders.tree .empty form _ (closed.intact inside.2).spans unfolds]
    decide +kernel

end Heap

end Treadmill

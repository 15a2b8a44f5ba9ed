import Mathlib
import Treadmill.Proofs.Data.Equality
import Treadmill.Proofs.Ends
import Treadmill.Proofs.Heap.Script

/-!
Work that makes cells. It leaves every cell that was in use as it was (`Enlarged`), so a value made of
such cells alone reads the same afterwards, and it gives up only when there is no cell left to hand out
(`Exhausts`). `Builds` says both of a task, together with what it answers.
-/

namespace Treadmill.Heap
open Relation (ReflTransGen)
variable {L : Layout} {α β : Type} {h k m : Heap L} {s u : Logged (Heap L)} {r v a b : Ref L} {i : Nat}
  {f : Fault} {t : Tree L}

/-- All that is met as `r` is unfolded is in use, actors as well as pairs. -/
def Intact (h : Heap L) (r : Ref L) : Prop := ∀ v, ReflTransGen h.Branches r v → h.Holds v

/-- The slots of a pair; the empty list stands in both of its own. -/
def parts (h : Heap L) (r : Ref L) : Ref L × Ref L :=
  match r.target? with
  | some i => h.contents i
  | none => (.nil, .nil)

/-- `k` is `h`, perhaps with more cells in use. -/
structure Enlarged (h k : Heap L) : Prop where
  sound : k.Sound
  inUse : ∀ i, h.InUse i → k.InUse i
  contents : ∀ i, h.InUse i → k.contents i = h.contents i

/-- What was begun in `h` gives up in `k`, where there is no cell left to hand out. -/
structure Exhausts (h : Heap L) (f : Fault) (k : Heap L) : Prop where
  fault : f = .arenaExhausted
  short : k.Short .free
  enlarged : Enlarged h k

/-- The pair `r` stands in a cell of `k` that was not in use in `h`. -/
def New (h k : Heap L) (r : Ref L) : Prop := ∃ i, r.Points i ∧ ¬h.InUse i ∧ k.InUse i

/-- The pair `r` is `New`: it stands in the cell `i` of `k`, with `a` and `b` in its slots. -/
structure NewPair (h k : Heap L) (r : Ref L) (i : Nat) (a b : Ref L) : Prop where
  points : r.Points i
  unused : ¬h.InUse i
  inUse : k.InUse i
  holds : k.contents i = (a, b)

/-- From `s` the task comes to an answer of which `done` holds, unless it runs out of cells. -/
def Builds (t : HeapTask L α) (s : Logged (Heap L)) (done : α → Heap L → Prop) : Prop :=
  t.Ends s (fun a k => Enlarged s.state k ∧ done a k) (Exhausts s.state)

/-! ### Pairs -/

theorem parts_of_target (target : r.target? = some i) : h.parts r = h.contents i := by
  simp [parts, target]

theorem parts_of_points (points : r.Points i) : h.parts r = h.contents i := parts_of_target points.2

theorem points_of_isCons (isCons : r.isCons = true) : r.Points r.field.toNat := by
  have target := Ref.target?_of_isCons isCons
  rw [Ref.isCons, Bool.and_eq_true] at isCons
  exact ⟨isCons.1, target⟩

theorem holds_of_inUse (points : r.Points i) (use : h.InUse i) : h.Holds r := by
  intro j target
  rw [points.2, Option.some.injEq] at target
  exact target ▸ use

theorem New.holds (new : New h k r) : k.Holds r := by
  obtain ⟨i, points, -, use⟩ := new
  exact holds_of_inUse points use

theorem New.isCons (new : New h k r) : r.isCons = true := by
  obtain ⟨i, points, -⟩ := new
  exact points.isCons

namespace Intact

theorem holds (intact : h.Intact r) : h.Holds r := intact r .refl

theorem spans (intact : h.Intact r) : h.Spans r := fun v met _ => intact v met

theorem branch (intact : h.Intact r) (branch : h.Branches r v) : h.Intact v :=
  fun w met => intact w (.head branch met)

theorem first (intact : h.Intact r) (isCons : r.isCons = true) : h.Intact (h.parts r).1 := by
  have target := Ref.target?_of_isCons isCons
  rw [parts_of_target target]
  exact intact.branch (branches_first isCons target)

theorem rest (intact : h.Intact r) (isCons : r.isCons = true) : h.Intact (h.parts r).2 := by
  have target := Ref.target?_of_isCons isCons
  rw [parts_of_target target]
  exact intact.branch (branches_rest isCons target)

end Intact

theorem intact_of_not_cons (notCons : r.isCons = false) (holds : h.Holds r) : h.Intact r := by
  intro v met
  rcases met.cases_head with rfl | ⟨w, branch, -⟩
  · exact holds
  · exact absurd branch.1 (by simp [notCons])

theorem intact_nil : h.Intact (.nil : Ref L) :=
  intact_of_not_cons (by simp [Ref.isCons]) (plain_of_target? Ref.target?_nil).holds

theorem intact_of_parts (holds : h.Holds r) (first : h.Intact (h.parts r).1) (rest : h.Intact (h.parts r).2) :
    h.Intact r := by
  intro v met
  rcases met.cases_head with rfl | ⟨w, ⟨-, j, target, slot⟩, below⟩
  · exact holds
  · rw [parts_of_target target] at first rest
    rcases slot with rfl | rfl
    · exact first v below
    · exact rest v below

theorem unfolds_parts {t u : Tree L} (isCons : r.isCons = true) (first : h.Unfolds (h.parts r).1 t)
    (rest : h.Unfolds (h.parts r).2 u) : h.Unfolds r (.node t u) := by
  have target := Ref.target?_of_isCons isCons
  rw [parts_of_target target] at first rest
  exact .node isCons target first rest

/-- The values name collectable cells, if any, and have the slots of each of their pairs among them. -/
def Closed (h : Heap L) (values : List (Ref L)) : Prop :=
  ∀ v ∈ values, h.Plain v ∧ (v.isCons = true → (h.parts v).1 ∈ values ∧ (h.parts v).2 ∈ values)

instance (h : Heap L) (values : List (Ref L)) : Decidable (h.Closed values) :=
  inferInstanceAs (Decidable (∀ v ∈ values, _ ∧ (_ → _ ∧ _)))

theorem Closed.intact {values : List (Ref L)} (closed : h.Closed values) (on : r ∈ values) : h.Intact r := by
  intro v met
  suffices on : v ∈ values from (closed v on).1.holds
  induction met with
  | refl => exact on
  | tail _ branch ih =>
    obtain ⟨isCons, i, target, slot⟩ := branch
    have both := (closed _ ih).2 isCons
    rw [parts_of_target target] at both
    rcases slot with rfl | rfl
    · exact both.1
    · exact both.2

/-! ### Heaps with more cells in use -/

namespace Enlarged

theorem refl (sound : h.Sound) : Enlarged h h := ⟨sound, fun _ => id, fun _ _ => rfl⟩

theorem trans (first : Enlarged h m) (second : Enlarged m k) : Enlarged h k where
  sound := second.sound
  inUse i use := second.inUse i (first.inUse i use)
  contents i use := (second.contents i (first.inUse i use)).trans (first.contents i use)

variable (grown : Enlarged h k)
include grown

theorem holds (holds : h.Holds v) : k.Holds v := fun i target => grown.inUse i (holds i target)

theorem parts (holds : h.Holds r) : k.parts r = h.parts r := by
  cases target : r.target? with
  | none => simp [Heap.parts, target]
  | some i =>
    rw [parts_of_target target, parts_of_target target]
    exact grown.contents i (holds i target)

theorem branch (holds : h.Holds r) (branch : k.Branches r v) : h.Branches r v := by
  obtain ⟨isCons, i, target, slot⟩ := branch
  rw [grown.contents i (holds i target)] at slot
  exact ⟨isCons, i, target, slot⟩

theorem intact (intact : h.Intact r) : k.Intact r := by
  intro v met
  apply grown.holds
  apply intact
  induction met with
  | refl => exact .refl
  | tail _ branch ih => exact ih.tail (grown.branch (intact _ ih) branch)

theorem unfolds (intact : h.Intact r) (unfolds : h.Unfolds r t) : k.Unfolds r t := by
  induction unfolds with
  | leaf notCons => exact .leaf notCons
  | node isCons target _ _ first rest =>
    have same := grown.contents _ (intact.holds _ target)
    apply Unfolds.node isCons target
    · rw [same]
      exact first (intact.branch (branches_first isCons target))
    · rw [same]
      exact rest (intact.branch (branches_rest isCons target))

/-- A pair of `h` is read as it stands there. -/
theorem reads {j : Journal} (intact : h.Intact r) (isCons : r.isCons = true) :
    ∃ m, first r ⟨k, j⟩ = .ok (h.parts r).1 ⟨m, j⟩ ∧ rest r ⟨k, j⟩ = .ok (h.parts r).2 ⟨m, j⟩ ∧ Read k m := by
  have target := Ref.target?_of_isCons isCons
  have read := grown.sound.reads (s := ⟨k, j⟩) (grown.intact intact).spans isCons target
  rwa [← parts_of_target target, grown.parts intact.holds] at read

end Enlarged

theorem Read.enlarged (read : Read h k) : Enlarged h k :=
  ⟨read.sound, fun _ => read.promoted.inUse_iff.mpr, fun i _ => read.contents i⟩

theorem New.grown (new : New h m r) (grown : Enlarged m k) : New h k r := by
  obtain ⟨i, points, unused, use⟩ := new
  exact ⟨i, points, unused, grown.inUse i use⟩

namespace NewPair
variable (pair : NewPair h k r i a b)
include pair

theorem new : New h k r := ⟨i, pair.points, pair.unused, pair.inUse⟩

theorem parts : k.parts r = (a, b) := by rw [parts_of_points pair.points, pair.holds]

theorem intact (first : k.Intact a) (rest : k.Intact b) : k.Intact r := by
  apply intact_of_parts pair.new.holds
  · rwa [pair.parts]
  · rwa [pair.parts]

end NewPair

theorem NewPair.grown (pair : NewPair h m r i a b) (grown : Enlarged m k) : NewPair h k r i a b :=
  ⟨pair.points, pair.unused, grown.inUse i pair.inUse, (grown.contents i pair.inUse).trans pair.holds⟩

theorem NewPair.since (pair : NewPair m k r i a b) (grown : Enlarged h m) : NewPair h k r i a b :=
  ⟨pair.points, fun old => pair.unused (grown.inUse i old), pair.inUse, pair.holds⟩

theorem Exhausts.since (exhausts : Exhausts m f k) (grown : Enlarged h m) : Exhausts h f k :=
  ⟨exhausts.fault, exhausts.short, grown.trans exhausts.enlarged⟩

/-! ### Tasks -/

namespace Builds
variable {task : HeapTask L α} {next : α → HeapTask L β} {done done' : α → Heap L → Prop}
  {after : β → Heap L → Prop}

theorem mono (builds : Builds task s done) (imp : ∀ a k, Enlarged s.state k → done a k → done' a k) :
    Builds task s done' :=
  Task.Ends.mono builds (fun a k both => ⟨both.1, imp a k both.1 both.2⟩) fun _ _ => id

theorem since (builds : Builds task u done) (grown : Enlarged s.state u.state) :
    task.Ends u (fun a k => Enlarged s.state k ∧ done a k) (Exhausts s.state) :=
  Task.Ends.mono builds (fun _ _ both => ⟨grown.trans both.1, both.2⟩) fun _ _ exhausts => exhausts.since grown

theorem bind (builds : Builds task s done)
    (rest : ∀ a u, Enlarged s.state u.state → done a u.state → Builds (next a) u after) :
    Builds (task >>= next) s after := by
  apply Task.Ends.bind builds
  rintro a u ⟨grown, holds⟩
  exact (rest a u grown holds).since grown

end Builds

theorem builds_pure {done : α → Heap L → Prop} {a : α} (sound : s.state.Sound) (holds : done a s.state) :
    Builds (pure a) s done :=
  Task.ends_pure ⟨.refl sound, holds⟩

/-- A task that begins with a read goes on in the heap that this leaves. -/
theorem builds_read {task : HeapTask L α} {next : α → HeapTask L β} {after : β → Heap L → Prop} {a : α}
    (ran : task s = .ok a ⟨k, s.journal⟩) (read : Read s.state k)
    (rest : Builds (next a) ⟨k, s.journal⟩ after) : Builds (task >>= next) s after :=
  Task.ends_bind_ok ran (rest.since read.enlarged)

section Reading
variable {next : Ref L → HeapTask L β} {after : β → Heap L → Prop}

theorem builds_first (grown : Enlarged h s.state) (intact : h.Intact r) (isCons : r.isCons = true)
    (onward : ∀ k, Read s.state k → Enlarged h k → Builds (next (h.parts r).1) ⟨k, s.journal⟩ after) :
    Builds (first r >>= next) s after := by
  obtain ⟨k, ran, -, read⟩ := grown.reads (j := s.journal) intact isCons
  exact builds_read ran read (onward k read (grown.trans read.enlarged))

theorem builds_rest (grown : Enlarged h s.state) (intact : h.Intact r) (isCons : r.isCons = true)
    (onward : ∀ k, Read s.state k → Enlarged h k → Builds (next (h.parts r).2) ⟨k, s.journal⟩ after) :
    Builds (rest r >>= next) s after := by
  obtain ⟨k, -, ran, read⟩ := grown.reads (j := s.journal) intact isCons
  exact builds_read ran read (onward k read (grown.trans read.enlarged))

end Reading

/-- A new pair of values that are in use. -/
theorem builds_cons (sound : s.state.Sound) (first : s.state.Intact a) (rest : s.state.Intact b) :
    Builds (cons a b) s fun r k => k.Intact r ∧ ∃ i, NewPair s.state k r i a b := by
  have held : ∀ v ∈ (Act.cons a b).operands, s.state.Holds v := by
    simpa [Act.operands] using ⟨first.holds, rest.holds⟩
  rcases (Act.cons a b).outcome sound held with ⟨f, refusal, refused⟩ | ⟨-, answer, k, j, made, effect⟩
  · simp only [Act.refusal] at refusal
    split at refusal
    · rename_i short
      obtain rfl := Option.some.inj refusal
      rcases Task.bind_eq_error.mp refused with failed | ⟨r, u, -, failed⟩
      · exact Task.ends_of_error failed ⟨rfl, short, .refl sound⟩
      · cases failed
    · cases refusal
  · obtain ⟨r, i, rfl, kind, target, unused, filled⟩ := effect.born .pair a b rfl
    obtain ⟨q, u, made, ended⟩ := Task.bind_eq_ok.mp made
    simp only [Task.pure_apply, EStateM.Result.ok.injEq, Option.some.injEq] at ended
    obtain ⟨rfl, rfl⟩ := ended
    have grown : Enlarged s.state k :=
      ⟨effect.sound, fun j old => effect.inUse_iff.mpr (Or.inl old), effect.contents⟩
    have pair : NewPair s.state k q i a b :=
      ⟨⟨by simp [Ref.isPair, kind], target⟩, unused, effect.inUse_iff.mpr (Or.inr ⟨rfl, q, rfl, target⟩), filled⟩
    exact Task.ends_of_ok made ⟨grown, pair.intact (grown.intact first) (grown.intact rest), i, pair⟩

end Treadmill.Heap

import Mathlib
import Treadmill.Proofs.Faults
import Treadmill.Proofs.Heap.Ledger
import Treadmill.Proofs.Heap.Shape
import Treadmill.Proofs.World.Gather

/-!
Work on the heap of a world from outside: what its user does to cells, and the steps of the
collector. As long as nothing writes to the cells of the world itself its books stay in order.
-/

namespace Treadmill
variable {L : Layout} {op : Op L} {o : Except Fault (Option (Ref L))} {h k : Heap L} {i : Nat}

/-- The permanent cells that a deed has handed out. -/
def Deed.granted : Deed L → List Nat
  | ⟨.act (.perm _ _), .ok (some r)⟩ => r.target?.toList
  | _ => []

theorem Deed.mem_granted (d : Deed L) : i ∈ d.granted ↔ HandedOut [d] i := by
  obtain ⟨op, o⟩ := d
  constructor
  · intro on
    unfold granted at on
    split at on
    · rename_i a b r shape
      exact ⟨a, b, r, List.mem_singleton.mpr shape.symm, by simpa using on⟩
    · cases on
  · rintro ⟨a, b, r, on, target⟩
    obtain ⟨rfl, rfl⟩ : .act (.perm a b) = op ∧ .ok (some r) = o := by simpa using on
    simp [granted, target]

theorem Deed.granted_nodup (d : Deed L) : d.granted.Nodup := by
  unfold granted
  split
  · rename_i r
    cases r.target? <;> simp
  · exact .nil

theorem Step.granted_new (step : Step op o h k) (on : i ∈ Deed.granted ⟨op, o⟩) : ¬h.InUse i := by
  obtain ⟨a, b, r, same, target⟩ := (Deed.mem_granted _).mp on
  obtain ⟨rfl, rfl⟩ : .act (.perm a b) = op ∧ .ok (some r) = o := by simpa using same
  obtain ⟨-, j, target', unused, -⟩ := step.allocation (e := ⟨r, (a, b), false⟩) (by
    simp [Deed.allocation, Act.birth])
  rw [target, Option.some.injEq] at target'
  exact target' ▸ unused

theorem Act.refusal_grave {a : Act L} {f : Fault} (refused : a.refusal h = some f)
    (grave : f.isGrave = true) : f = .arenaExhausted ∧ Ref.maxCell L < h.cells.size + blockCells := by
  have short : ∀ {r : Ring}, (if h.Short r then some Fault.arenaExhausted else none) = some f →
      f = .arenaExhausted ∧ Ref.maxCell L < h.cells.size + blockCells := by
    intro r refused
    split at refused
    · rename_i short
      exact ⟨(Option.some.inj refused).symm, short.2⟩
    · cases refused
  have misused : ∀ {c : Bool} {g : Fault}, g.isGrave = false →
      (if c then none else some g) = some f → False := by
    intro c g light refused
    cases c
    · obtain rfl := Option.some.inj refused
      simp [light] at grave
    · cases refused
  cases a with
  | cons | perm => exact short refused
  | actorCell beh =>
    simp only [refusal] at refused
    split at refused
    · obtain rfl := Option.some.inj refused
      cases grave
    · exact short refused
  | first | rest | setFirst | setRest | behavior | state => exact (misused rfl refused).elim
  | setActor r beh =>
    simp only [refusal] at refused
    split at refused
    · obtain rfl := Option.some.inj refused
      cases grave
    · exact (misused rfl refused).elim
  | scanValue => cases refused

/-- An operation fails with a grave fault only where there is no room for another block of cells. -/
theorem Op.grave (op : Op L) {s : Logged (Heap L)} (sound : s.state.Sound)
    (held : ∀ v ∈ op.operands, s.state.Holds v) {f : Fault}
    (failed : outcomeOf (op.task s) = .error f) (grave : f.isGrave = true) :
    f = .arenaExhausted ∧
      Ref.maxCell L < (stateAfter (op.task s)).state.cells.size + blockCells := by
  cases op with
  | act a =>
    rcases a.outcome sound held with ⟨g, refusal, refused⟩ | ⟨-, answer, k, j, done, -⟩
    · rw [task, refused] at failed ⊢
      obtain rfl := Except.error.inj failed
      exact Act.refusal_grave refusal grave
    · rw [task, done] at failed
      cases failed
  | age =>
    cases busy : s.state.collecting with
    | true =>
      simp [task, Task.bind_apply, Heap.age_busy busy, outcomeOf] at failed
      subst failed
      cases grave
    | false =>
      obtain ⟨j, done⟩ := Heap.age_apply busy
      simp [task, Task.bind_apply, done, outcomeOf] at failed
  | beginCollect roots =>
    cases busy : s.state.collecting with
    | true =>
      simp [task, Task.bind_apply, Heap.beginCollect_busy busy, outcomeOf] at failed
      subst failed
      cases grave
    | false =>
      obtain ⟨k, j, done, -⟩ := Heap.beginCollect_apply sound busy
        fun v (on : v ∈ roots) => (sound.finished busy).regular sound (held v on)
      simp [task, Task.bind_apply, done, outcomeOf] at failed
  | traceStep =>
    by_cases empty : s.state.members .scan = []
    · simp [task, Task.bind_apply, Heap.traceStep_none sound empty, outcomeOf] at failed
    · obtain ⟨k, done, -⟩ := Heap.traceStep_some sound empty
      simp [task, Task.bind_apply, done, outcomeOf] at failed
  | sweep =>
    cases busy : s.state.collecting with
    | false => simp [task, Task.bind_apply, Heap.sweep_idle busy, outcomeOf] at failed
    | true =>
      by_cases empty : s.state.members .scan = []
      · obtain ⟨k, j, done, -⟩ := Heap.sweep_apply sound busy empty
        simp [task, Task.bind_apply, done, outcomeOf] at failed
      · simp [task, Task.bind_apply, Heap.sweep_untraced sound busy empty, outcomeOf] at failed
        subst failed
        cases grave
  | fullCollect roots =>
    have holds : ∀ v ∈ roots, s.state.Holds v := held
    obtain ⟨k, j, done, -⟩ := Heap.fullCollect_apply sound holds
    simp [task, Task.bind_apply, done, outcomeOf] at failed

/-- The cell that an operation writes to. -/
def Op.writes : Op L → Option Nat
  | .act a => a.writes.bind Ref.target?
  | _ => none

theorem Step.contents_other (step : Step op o h k) (use : h.InUse i) (other : op.writes ≠ some i) :
    k.contents i = h.contents i := by
  rcases step.frame use with same | ⟨a, r, rfl, writes, target, -⟩
  · exact same
  · exact absurd (by simp [Op.writes, writes, target]) other

namespace World
variable {α γ : Type} {w : World L α γ} {b : Books L} {care care' : Care L} {v : Ref L}

/-- Work on the heap leaves the books in order if it spares the cells of the world. -/
theorem Kept.worked (kept : Kept care b w) (step : Step op o w.heap k)
    (spared : ∀ i ∈ b.own, op.writes ≠ some i) (guards : ∀ v ∈ b.refs, care'.Guards k v)
    (stands : care'.Stands k) :
    Kept care' { b with granted := b.granted ++ Deed.granted ⟨op, o⟩ } { w with heap := k } where
  toQueued :=
    let queued := kept.toQueued.withHeap fun i on =>
      step.contents_other (kept.stock.inUse (Books.filed_cells on)) (spared i (Books.filed_own on))
    { queued with }
  stock :=
    { sound := step.sound kept.stock.sound
      distinct := by
        change (b.own ++ (b.granted ++ _)).Nodup
        rw [← List.append_assoc]
        refine kept.stock.distinct.append (Deed.granted_nodup _) fun i old new => ?_
        exact step.granted_new new (kept.stock.inUse old)
      own := fun i => by
        change k.Fixed i ↔ i ∈ b.own ++ (b.granted ++ _)
        rw [← List.append_assoc, List.mem_append, Deed.mem_granted, step.fixed_iff, kept.stock.own]
        rfl
      kept := guards
      stands := stands }
  used := kept.used
  most := kept.most

end World

end Treadmill

import Mathlib
import Treadmill.Proofs.Heap.Whole

/-!
A cycle traces each cell once. The cells that have been traced, those still to be traced and the
candidates are at any time the ones that were fresh before the cycle began (`Runs.conserved`), whatever
the user does in the meantime, so tracing comes to an end.
-/

namespace Treadmill
variable {L : Layout} {h k : Heap L} {s b t u : Logged (Heap L)} {op : Op L} {ops : List (Op L)}
  {act : Act L} {answer : Option (Ref L)} {deeds : List (Deed L)} {i n m c done : Nat} {j l : Journal}
  {p : Ref L × Ref L}
open Heap

namespace Heap

/-- The cells that are still to be traced, and the candidates. -/
def waiting (h : Heap L) : List Nat := h.members .scan ++ h.members .aged

theorem Sound.mem_waiting (sound : h.Sound) :
    i ∈ h.waiting ↔ h.Collectable i ∧ i ∉ h.members .fresh := by
  rw [waiting, List.mem_append]
  constructor
  · rintro (scanned | danger)
    · exact ⟨Or.inr (Or.inr scanned), fun fresh => absurd (sound.threaded.apart scanned fresh) (by decide)⟩
    · exact ⟨Or.inr (Or.inl danger), fun fresh => absurd (sound.threaded.apart danger fresh) (by decide)⟩
  · rintro ⟨fresh | danger | scanned, other⟩
    · exact absurd fresh other
    · exact Or.inr danger
    · exact Or.inl scanned

theorem Sound.nodup_waiting (sound : h.Sound) : h.waiting.Nodup := by
  refine (sound.threaded.nodup .scan).append (sound.threaded.nodup .aged) fun i scanned danger => ?_
  exact absurd (sound.threaded.apart scanned danger) (by decide)

theorem Sound.length_waiting (sound : h.Sound) : h.waiting.length = h.size .scan + h.size .aged := by
  rw [waiting, List.length_append, sound.threaded.recorded, sound.threaded.recorded]

/-- The same cells are waiting if the same ones are fresh. -/
theorem Sound.waiting_perm (sound : h.Sound) (sound' : k.Sound)
    (collectable : ∀ i, i ∉ k.members .fresh → (k.Collectable i ↔ h.Collectable i))
    (fresh : ∀ i, h.Collectable i → (i ∈ k.members .fresh ↔ i ∈ h.members .fresh))
    (young : ∀ i ∈ h.members .fresh, i ∈ k.members .fresh) : k.waiting.Perm h.waiting := by
  rw [List.perm_ext_iff_of_nodup sound'.nodup_waiting sound.nodup_waiting]
  intro i
  rw [sound'.mem_waiting, sound.mem_waiting]
  constructor
  · rintro ⟨on, other⟩
    exact ⟨(collectable i other).mp on, fun old => other (young i old)⟩
  · rintro ⟨on, other⟩
    have other' : i ∉ k.members .fresh := fun now => other ((fresh i on).mp now)
    exact ⟨(collectable i other').mpr on, other'⟩

theorem Filed.waiting (filed : Filed h k i p) (sound : h.Sound) : k.waiting.Perm h.waiting :=
  sound.waiting_perm filed.sound (fun c _ => filed.collectable c) (fun c _ => filed.fresh c)
    fun c => (filed.fresh c).mpr

/-- Just the cells that were fresh are waiting when a cycle begins. -/
theorem Begun.waiting (begun : Begun h k) (sound : h.Sound) (resting : h.collecting = false) :
    k.waiting.Perm (h.members .fresh) := by
  rw [List.perm_ext_iff_of_nodup begun.sound.nodup_waiting (sound.threaded.nodup .fresh)]
  intro i
  rw [begun.sound.mem_waiting, begun.fresh, ← sound.collectable_iff resting]
  constructor
  · rintro ⟨on, -⟩
    exact begun.collectable i on
  · intro on
    exact ⟨begun.all i on, List.not_mem_nil⟩

/-- A cell that is traced waits no longer. -/
theorem traceStep_waiting (sound : s.state.Sound) (found : traceStep s = .ok true ⟨k, j⟩) :
    ∃ i row, s.state.members .scan = i :: row ∧ (i :: k.waiting).Perm s.state.waiting := by
  obtain ⟨i, row, shape, fresh, -⟩ := traceStep_scan sound found
  have traced := traceStep_traced sound found
  have here : i ∈ k.members .fresh := by simp [fresh]
  have on : i ∈ s.state.members .scan := by simp [shape]
  have off : i ∉ k.waiting := fun waits => (traced.sound.mem_waiting.mp waits).2 here
  refine ⟨i, row, shape, ?_⟩
  rw [List.perm_ext_iff_of_nodup (List.nodup_cons.mpr ⟨off, traced.sound.nodup_waiting⟩)
    sound.nodup_waiting]
  intro c
  rw [List.mem_cons, traced.sound.mem_waiting, sound.mem_waiting, fresh, List.mem_cons, not_or]
  constructor
  · rintro (rfl | ⟨on, -, other⟩)
    · exact ⟨Or.inr (Or.inr on), fun young => absurd (sound.threaded.apart on young) (by decide)⟩
    · exact ⟨traced.collectable c on, other⟩
  · rintro ⟨on, other⟩
    by_cases same : c = i
    · exact Or.inl same
    · exact Or.inr ⟨traced.all c on, same, other⟩

/-! ### Tracing to the end -/

theorem traceFrom_more (ran : traceFrom n done s = .ok c u) (le : n ≤ m) :
    traceFrom m done s = .ok c u := by
  induction n generalizing m s done with
  | zero => cases ran
  | succ n ih =>
    obtain ⟨m, rfl⟩ : ∃ r, m = r + 1 := ⟨m - 1, by omega⟩
    rw [traceFrom] at ran ⊢
    obtain ⟨found, v, stepped, rest⟩ := Task.bind_eq_ok.mp ran
    refine Task.bind_eq_ok.mpr ⟨found, v, stepped, ?_⟩
    cases found with
    | true => exact ih rest (by omega)
    | false => exact rest

/-- As many cells are traced as wait no longer. -/
theorem traceFrom_waiting (sound : s.state.Sound) (ran : traceFrom n done s = .ok c u) :
    c + u.state.waiting.length = done + s.state.waiting.length := by
  induction n generalizing s done with
  | zero => cases ran
  | succ n ih =>
    by_cases empty : s.state.members .scan = []
    · simp only [traceFrom, Task.bind_apply, traceStep_none sound empty] at ran
      cases ran
      rfl
    · obtain ⟨k, found, traced⟩ := traceStep_some sound empty
      obtain ⟨i, -, -, perm⟩ := traceStep_waiting sound found
      simp only [traceFrom, Task.bind_apply, found] at ran
      have later := ih traced.sound ran
      have count := perm.length_eq
      rw [List.length_cons] at count
      dsimp only at later
      omega

/-- Tracing comes to an end after as many steps as there are cells waiting at most. -/
theorem Sound.traced_out (sound : s.state.Sound) (busy : s.state.collecting = true) :
    ∃ c u, (∀ n, s.state.waiting.length < n → traceFrom n 0 s = .ok c u) ∧
      c ≤ s.state.waiting.length ∧ u.state.members .scan = [] ∧
      ∃ k j, finishCollect s = .ok () ⟨k, j⟩ ∧ k.collecting = false := by
  have counted : s.state.waiting.length =
      (s.state.members .aged).length + (s.state.members .scan).length := by
    rw [waiting, List.length_append, Nat.add_comm]
  obtain ⟨c, k, j, ran, -, -, -, -, empty⟩ :=
    traceFrom_apply sound (n := s.state.waiting.length + 1) 0 (by omega)
  obtain ⟨e, l, ended, finished⟩ := finishCollect_apply sound busy
  have spent := traceFrom_waiting sound ran
  exact ⟨c, ⟨k, j⟩, fun n enough => traceFrom_more ran enough, by omega, empty, e, l, ended,
    finished.collecting⟩

end Heap

/-! ### Tracing step by step -/

theorem Effect.waiting (effect : Effect act h answer k) (sound : h.Sound) :
    k.waiting.Perm h.waiting := by
  refine sound.waiting_perm effect.sound (fun i other => ?_) (fun i old => ?_) fun i young =>
    (effect.fresh i).mpr (Or.inl young)
  · rw [effect.collectable]
    exact or_iff_left fun born => other ((effect.fresh i).mpr (Or.inr born))
  · rw [effect.fresh]
    exact or_iff_left fun born => effect.unused born.2 (Or.inl old)

/-- The cell that an operation traces, if it is a trace step that finds one. -/
def Op.traces (s : Logged (Heap L)) : Op L → Option Nat
  | .traceStep =>
    match Heap.traceStep s with
    | .ok true _ => some ((s.state.members .scan).headD 0)
    | .ok false _ | .error _ _ => none
  | .act _ | .age | .beginCollect _ | .sweep | .fullCollect _ => none

/-- Where operations lead, and the cells that they trace on the way. -/
def follow (s : Logged (Heap L)) (ops : List (Op L)) : Logged (Heap L) × List Nat :=
  ops.foldl (fun (t, cells) op => (stateAfter (op.task t), cells ++ (op.traces t).toList)) (s, [])

theorem follow_concat : follow s (ops ++ [op]) = (stateAfter (op.task (follow s ops).1),
    (follow s ops).2 ++ (op.traces (follow s ops).1).toList) := by
  simp [follow]

theorem Runs.follow (run : Runs b deeds t) : (follow b (deeds.map Deed.op)).1 = t := by
  induction run with
  | nil => rfl
  | snoc run op held ih => rw [List.map_append, List.map_singleton, follow_concat, ih]

theorem Op.waiting (op : Op L) (sound : s.state.Sound) (held : ∀ v ∈ op.operands, s.state.Holds v)
    (inCycle : op.InCycle) :
    ((op.traces s).toList ++ (stateAfter (op.task s)).state.waiting).Perm s.state.waiting := by
  cases op with
  | act a =>
    rcases a.outcome sound held with ⟨f, -, refused⟩ | ⟨-, answer, k, j, done, effect⟩
    · simp only [traces, task, refused]
      exact .refl _
    · simp only [traces, task, done]
      exact effect.waiting sound
  | traceStep =>
    by_cases empty : s.state.members .scan = []
    · simp only [traces, task, Task.bind_apply, traceStep_none sound empty]
      exact .refl _
    · obtain ⟨k, found, -⟩ := traceStep_some sound empty
      obtain ⟨i, row, shape, perm⟩ := traceStep_waiting sound found
      simp only [traces, task, Task.bind_apply, found, shape, List.headD_cons]
      exact perm
  | age | beginCollect | sweep | fullCollect => cases inCycle

/-- Within a cycle the cells that wait at its beginning go on waiting until they are traced. -/
theorem Runs.conserved (run : Runs b deeds t) (sound : b.state.Sound)
    (inCycle : ∀ d ∈ deeds, d.op.InCycle) :
    ((Treadmill.follow b (deeds.map Deed.op)).2 ++ t.state.waiting).Perm b.state.waiting := by
  induction run with
  | nil => exact .refl _
  | @snoc u earlier run op held ih =>
    have before := ih fun d on => inCycle d (by simp [on])
    have here := op.waiting (run.sound sound) held (inCycle _ List.mem_concat_self)
    rw [List.map_append, List.map_singleton, follow_concat, run.follow, List.append_assoc]
    exact (here.append_left _).trans before

/-- What is known of a cycle that began with `s`, in which `traced` have been traced when it has come to
`t`: the number of cells that have been traced, those still to be traced and the candidates add up to as
many as were fresh, none is traced twice, and what remains can be traced to the end. -/
structure Paced (s t : Logged (Heap L)) (traced : List Nat) : Prop where
  sum : traced.length + t.state.size .scan + t.state.size .aged = s.state.size .fresh
  once : traced.Nodup
  among : ∀ i ∈ traced, i ∈ s.state.members .fresh
  few : traced.length ≤ s.state.size .fresh
  ends : ∃ c u, (∀ n, s.state.size .fresh < traced.length + n → traceFrom n 0 t = .ok c u) ∧
    traced.length + c ≤ s.state.size .fresh ∧ u.state.members .scan = []
  finishes : ∃ k j, finishCollect t = .ok () ⟨k, j⟩ ∧ k.collecting = false

theorem Runs.paced (sound : s.state.Sound) (began : age s = .ok () b) (run : Runs b deeds t)
    (inCycle : ∀ d ∈ deeds, d.op.InCycle) : Paced s t (Treadmill.follow b (deeds.map Deed.op)).2 := by
  have resting : s.state.collecting = false := by
    cases busy : s.state.collecting with
    | false => rfl
    | true => simp [age_busy busy] at began
  obtain ⟨j, done⟩ := age_apply resting
  obtain rfl : b = ⟨s.state.aged, j⟩ := by simpa [done] using began.symm
  obtain ⟨begun, -⟩ := sound.begun resting
  have sound' := run.sound begun.sound
  have perm := (run.conserved begun.sound inCycle).trans (begun.waiting sound resting)
  have total := perm.length_eq
  rw [List.length_append, sound'.length_waiting, ← sound.threaded.recorded] at total
  have busy : t.state.collecting = true :=
    (run.sameCycle begun.sound inCycle).collecting.trans begun.collecting
  obtain ⟨c, u, ran, spent, empty, finishes⟩ := sound'.traced_out busy
  rw [sound'.length_waiting] at ran spent
  exact
    { sum := by omega
      once := (perm.nodup_iff.mpr (sound.threaded.nodup .fresh)).of_append_left
      among := fun i on => perm.mem_iff.mp (List.mem_append_left _ on)
      few := by omega
      ends := ⟨c, u, fun n enough => ran n (by omega), by omega, empty⟩
      finishes }

/-! ### What is left of a cycle -/

/-- The operations that begin a cycle. -/
def Op.Begins : Op L → Prop
  | .age | .beginCollect _ => True
  | .act _ | .traceStep | .sweep | .fullCollect _ => False

theorem Step.of_begins {a : Option (Ref L)} (step : Step op (.ok a) h k) (begins : op.Begins) :
    h.collecting = false ∧ Begun h k := by
  cases step with
  | aged resting begun | begun resting begun => exact ⟨resting, begun⟩
  | acted | traced | allTraced | swept | nothingToSweep | collected => cases begins

/-- The cycle that began after `c` others is over, or it is under way, and with the `n` cells that count
as spent no more than `m` wait to be traced. -/
def Heap.Within (c n m : Nat) (h : Heap L) : Prop :=
  c < h.cycles ∨ h.cycles = c ∧ h.collecting = true ∧ n + h.waiting.length ≤ m

namespace Heap.Within
variable (within : h.Within c n m)
include within

theorem same (cycle : SameCycle h k) (perm : k.waiting.Perm h.waiting) : k.Within c n m := by
  unfold Within
  rwa [cycle.cycles, cycle.collecting, perm.length_eq]

theorem traced (sound : h.Sound) (found : traceStep ⟨h, j⟩ = .ok true ⟨k, j⟩) : k.Within c (n + 1) m := by
  obtain ⟨i, -, -, perm⟩ := traceStep_waiting (s := ⟨h, j⟩) sound found
  have traced : Traced h k := traceStep_traced (s := ⟨h, j⟩) sound found
  have count := perm.length_eq
  rw [List.length_cons] at count
  rcases within with past | ⟨here, busy, enough⟩
  · exact Or.inl (past.trans_eq traced.cycles.symm)
  · refine Or.inr ⟨traced.cycles.trans here, traced.collecting.trans busy, ?_⟩
    dsimp only at count
    omega

theorem fewer (le : i ≤ n) : h.Within c i m := by
  rcases within with past | ⟨here, busy, enough⟩
  · exact Or.inl past
  · exact Or.inr ⟨here, busy, by omega⟩

end Heap.Within

theorem Op.within (op : Op L) (sound : s.state.Sound) (held : ∀ v ∈ op.operands, s.state.Holds v)
    (within : s.state.Within c n m) : (stateAfter (op.task s)).state.Within c n m := by
  have resting : s.state.collecting = false → c < s.state.cycles := fun idle => by
    rcases within with past | ⟨-, busy, -⟩
    · exact past
    · simp [idle] at busy
  cases op with
  | act a =>
    rcases a.outcome sound held with ⟨f, -, refused⟩ | ⟨-, answer, k, j, done, effect⟩
    · simp only [task, refused]
      exact within
    · simp only [task, done]
      exact within.same effect.toSameCycle (effect.waiting sound)
  | age =>
    cases idle : s.state.collecting with
    | true =>
      simp only [task, Task.bind_apply, age_busy idle]
      exact within
    | false =>
      obtain ⟨j, done⟩ := age_apply idle
      simp only [task, Task.bind_apply, done]
      exact Or.inl ((resting idle).trans_eq (sound.begun idle).1.cycles.symm)
  | beginCollect roots =>
    cases idle : s.state.collecting with
    | true =>
      simp only [task, Task.bind_apply, beginCollect_busy idle]
      exact within
    | false =>
      obtain ⟨k, j, done, begun, -⟩ := beginCollect_apply sound idle fun v (on : v ∈ roots) =>
        (sound.finished idle).regular sound (held v on)
      simp only [task, Task.bind_apply, done]
      exact Or.inl ((resting idle).trans_eq begun.cycles.symm)
  | traceStep =>
    by_cases empty : s.state.members .scan = []
    · simp only [task, Task.bind_apply, traceStep_none sound empty]
      exact within
    · obtain ⟨k, found, -⟩ := traceStep_some sound empty
      simp only [task, Task.bind_apply, found]
      exact (within.traced sound found).fewer (Nat.le_succ n)
  | sweep =>
    cases idle : s.state.collecting with
    | false =>
      simp only [task, Task.bind_apply, sweep_idle idle]
      exact within
    | true =>
      by_cases empty : s.state.members .scan = []
      · obtain ⟨k, j, done, swept⟩ := sweep_apply sound idle empty
        simp only [task, Task.bind_apply, done]
        have le : c ≤ s.state.cycles := within.elim Nat.le_of_lt fun here => here.1.ge
        exact Or.inl ((Nat.lt_succ_of_le le).trans_eq swept.cycles.symm)
      · simp only [task, Task.bind_apply, sweep_untraced sound idle empty]
        exact within
  | fullCollect roots =>
    have held : ∀ v ∈ roots, s.state.Holds v := held
    obtain ⟨k, j, done, later⟩ := fullCollect_cycles sound held
    simp only [task, Task.bind_apply, done]
    have le : c ≤ s.state.cycles := within.elim Nat.le_of_lt fun here => here.1.ge
    exact Or.inl (le.trans_lt later)

end Treadmill

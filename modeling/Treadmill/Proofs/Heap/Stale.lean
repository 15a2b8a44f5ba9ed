import Mathlib
import Treadmill.Proofs.Heap.Count
import Treadmill.Proofs.Heap.Safety

/-!
References to cells that are not in use any more. A cell that was swept keeps the mark it died with,
so in every other cycle it is marked like a candidate. To promote it takes it off the free ring, but
the loss is recorded for the aged ring: the checks of the rings tell whether that has happened
(`Runs.scanCell_counts_iff`).
-/

namespace Treadmill

namespace Heap
variable {L : Layout} {h k : Heap L} {i : Nat} {r : Ring} {rows : Ring → List Nat}
  {s : Logged (Heap L)}

/-- A cell that is marked as a candidate and is none, while there are candidates. -/
def Stale (h : Heap L) (i : Nat) : Prop :=
  h.mark i = h.lastPhase ∧ i ∉ h.members .aged ∧ h.members .aged ≠ []

theorem checkRing_ok_iff (r : Ring) :
    checkRing r s = .ok () s ↔ s.state.countChecked r = .ok (s.state.size r) := by
  have fails : ∀ (t : HeapTask L Unit) (f : Fault), (t >>= fun _ => throw f) s ≠ .ok () s := by
    intro t f done
    obtain ⟨a, u, -, thrown⟩ := Task.bind_eq_ok.mp done
    cases thrown
  unfold checkRing
  rw [Task.bind_apply, Task.view_apply]
  cases counted : s.state.countChecked r with
  | error link => simpa using fails _ _
  | ok found =>
    by_cases same : found = s.state.size r
    · simp [Task.bind_apply, same]
    · simpa [Task.bind_apply, same] using fails _ _

/-- The count of a ring depends on the links alone. -/
theorem Threaded.countChecked_of_cells (t : h.Threaded rows) (same : k.cells = h.cells) (r : Ring) :
    k.countChecked r = .ok (rows r).length := by
  have circle : k.Circle r.head (rows r) := (t.circle r).congr
    (fun i _ => by simp only [next, cellAt, same]) fun i _ => by simp only [prev, cellAt, same]
  have inside : ∀ i ∈ r.head :: rows r, i < k.cells.size := fun i on => same ▸ t.strung.lt_arena on
  have short := t.length_le r
  unfold Heap.countChecked
  rw [countFrom_eq circle (t.head_not_mem r r) inside (by rw [same]; omega), Nat.zero_add]

theorem Threaded.members_of_cells (t : h.Threaded rows) (same : k.cells = h.cells) :
    k.members = rows := by
  rw [← t.members_eq]
  funext r
  have next : k.next = h.next := funext fun i => by simp only [next, cellAt, same]
  have walk : ∀ n i, k.membersFrom r.head n i = h.membersFrom r.head n i := by
    intro n
    induction n with
    | zero => exact fun i => rfl
    | succ n ih => exact fun i => by simp only [membersFrom, next, ih]
  simp only [Heap.members, same, next, walk]

/-! ### Promoting a cell that is no candidate -/

/-- A cell of another ring moves to the scan ring, but the aged ring loses one on record. -/
theorem Tidy.promote_elsewhere (tidy : h.Tidy) (on : i ∈ h.members r) (notAged : r ≠ .aged)
    (notScan : r ≠ .scan) :
    (h.promote i).members = Function.update (Function.update h.members r ((h.members r).erase i))
        .scan (h.members .scan ++ [i]) ∧
      (∀ q, (h.promote i).countChecked q = .ok ((h.promote i).members q).length) ∧
      (h.promote i).size r = h.size r := by
  have threaded := (tidy.threaded.withdraw on).setMark i h.phase
  have inside : firstCell ≤ i ∧ i < ((h.withdraw r i).setMark i h.phase).cells.size := by
    rw [arena_setMark, (relinked_withdraw h r i).arena]
    exact tidy.threaded.inside on
  have moved := threaded.pushBack .scan (tidy.threaded.strung.loose on) inside
  rw [Function.update_of_ne notScan.symm] at moved
  have same : (h.promote i).cells = (((h.withdraw r i).setMark i h.phase).pushBack .scan i).cells := rfl
  have members := moved.members_of_cells same
  refine ⟨members, fun q => ?_, ?_⟩
  · rw [members]
    exact moved.countChecked_of_cells same q
  · have remarked : ∀ k : Heap L, (k.setMark i h.phase).size r = k.size r := fun _ => rfl
    simp only [Heap.promote, Heap.pushBack, Heap.withdraw, size_setSize, size_insertBefore, remarked,
      size_extract, if_neg notScan, if_neg notAged]

/-- A cell that is marked as a candidate but is none is free or in reserve. -/
theorem Stale.ring (stale : h.Stale i) (tidy : h.Tidy) (inside : i < h.cells.size) :
    ∃ r, i ∈ h.members r ∧ r ≠ .aged ∧ r ≠ .scan := by
  obtain ⟨marked, off, -⟩ := stale
  have low : firstCell ≤ i := by
    by_contra head
    have isZ := tidy.heads i (by omega)
    rw [marked] at isZ
    rcases tidy.phases with ⟨-, last⟩ | ⟨-, last⟩ <;> rw [last] at isZ <;> cases isZ
  have notFixed : ¬h.Fixed i := fun fixed => tidy.fixed i fixed marked
  obtain ⟨r, on⟩ : ∃ r, i ∈ h.members r := by
    by_contra none
    exact notFixed ⟨low, inside, fun r on => none ⟨r, on⟩⟩
  refine ⟨r, on, ?_, ?_⟩
  · rintro rfl
    exact off on
  · rintro rfl
    exact tidy.phase_ne ((tidy.scan i on).symm.trans marked)

/-! ### Scanning any cell of the arena -/

theorem scanCell_marked (inside : i < s.state.cells.size)
    (marked : s.state.mark i = s.state.lastPhase) : scanCell i s =
      if 0 < s.state.size .aged then .ok () ⟨s.state.promote i, s.journal⟩
      else .error (.noCandidates i (s.state.mark i)) s := by
  have seen : (s.state.cellAt i).mark = s.state.lastPhase := marked
  unfold scanCell
  simp only [Task.bind_apply, fetch_apply inside, Task.view_apply, seen, if_true]
  by_cases some : 0 < s.state.size .aged
  · simp [some]
  · simp [some, marked]

/-- To scan a stale cell moves it to the scan ring, and the ring that it stood on fails its check. -/
theorem Stale.miscounts (stale : s.state.Stale i) (tidy : s.state.Tidy)
    (inside : i < s.state.cells.size) :
    ∃ r, i ∈ s.state.members r ∧ r ≠ .aged ∧ r ≠ .scan ∧
      i ∈ (stateAfter (scanCell i s)).state.members .scan ∧
      checkRing r (stateAfter (scanCell i s)) ≠ .ok () (stateAfter (scanCell i s)) := by
  obtain ⟨r, on, notAged, notScan⟩ := stale.ring tidy inside
  obtain ⟨members, counted, size⟩ := tidy.promote_elsewhere on notAged notScan
  have recorded := tidy.threaded.recorded
  have some : 0 < s.state.size .aged := by
    rw [recorded]
    exact List.length_pos_of_ne_nil stale.2.2
  have done : stateAfter (scanCell i s) = ⟨s.state.promote i, s.journal⟩ := by
    rw [scanCell_marked inside stale.1, if_pos some]
    rfl
  have shorter := List.length_erase_of_mem on
  have filled := List.length_pos_of_mem on
  rw [done]
  refine ⟨r, on, notAged, notScan, by simp [members], ?_⟩
  rw [Ne, checkRing_ok_iff, counted, members, Function.update_of_ne notScan, Function.update_self, size,
    recorded, Except.ok.injEq]
  omega

/-- Scanning a cell that is not stale moves it only if it is a candidate. -/
theorem Sound.scanCell_done (sound : s.state.Sound) (inside : i < s.state.cells.size)
    (notStale : ¬s.state.Stale i) :
    (stateAfter (scanCell i s)).state.Sound ∧
      ∀ j ∈ (stateAfter (scanCell i s)).state.members .scan,
        j ∈ s.state.members .scan ∨ j ∈ s.state.members .aged := by
  by_cases candidate : s.state.mark i = s.state.lastPhase → i ∈ s.state.members .aged
  · obtain ⟨kept, promoted, -⟩ := sound.toTidy.keep candidate
    rw [scanCell_apply sound.threaded inside candidate]
    exact ⟨promoted.sound sound kept, fun j on => ((promoted.scan j).mp on).imp id And.left⟩
  · push Not at candidate
    have none : s.state.members .aged = [] := by
      by_contra some
      exact notStale ⟨candidate.1, candidate.2, some⟩
    rw [scanCell_marked inside candidate.1, if_neg (by simp [sound.threaded.recorded, none])]
    exact ⟨sound, fun j on => Or.inl on⟩

end Heap

section
variable {L : Layout} {traced : Bool} {journal : Journal} {h : Heap L} {s : Logged (Heap L)} {i : Nat}

/-- What operations on cells in use lead to, and scans of any cells of the arena that are not stale. -/
inductive Strays (traced : Bool) : Heap L → Prop
  | start : Strays traced (.empty traced)
  | op {h : Heap L} (past : Strays traced h) (op : Op L) (held : ∀ v ∈ op.operands, h.Holds v)
      (journal : Journal) : Strays traced (stateAfter (op.task ⟨h, journal⟩)).state
  | scan {h : Heap L} (past : Strays traced h) (i : Nat) (inside : i < h.cells.size)
      (notStale : ¬h.Stale i) (journal : Journal) :
      Strays traced (stateAfter (Heap.scanCell i ⟨h, journal⟩)).state

theorem Strays.sound (past : Strays traced h) : h.Sound := by
  induction past with
  | start => exact Heap.sound_empty traced
  | op past op held journal ih => exact (op.step (s := ⟨_, journal⟩) ih held).sound ih
  | scan past i inside notStale journal ih =>
    exact (ih.scanCell_done (s := ⟨_, journal⟩) inside notStale).1

/-- Scanning a cell moves none but candidates to the scan ring, and leaves every ring in step with its
length on record, as long as no stale cell is scanned; to scan one breaks the check of some ring. -/
theorem Strays.scanCell_counts_iff (past : Strays traced s.state) (inside : i < s.state.cells.size) :
    (∀ j ∈ (stateAfter (Heap.scanCell i s)).state.members .scan,
        j ∈ s.state.members .scan ∨ j ∈ s.state.members .aged) ∧
      (∀ r, Heap.checkRing r (stateAfter (Heap.scanCell i s)) =
        .ok () (stateAfter (Heap.scanCell i s))) ↔
    ¬s.state.Stale i := by
  constructor
  · rintro ⟨-, checked⟩ stale
    obtain ⟨r, -, -, -, -, fails⟩ := stale.miscounts past.sound.toTidy inside
    exact fails (checked r)
  · intro notStale
    obtain ⟨sound, moved⟩ := past.sound.scanCell_done inside notStale
    exact ⟨moved, fun r => Heap.checkRing_apply sound.threaded r⟩

theorem Strays.aged (past : Strays traced h) (resting : h.collecting = false) :
    Strays traced h.aged := by
  obtain ⟨j, began⟩ := Heap.age_apply (s := ⟨h, ⟨none, #[]⟩⟩) resting
  simpa [Op.task, Task.bind_apply, began, stateAfter] using
    past.op .age (by simp [Op.operands]) ⟨none, #[]⟩

/-- A cycle in which nothing is kept. -/
theorem Strays.cycle (past : Strays traced h) (resting : h.collecting = false) :
    Strays traced h.aged.swept := by
  obtain ⟨begun, empty⟩ := past.sound.begun resting
  obtain ⟨k, ended, -⟩ := Heap.sweep_swept (s := ⟨h.aged, ⟨none, #[]⟩⟩) begun.sound rfl empty
  simpa [Op.task, Task.bind_apply, ended, stateAfter] using
    (past.aged resting).op .sweep (by simp [Op.operands]) ⟨none, #[]⟩

end

/-! ### A stale cell -/

/-- A heap with one more pair in it. -/
def grown (h : Heap .twoLow) : Heap .twoLow :=
  (stateAfter ((Op.act (.cons .nil .nil)).task ⟨h, ⟨none, #[]⟩⟩)).state

/-- A heap in which the cell 6 was swept two cycles ago and the cell 7 has just become a candidate. -/
def weathered : Heap .twoLow := (grown (grown (.empty false)).aged.swept.aged.swept).aged

theorem Strays.grown {h : Heap .twoLow} (past : Strays false h) :
    Strays false (grown h) ∧ (Treadmill.grown h).collecting = h.collecting := by
  have held : ∀ v ∈ (Op.act (.cons .nil .nil)).operands, h.Holds v := by
    simp [Op.operands, Act.operands, Heap.Holds]
  have step := (Op.act (.cons .nil .nil)).step (s := ⟨h, ⟨none, #[]⟩⟩) past.sound held
  exact ⟨past.op _ held _, (step.sameCycle trivial).collecting⟩

theorem strays_weathered : Strays false weathered := by
  obtain ⟨first, resting⟩ := Strays.start.grown
  obtain ⟨later, resting⟩ := ((first.cycle resting).cycle rfl).grown
  exact later.aged resting

theorem weathered_marks : 7 < weathered.cells.size ∧ weathered.mark 6 = weathered.lastPhase ∧
    weathered.members .aged = [7] := by
  decide +kernel

/-- The candidate itself may be scanned. -/
theorem scanCell_weathered_candidate :
    7 < weathered.cells.size ∧
      ∀ r, Heap.checkRing r (stateAfter (Heap.scanCell 7 ⟨weathered, ⟨none, #[]⟩⟩)) =
        .ok () (stateAfter (Heap.scanCell 7 ⟨weathered, ⟨none, #[]⟩⟩)) := by
  obtain ⟨inside, -, aged⟩ := weathered_marks
  have notStale : ¬weathered.Stale 7 := fun stale => stale.2.1 (by simp [aged])
  exact ⟨inside, ((strays_weathered.scanCell_counts_iff (s := ⟨weathered, _⟩) inside).mpr notStale).2⟩

/-- A reference to the cell that was swept takes it off a ring, which fails its check from then on. -/
theorem scanCell_weathered_stale :
    Strays false weathered ∧ 6 < weathered.cells.size ∧ ∃ r, 6 ∈ weathered.members r ∧ r ≠ .aged ∧
      r ≠ .scan ∧ 6 ∈ (stateAfter (Heap.scanCell 6 ⟨weathered, ⟨none, #[]⟩⟩)).state.members .scan ∧
      Heap.checkRing r (stateAfter (Heap.scanCell 6 ⟨weathered, ⟨none, #[]⟩⟩)) ≠
        .ok () (stateAfter (Heap.scanCell 6 ⟨weathered, ⟨none, #[]⟩⟩)) := by
  obtain ⟨inside, marked, aged⟩ := weathered_marks
  have stale : weathered.Stale 6 := ⟨marked, by simp [aged], by simp [aged]⟩
  have inside : 6 < weathered.cells.size := by omega
  exact ⟨strays_weathered, inside,
    stale.miscounts (s := ⟨weathered, _⟩) strays_weathered.sound.toTidy inside⟩

end Treadmill

import Mathlib
import Treadmill.Proofs.Heap.Chain
import Treadmill.Proofs.Heap.Safety

/-!
What a collection finds alive. A candidate is scanned only if a root or the cell that is being traced
refers to it, so nothing comes to be fresh but what is in reach of the roots (`Searching`), and once
there is nothing left to scan all of that has (`Searching.found`).
-/

namespace Treadmill.Heap
variable {L : Layout} {h k m : Heap L} {i c n : Nat} {v : Ref L} {refs roots : List (Ref L)}
  {s : Logged (Heap L)} {j l : Journal} {new : Nat → Prop}

/-! ### What is scanned -/

theorem Tidy.keepTarget_scan (tidy : h.Tidy) (regular : h.Regular v)
    (on : i ∈ (h.keepTarget v).members .scan) : i ∈ h.members .scan ∨ v.target? = some i := by
  obtain ⟨-, p, -⟩ := tidy.keepTarget regular
  rcases (p.scan i).mp on with old | ⟨was, left⟩
  · exact Or.inl old
  · exact Or.inr (tidy.keepTarget_left regular was left)

theorem Tidy.keepAll_scan (tidy : h.Tidy) (regular : ∀ v ∈ refs, h.Regular v)
    (on : i ∈ (h.keepAll refs).members .scan) : i ∈ h.members .scan ∨ Named refs i := by
  induction refs generalizing h with
  | nil => exact Or.inl on
  | cons v refs ih =>
    have first := regular v (by simp)
    obtain ⟨kept, p, -⟩ := tidy.keepTarget first
    rcases ih kept (fun w member => p.regular kept (regular w (by simp [member]))) on with old | later
    · rcases tidy.keepTarget_scan first old with old | named
      · exact Or.inl old
      · exact Or.inr ⟨v, by simp, named⟩
    · obtain ⟨w, member, target⟩ := later
      exact Or.inr ⟨w, by simp [member], target⟩

theorem beginCollect_scan (sound : s.state.Sound) (resting : s.state.collecting = false)
    (held : ∀ v ∈ roots, s.state.Holds v) (done : beginCollect roots s = .ok () ⟨k, j⟩)
    (on : i ∈ k.members .scan) : Named roots i := by
  have regular : ∀ v ∈ roots, s.state.aged.Regular v := fun v member =>
    (sound.finished resting).regular sound (held v member)
  obtain ⟨l, began⟩ := beginCollect_eq sound resting regular
  obtain ⟨begun, empty⟩ := sound.begun resting
  obtain ⟨rfl, -⟩ : s.state.aged.keepAll roots = k ∧ l = j := by simpa using began.symm.trans done
  rcases begun.sound.toTidy.keepAll_scan regular on with old | named
  · rw [empty] at old
    cases old
  · exact named

theorem traceStep_traced (sound : s.state.Sound) (done : traceStep s = .ok true ⟨k, j⟩) :
    Traced s.state k := by
  by_cases empty : s.state.members .scan = []
  · simp [traceStep_none sound empty] at done
  · obtain ⟨m, ran, traced⟩ := traceStep_some sound empty
    obtain ⟨rfl, -⟩ : m = k ∧ s.journal = j := by simpa using ran.symm.trans done
    exact traced

/-- The first cell of the scan ring becomes fresh, and of the candidates those are scanned to which it
refers. -/
theorem traceStep_scan (sound : s.state.Sound) (done : traceStep s = .ok true ⟨k, j⟩) :
    ∃ i row, s.state.members .scan = i :: row ∧ k.members .fresh = i :: s.state.members .fresh ∧
      ∀ c ∈ k.members .scan, c ∈ s.state.members .scan ∨ Named (s.state.slots i) c := by
  cases shape : s.state.members .scan with
  | nil => simp [traceStep_none sound shape] at done
  | cons i row =>
    obtain ⟨lifted, regular, a, b, slots, ran⟩ := traceStep_cons sound shape
    obtain ⟨rfl, -⟩ : ((s.state.withdraw .scan i).keepBoth a b).pushFront .fresh i = k ∧ s.journal = j := by
      simpa using ran.symm.trans done
    have first := regular a (by simp [slots])
    have rest := regular b (by simp [slots])
    obtain ⟨tidy, p, -, -⟩ := lifted.tidy.keepBoth first rest
    have loose := p.fixed_iff.mpr ((lifted.fixed i).mpr (Or.inr rfl))
    have members := (tidy.threaded.pushFront .fresh loose.2.2 ⟨loose.1, loose.2.1⟩).members_eq
    refine ⟨i, row, rfl, ?_, fun c on => ?_⟩
    · rw [members, Function.update_self, p.others .fresh (by decide) (by decide),
        lifted.others .fresh (by decide)]
    · rw [members, Function.update_of_ne (by decide)] at on
      have both : c ∈ ((s.state.withdraw .scan i).keepAll [a, b]).members .scan := on
      rcases lifted.tidy.keepAll_scan (by simpa using ⟨first, rest⟩) both with old | named
      · exact Or.inl (shape ▸ (lifted.scan c).mpr (Or.inr old))
      · rw [slots]
        exact Or.inr named

/-- What every trace step keeps holds once all are done. -/
theorem traceFrom_keeps {P : Heap L → Prop} {done : Nat}
    (step : ∀ {h k : Heap L} {j}, h.Sound → P h → traceStep ⟨h, j⟩ = .ok true ⟨k, j⟩ → P k)
    (sound : h.Sound) (start : P h) (ran : traceFrom n done ⟨h, j⟩ = .ok c ⟨k, l⟩) : P k := by
  induction n generalizing h done with
  | zero => cases ran
  | succ n ih =>
    by_cases empty : h.members .scan = []
    · simp only [traceFrom, Task.bind_apply, traceStep_none (s := ⟨h, j⟩) sound empty] at ran
      cases ran
      exact start
    · obtain ⟨m, stepped, traced⟩ := traceStep_some (s := ⟨h, j⟩) sound empty
      simp only [traceFrom, Task.bind_apply, stepped] at ran
      exact ih traced.sound (step sound start stepped) ran

/-! ### What is found -/

/-- The cells that the collector may reclaim and that are in reach of some references. -/
def reached (h : Heap L) (refs : List (Ref L)) : Set Nat :=
  {i | h.Collectable i ∧ h.Reach (Named refs) i}

theorem Sound.reach_inUse (sound : h.Sound) (held : ∀ v ∈ refs, h.Holds v)
    (reach : h.Reach (Named refs) i) : h.InUse i := by
  induction reach with
  | source named =>
    obtain ⟨v, on, target⟩ := named
    exact held v on _ target
  | step _ passing slot target ih => exact sound.held _ (ih.resolve_right passing) _ slot _ target

theorem Sound.reached_finite (sound : h.Sound) : (h.reached refs).Finite :=
  (Set.finite_lt_nat h.cells.size).subset fun _ on => (sound.threaded.inside_of_collectable on.1).2

/-- `k` has come of `h` in a cycle that keeps what is in reach of the references. Other cells than those
of `h` are `new`. -/
structure Searching (h : Heap L) (refs : List (Ref L)) (new : Nat → Prop) (k : Heap L) : Prop where
  sound : k.Sound
  collectable : ∀ i, k.Collectable i ↔ h.Collectable i ∨ new i
  fixed : ∀ i, h.Fixed i → k.Fixed i
  slots : ∀ i, h.Collectable i → k.slots i = h.slots i
  clear : ∀ v ∈ refs, k.Clear v
  young : ∀ i, new i → ¬h.InUse i ∧ i ∈ k.members .fresh
  fresh : ∀ i ∈ k.members .fresh, new i ∨ h.Reach (Named refs) i
  scan : ∀ i ∈ k.members .scan, h.Reach (Named refs) i

namespace Searching

theorem begun (sound : s.state.Sound) (resting : s.state.collecting = false)
    (held : ∀ v ∈ roots, s.state.Holds v) :
    ∃ k j, beginCollect roots s = .ok () ⟨k, j⟩ ∧ Begun s.state k ∧
      Searching s.state roots (fun _ => False) k := by
  obtain ⟨k, j, done, begun, clear⟩ := beginCollect_apply sound resting fun v on =>
    (sound.finished resting).regular sound (held v on)
  exact ⟨k, j, done, begun,
    { sound := begun.sound
      collectable := fun i => ⟨fun on => Or.inl (begun.collectable i on), fun on =>
        on.elim (begun.all i) False.elim⟩
      fixed := fun i => (begun.fixed i).mpr
      slots := fun i _ => begun.slots i
      clear := clear
      young := fun _ => False.elim
      fresh := fun i on => by simp [begun.fresh] at on
      scan := fun i on => .source (beginCollect_scan sound resting held done on) }⟩

variable (searching : Searching h refs new k)
include searching

theorem holds (holds : h.Holds v) : k.Holds v := fun i target =>
  (holds i target).imp (fun on => (searching.collectable i).mpr (Or.inl on)) (searching.fixed i)

/-- A cell that is still to be traced is not new. -/
theorem old (on : i ∈ k.members .scan) : h.Collectable i := by
  rcases (searching.collectable i).mp (Or.inr (Or.inr on)) with old | isNew
  · exact old
  · exact absurd (searching.sound.threaded.apart on (searching.young i isNew).2) (by decide)

theorem traced (done : traceStep ⟨k, j⟩ = .ok true ⟨m, l⟩) :
    Searching h refs new m ∧ Traced k m ∧
      (m.members .fresh).length = (k.members .fresh).length + 1 := by
  obtain ⟨i, row, shape, fresh, scan⟩ := traceStep_scan (s := ⟨k, j⟩) searching.sound done
  have traced : Traced k m := traceStep_traced (s := ⟨k, j⟩) searching.sound done
  have on : i ∈ k.members .scan := by simp [show k.members .scan = i :: row from shape]
  have reach := searching.scan i on
  refine ⟨?_, traced, by simp [fresh]⟩
  exact
    { sound := traced.sound
      collectable := fun i => by
        rw [← searching.collectable]
        exact ⟨traced.collectable i, traced.all i⟩
      fixed := fun i fixed => (traced.fixed i).mpr (searching.fixed i fixed)
      slots := fun i on => (traced.slots i).trans (searching.slots i on)
      clear := fun v on i target danger => searching.clear v on i target (traced.aged i danger)
      young := fun i isNew => ⟨(searching.young i isNew).1, by
        rw [fresh]
        exact List.mem_cons_of_mem _ (searching.young i isNew).2⟩
      fresh := fun c member => by
        rw [fresh] at member
        rcases List.mem_cons.mp member with rfl | member
        · exact Or.inr reach
        · exact searching.fresh c member
      -- what the traced cell refers to is one step further than the cell itself
      scan := fun c member => by
        rcases scan c member with member | ⟨v, slot, target⟩
        · exact searching.scan c member
        · have slot : v ∈ k.slots i := slot
          rw [searching.slots i (searching.old on)] at slot
          exact .step reach (fun fixed => not_fixed_of_collectable (searching.old on) fixed) slot target }

theorem tracedFrom {done : Nat} (ran : traceFrom n done ⟨k, j⟩ = .ok c ⟨m, l⟩) :
    Searching h refs new m :=
  traceFrom_keeps (fun _ searching stepped => (Searching.traced searching stepped).1) searching.sound
    searching ran

theorem reach (sound : h.Sound) (held : ∀ v ∈ refs, h.Holds v) (reach : h.Reach (Named refs) i) :
    k.Reach (Named refs) i := by
  induction reach with
  | source named => exact .source named
  | @step i c v reach passing slot target ih =>
    have old := (sound.reach_inUse held reach).resolve_right passing
    rw [← searching.slots i old] at slot
    exact .step ih (not_fixed_of_collectable ((searching.collectable i).mpr (Or.inl old))) slot target

/-- With nothing left to scan the fresh cells are the new ones and those in reach. -/
theorem found (sound : h.Sound) (held : ∀ v ∈ refs, h.Holds v) (empty : k.members .scan = []) :
    i ∈ k.members .fresh ↔ new i ∨ i ∈ h.reached refs := by
  constructor
  · intro fresh
    rcases searching.fresh i fresh with isNew | reach
    · exact Or.inl isNew
    · exact ((searching.collectable i).mp (Or.inl fresh)).symm.imp id fun old => ⟨old, reach⟩
  · rintro (isNew | ⟨old, reach⟩)
    · exact (searching.young i isNew).2
    · refine (searching.sound.reach_kept empty (fun v on => ⟨searching.holds (held v on),
        searching.clear v on⟩) (searching.reach sound held reach)).resolve_right ?_
      exact not_fixed_of_collectable ((searching.collectable i).mpr (Or.inl old))

end Searching

/-! ### How many cells are traced -/

theorem Threaded.ncard_row (t : h.Threaded h.members) (r : Ring) :
    {i | i ∈ h.members r}.ncard = (h.members r).length := by
  rw [← List.coe_toFinset, Set.ncard_coe_finset, List.toFinset_card_of_nodup (t.nodup r)]

section
variable (searching : Searching h refs (· = c) k) (sound : h.Sound) (held : ∀ v ∈ refs, h.Holds v)
include searching sound

omit searching in
theorem Sound.ncard_insert_reached (unused : ¬h.InUse c) :
    (insert c (h.reached refs)).ncard = (h.reached refs).ncard + 1 :=
  Set.ncard_insert_of_notMem (fun on => unused (Or.inl on.1)) sound.reached_finite

/-- While there is something left to scan, not all cells in reach are fresh. -/
theorem Searching.length_lt (filled : k.members .scan ≠ []) :
    (k.members .fresh).length < (h.reached refs).ncard + 1 := by
  obtain ⟨i, on⟩ := List.exists_mem_of_ne_nil _ filled
  have unused := (searching.young c rfl).1
  rw [← sound.ncard_insert_reached unused, ← searching.sound.threaded.ncard_row]
  refine Set.ncard_lt_ncard ⟨fun b fresh => ?_, fun all => ?_⟩ (sound.reached_finite.insert c)
  · rcases searching.fresh b fresh with rfl | reach
    · exact Set.mem_insert _ _
    · exact ((searching.collectable b).mp (Or.inl fresh)).symm.imp id fun old => ⟨old, reach⟩
  · have fresh : i ∈ k.members .fresh := all (Or.inr ⟨searching.old on, searching.scan i on⟩)
    exact absurd (searching.sound.threaded.apart on fresh) (by decide)

include held

theorem Searching.length_eq (empty : k.members .scan = []) :
    (k.members .fresh).length = (h.reached refs).ncard + 1 := by
  rw [← sound.ncard_insert_reached (searching.young c rfl).1, ← searching.sound.threaded.ncard_row]
  congr 1
  ext i
  exact searching.found sound held empty

end

end Treadmill.Heap

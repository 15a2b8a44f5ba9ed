import Mathlib
import Treadmill.Proofs.Heap.Tidy

/-!
Promotion keeps a heap tidy. What `keepTarget` keeps is no candidate any more, and a reference
whose cell is in use is always regular (`Tidy.regular`).
-/

namespace Treadmill.Heap
variable {L : Layout} {h k : Heap L} {i j : Nat} {v w : Ref L}

theorem Tidy.mem_aged_of_mark (tidy : h.Tidy) (use : h.InUse i) (marked : h.mark i = h.lastPhase) :
    i ∈ h.members .aged := by
  rcases use with (fresh | aged | scan) | fixed
  · exact absurd ((tidy.fresh i fresh).symm.trans marked) tidy.phase_ne
  · exact aged
  · exact absurd ((tidy.scan i scan).symm.trans marked) tidy.phase_ne
  · exact absurd marked (tidy.fixed i fixed)

theorem Tidy.regular (tidy : h.Tidy) (holds : h.Holds v) : h.Regular v := fun i target =>
  ⟨(tidy.threaded.inside_of_inUse (holds i target)).2,
    tidy.mem_aged_of_mark (holds i target)⟩

theorem Promoted.tidy (p : Promoted h k) (tidy : h.Tidy) (threaded : k.Threaded k.members)
    (parked : k.Parked k.members) (scan : ∀ i ∈ k.members .scan, k.mark i = h.phase)
    (aged : ∀ i ∈ k.members .aged, k.mark i = h.lastPhase) : k.Tidy where
  threaded := threaded
  parked := parked
  phases := by rw [p.phase, p.lastPhase]; exact tidy.phases
  fresh i member := by
    rw [p.others .fresh (by decide) (by decide)] at member
    have off : i ∉ h.members .aged :=
      fun other => absurd (tidy.threaded.apart member other) (by decide)
    rw [p.mark i off, p.phase, tidy.fresh i member]
  scan i member := by rw [p.phase, scan i member]
  aged i member := by rw [p.lastPhase, aged i member]
  fixed i fixed := by
    rw [p.fixed_iff] at fixed
    rw [p.mark i (fixed.2.2 .aged), p.lastPhase]
    exact tidy.fixed i fixed
  heads i low := by
    have off : i ∉ h.members .aged := fun member => by
      have := (tidy.threaded.inside member).1
      omega
    rw [p.mark i off, tidy.heads i low]
  idle resting := by
    rw [p.collecting] at resting
    obtain ⟨noAged, noScan⟩ := tidy.idle resting
    have counted := p.count
    rw [noAged, noScan] at counted
    simp only [List.length_nil, Nat.add_eq_zero_iff, List.length_eq_zero_iff, Nat.add_zero] at counted
    exact counted
  nil := by rw [p.slots, tidy.nil]
  room := by rw [p.arena]; exact tidy.room
  held i use v slot := by
    rw [p.collectable_iff] at use
    rw [p.slots] at slot
    exact p.holds_iff.mpr (tidy.held i use v slot)

/-- What the rings hold once a candidate was promoted, and what its promotion leaves as it was. -/
theorem Tidy.promote_rows (tidy : h.Tidy) (onAged : i ∈ h.members .aged) :
    (h.promote i).Threaded (Function.update (Function.update h.members .aged
      ((h.members .aged).erase i)) .scan (h.members .scan ++ [i])) ∧
    (h.promote i).Parked (Function.update (Function.update h.members .aged
      ((h.members .aged).erase i)) .scan (h.members .scan ++ [i])) := by
  have inside := tidy.threaded.inside onAged
  have threaded := (tidy.threaded.withdraw onAged).setMark i h.phase
  have parked := (tidy.threaded.withdraw_parked tidy.parked onAged).setMark i h.phase
  have inside' : firstCell ≤ i ∧ i < ((h.withdraw .aged i).setMark i h.phase).cells.size := by
    rw [arena_setMark, (relinked_withdraw h .aged i).arena]
    exact inside
  have loose := tidy.threaded.strung.loose onAged
  have front := threaded.pushBack .scan loose inside'
  have back := threaded.pushBack_parked parked .scan inside'.2
  rw [Function.update_of_ne (by decide : Ring.scan ≠ .aged)] at front back
  exact ⟨front, back⟩

theorem Tidy.members_promote (tidy : h.Tidy) (onAged : i ∈ h.members .aged) :
    (h.promote i).members = Function.update (Function.update h.members .aged
      ((h.members .aged).erase i)) .scan (h.members .scan ++ [i]) :=
  (tidy.promote_rows onAged).1.members_eq

theorem Tidy.mark_promote (tidy : h.Tidy) (onAged : i ∈ h.members .aged) (j : Nat) :
    (h.promote i).mark j = if j = i then h.phase else h.mark j := by
  have inside : i < (h.withdraw .aged i).cells.size := by
    rw [(relinked_withdraw h .aged i).arena]
    exact (tidy.threaded.inside onAged).2
  unfold Heap.promote
  rw [(relinked_pushBack _ .scan i).mark, mark_setMark inside, (relinked_withdraw h .aged i).mark]

theorem slots_promote (h : Heap L) (i j : Nat) : (h.promote i).slots j = h.slots j := by
  unfold promote
  rw [(relinked_pushBack _ .scan i).slots, slots_setMark, (relinked_withdraw h .aged i).slots]

theorem Tidy.promoted (tidy : h.Tidy) (onAged : i ∈ h.members .aged) :
    Promoted h (h.promote i) := by
  have members := tidy.members_promote onAged
  have aged : (h.promote i).members .aged = (h.members .aged).erase i := by
    rw [members, Function.update_of_ne (by decide), Function.update_self]
  have scan : (h.promote i).members .scan = h.members .scan ++ [i] := by
    rw [members, Function.update_self]
  have others : ∀ r, r ≠ .aged → r ≠ .scan → (h.promote i).members r = h.members r := by
    intro r notAged notScan
    rw [members, Function.update_of_ne notScan, Function.update_of_ne notAged]
  have onlyOnce : ∀ j, j ∈ (h.members .aged).erase i ↔ j ≠ i ∧ j ∈ h.members .aged :=
    fun j => (tidy.threaded.nodup .aged).mem_erase_iff
  have out := relinked_withdraw h .aged i
  have back := relinked_pushBack ((h.withdraw .aged i).setMark i h.phase) .scan i
  exact
    { toSameCycle := (out.toSameCycle.trans (sameCycle_modifyCell _ _ _)).trans back.toSameCycle
      arena := back.arena.trans ((arena_setMark _ _).trans out.arena)
      slots := slots_promote h i
      mark := fun j off => by
        rw [tidy.mark_promote onAged, if_neg (ne_of_mem_of_not_mem onAged off).symm]
      others := others
      aged := fun j member => by
        rw [aged, onlyOnce] at member
        exact member.2
      scan := fun j => by
        rw [aged, scan, onlyOnce, List.mem_append, List.mem_singleton]
        constructor
        · rintro (old | rfl)
          · exact Or.inl old
          · exact Or.inr ⟨onAged, fun both => both.1 rfl⟩
        · rintro (old | ⟨was, gone⟩)
          · exact Or.inl old
          · by_contra other
            push Not at other
            exact gone ⟨other.2, was⟩
      count := by
        have := List.length_pos_of_mem onAged
        rw [aged, scan, List.length_erase_of_mem onAged, List.length_append]
        simp only [List.length_singleton]
        omega }

theorem Tidy.promote (tidy : h.Tidy) (onAged : i ∈ h.members .aged) : (h.promote i).Tidy := by
  obtain ⟨threaded, parked⟩ := tidy.promote_rows onAged
  have promoted := tidy.promoted onAged
  have members := tidy.members_promote onAged
  refine promoted.tidy tidy threaded.members (by rw [members]; exact parked) ?_ ?_
  · intro j member
    rw [tidy.mark_promote onAged]
    split
    · rfl
    · rename_i other
      rcases (promoted.scan j).mp member with old | ⟨was, gone⟩
      · exact tidy.scan j old
      · rw [members, Function.update_of_ne (by decide), Function.update_self,
          (tidy.threaded.nodup .aged).mem_erase_iff] at gone
        exact absurd ⟨other, was⟩ gone
  · intro j member
    have other : j ≠ i := by
      rw [members, Function.update_of_ne (by decide), Function.update_self,
        (tidy.threaded.nodup .aged).mem_erase_iff] at member
      exact member.1
    rw [tidy.mark_promote onAged, if_neg other]
    exact tidy.aged j (promoted.aged j member)

/-! ### Keeping what a reference names -/

theorem Tidy.keep (tidy : h.Tidy) (regular : h.mark i = h.lastPhase → i ∈ h.members .aged) :
    (h.keep i).Tidy ∧ Promoted h (h.keep i) ∧ i ∉ (h.keep i).members .aged := by
  unfold Heap.keep
  split
  · rename_i marked
    have onAged := regular marked
    refine ⟨tidy.promote onAged, tidy.promoted onAged, fun member => ?_⟩
    rw [tidy.members_promote onAged, Function.update_of_ne (by decide), Function.update_self,
      (tidy.threaded.nodup .aged).mem_erase_iff] at member
    exact member.1 rfl
  · rename_i unmarked
    exact ⟨tidy, Promoted.refl h, fun member => unmarked (tidy.aged i member)⟩

theorem keepTarget_some (target : v.target? = some i) : h.keepTarget v = h.keep i := by
  simp [keepTarget, target]

theorem keepTarget_none (target : v.target? = none) : h.keepTarget v = h := by
  simp [keepTarget, target]

theorem Tidy.keepTarget (tidy : h.Tidy) (regular : h.Regular v) :
    (h.keepTarget v).Tidy ∧ Promoted h (h.keepTarget v) ∧ (h.keepTarget v).Clear v := by
  cases target : v.target? with
  | none =>
    rw [keepTarget_none target]
    exact ⟨tidy, Promoted.refl h, fun i named => by simp [target] at named⟩
  | some i =>
    rw [keepTarget_some target]
    obtain ⟨kept, promoted, off⟩ := tidy.keep (regular i target).2
    refine ⟨kept, promoted, fun j named => ?_⟩
    rw [target, Option.some.injEq] at named
    rwa [← named]

/-- Only the cell that is kept is taken from the candidates. -/
theorem Tidy.keepTarget_left (tidy : h.Tidy) (regular : h.Regular v) (was : i ∈ h.members .aged)
    (left : i ∉ (h.keepTarget v).members .aged) : v.target? = some i := by
  cases target : v.target? with
  | none =>
    rw [keepTarget_none target] at left
    exact absurd was left
  | some j =>
    rw [keepTarget_some target, Heap.keep] at left
    split at left
    · rename_i marked
      have onAged := (regular j target).2 marked
      rw [tidy.members_promote onAged, Function.update_of_ne (by decide), Function.update_self,
        (tidy.threaded.nodup .aged).mem_erase_iff] at left
      by_contra other
      exact left ⟨fun same => other (same ▸ rfl), was⟩
    · exact absurd was left

/-- Outside a cycle there is nothing to keep. -/
theorem Tidy.keepTarget_idle (tidy : h.Tidy) (regular : h.Regular v)
    (resting : h.collecting = false) : h.keepTarget v = h := by
  cases target : v.target? with
  | none => exact keepTarget_none target
  | some i =>
    rw [keepTarget_some target, Heap.keep, if_neg]
    intro marked
    have := (regular i target).2 marked
    rw [(tidy.idle resting).1] at this
    exact List.not_mem_nil this

theorem Promoted.regular (p : Promoted h k) (tidy : k.Tidy)
    (regular : h.Regular v) : k.Regular v := by
  intro i target
  obtain ⟨inside, candidate⟩ := regular i target
  refine ⟨by rwa [p.arena], fun marked => ?_⟩
  by_contra off
  by_cases was : i ∈ h.members .aged
  · have onScan := (p.scan i).mpr (Or.inr ⟨was, off⟩)
    exact tidy.phase_ne ((tidy.scan i onScan).symm.trans marked)
  · rw [p.mark i was, p.lastPhase] at marked
    exact was (candidate marked)

end Treadmill.Heap

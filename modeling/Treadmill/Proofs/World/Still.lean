import Mathlib
import Treadmill.Proofs.Heap.Still
import Treadmill.Proofs.World.Settled

/-!
Messages that hold no candidate are sent and delivered without the collector taking notice: every cell
that it may reclaim stays where it is (`Stills`).
-/

namespace Treadmill.World
open Heap (Still Filed)
variable {L : Layout} {α γ β δ : Type} {s u : Logged (World L α γ)} {b : Books L} {care : Care L}
  {i : Nat} {p entry first rest target message actor : Ref L} {e : Entry L} {l : Letter L}
  {mail : List (Letter L)} {held : List (Entry L)} {hand pool : List Nat} {reading : Moment}
  {t : WorldTask L α γ β} {k : β → WorldTask L α γ δ}

theorem guarded_of_effect {h k : Heap L} {act : Act L} {answer : Option (Ref L)} {v : Ref L}
    (effect : Effect act h answer k) (guarded : h.Holds v ∧ h.Clear v) : k.Holds v ∧ k.Clear v :=
  ⟨effect.holds guarded.1, fun i target danger => guarded.2 i target (effect.aged i danger)⟩

/-- Asks of a reference that its cell is in use and no candidate. -/
def wary : Care L where
  Admits h v := h.Holds v ∧ h.Clear v
  Guards h v := h.Holds v ∧ h.Clear v
  Stands _ := True
  holds := And.left
  blank none := ⟨(Heap.plain_of_target? none).holds, Heap.clear_of_target? none⟩
  guards_of_clear admits _ := admits
  admits_filed filed admits := ⟨filed.holds admits.1, filed.clear admits.2⟩
  guards_filed filed guards := ⟨filed.holds guards.1, filed.clear guards.2⟩
  stands_filed _ _ := trivial
  guards_read := guarded_of_effect
  stands_read _ _ _ := trivial

/-- From `s` on, the task leaves the cells that the collector may reclaim where they are. -/
def Stills (t : WorldTask L α γ β) (s : Logged (World L α γ)) : Prop :=
  t.Ends s (fun _ u => Still s.state.heap u.heap) fun _ u => Still s.state.heap u.heap

theorem stills_of (still : Still s.state.heap (stateAfter (t s)).state.heap) : Stills t s := by
  unfold Stills Task.Ends
  cases ran : t s <;> rwa [ran] at still

theorem stills_same (same : (stateAfter (t s)).state.heap = s.state.heap) : Stills t s :=
  stills_of (same ▸ .refl _)

theorem stills_onHeap {t : HeapTask L β}
    (still : Still s.state.heap (stateAfter (t ⟨s.state.heap, s.journal⟩)).state) :
    Stills (onHeap t) s := by
  refine stills_of ?_
  rw [stateAfter_onHeap]
  exact still

theorem Stills.bind (one : Stills t s) (other : ∀ a u, t s = .ok a u → Stills (k a) u) :
    Stills (t >>= k) s := by
  unfold Stills Task.Ends at one ⊢
  rw [Task.bind_apply]
  cases ran : t s with
  | error f u =>
    rw [ran] at one
    exact one
  | ok a u =>
    rw [ran] at one
    refine Task.Ends.mono (other a u ran) (fun _ _ still => one.trans still) fun _ _ still => one.trans still

/-! ### Books of wary worlds -/

/-- Work on the heap that hands out no permanent cell. -/
theorem Kept.passing {w : World L α γ} {care' : Care L} {op : Op L} {o : Except Fault (Option (Ref L))} {k : Heap L}
    (kept : Kept care b w) (step : Step op o w.heap k) (spared : ∀ i ∈ b.own, op.writes ≠ some i)
    (none : Deed.granted ⟨op, o⟩ = []) (guards : ∀ v ∈ b.refs, care'.Guards k v) (stands : care'.Stands k) :
    Kept care' b { w with heap := k } := by
  have worked : Kept care' { b with granted := b.granted ++ Deed.granted ⟨op, o⟩ } { w with heap := k } :=
    kept.worked step spared guards stands
  rwa [none, List.append_nil] at worked

theorem Kept.stepped {w : World L α γ} {op : Op L} {o : Except Fault (Option (Ref L))} {k : Heap L}
    (kept : Kept care b w) (step : Step op o w.heap k) (spared : ∀ i ∈ b.own, op.writes ≠ some i)
    (none : Deed.granted ⟨op, o⟩ = []) (guards : ∀ v ∈ b.refs, k.Holds v ∧ k.Clear v) :
    Kept wary b { w with heap := k } :=
  kept.passing step spared none guards trivial

theorem Kept.retabled {w : World L α γ} (kept : Kept care b w) (table : Array (Behavior α)) :
    Kept care b { w with behaviors := table } :=
  kept.beside ⟨rfl, rfl, rfl, rfl, rfl, rfl, rfl, rfl, rfl, rfl, rfl, rfl⟩

/-! ### Queue cells -/

theorem Kept.clear {w : World L α γ} (kept : Kept care b w) (points : p.Points i) (on : i ∈ b.cells) :
    w.heap.Clear p :=
  Heap.clear_of_points points (kept.stock.fixed on)

theorem Kept.admitsPool {w : World L α γ} (kept : Kept care b w) : wary.Admits w.heap w.pool :=
  ⟨kept.holdsPool, kept.pool.clear fun _ on =>
    kept.stock.fixed (Books.filed_cells (Books.node_filed (Books.pool_node on)))⟩

theorem reuse_stills (kept : Kept care b s.state) (shape : b.pool = i :: pool)
    (admitsFirst : wary.Admits s.state.heap first) (admitsRest : wary.Admits s.state.heap rest) :
    Stills (reuse s.state.pool first rest) s := by
  have leads := kept.pool
  rw [shape] at leads
  have on : i ∈ b.cells := Books.filed_cells (Books.node_filed (Books.pool_node (by simp [shape])))
  obtain ⟨m, k, j, l, wrote, wrote', still⟩ := kept.stock.sound.refill_still
    (s := ⟨s.state.heap, s.journal⟩) leads.1 (kept.stock.fixed on) admitsFirst.1 admitsRest.1
    admitsFirst.2 admitsRest.2
  exact kept.ends_rest leads.1 on (Task.ends_alter (ends_onHeap wrote (ends_onHeap wrote'
    (Task.ends_pure still))))

theorem take_stills (kept : Kept care b s.state) (admitsFirst : wary.Admits s.state.heap first)
    (admitsRest : wary.Admits s.state.heap rest) : Stills (take first rest) s := by
  refine Stills.bind (Task.ends_view ?_) fun _ _ _ => stills_same rfl
  have isNil := kept.pool.isNil
  cases shape : b.pool with
  | nil =>
    rw [shape] at isNil
    rw [isNil]
    exact stills_onHeap (kept.stock.sound.perm_still (s := ⟨s.state.heap, s.journal⟩)
      admitsFirst.1 admitsRest.1 admitsFirst.2 admitsRest.2)
  | cons i pool =>
    rw [shape] at isNil
    rw [isNil]
    exact reuse_stills kept shape admitsFirst admitsRest

theorem recycle_stills (sound : s.state.heap.Sound) (points : p.Points i)
    (fixed : s.state.heap.Fixed i) (admitsPool : wary.Admits s.state.heap s.state.pool) :
    Stills (recycle p) s := by
  have blank := wary.blank (h := s.state.heap) (Ref.target?_nil (L := L))
  obtain ⟨m, k, j, l, wrote, wrote', still⟩ := sound.refill_still (s := ⟨s.state.heap, s.journal⟩)
    points fixed blank.1 admitsPool.1 blank.2 admitsPool.2
  refine ends_onHeap wrote (Task.ends_view (ends_onHeap wrote' (Task.ends_alter (Task.ends_view
    (Task.ends_require (fun _ => ?_) fun _ => still)))))
  exact Task.ends_of_ok (Task.alter_apply _ _) still

/-! ### Messages -/

theorem linkMail_stills (kept : Kept care b s.state) (points : p.Points i) (on : i ∈ b.cells) :
    Stills (linkMail p) s := by
  refine Task.ends_view ?_
  rcases kept.mail.last with ⟨empty, -⟩ | ⟨front, l, shape, points'⟩
  · rw [kept.mail.chain.isNil, empty]
    exact stills_same rfl
  · have inBox : l.node ∈ b.cells :=
      Books.filed_cells (Books.node_filed (Books.letter_node (by simp [shape])))
    obtain ⟨k, j, wrote, -⟩ := kept.stock.sound.setRest_own (s := ⟨s.state.heap, s.journal⟩) points'
      (kept.stock.fixed inBox) (kept.holds points on)
    rw [kept.mail.chain.isNil, show (b.mail.map Letter.node).isEmpty = false by simp [shape]]
    exact Task.ends_view (Task.ends_of_ok (onHeap_ok wrote) (kept.stock.sound.setRest_still
      (s := ⟨s.state.heap, s.journal⟩) points' (kept.stock.fixed inBox) (kept.holds points on)
      (kept.clear points on) wrote))

theorem enqueue_stills (kept : Kept care b s.state) (isHeld : b.held = e :: held)
    (names : entry.Points e.cell) : Stills (enqueue entry) s := by
  have own := Books.head_cells isHeld
  have blank := wary.blank (h := s.state.heap) (Ref.target?_nil (L := L))
  refine (take_stills kept ⟨kept.holds names own, kept.clear names own⟩ blank).bind fun node u ran => ?_
  obtain ⟨n, points, taken⟩ := (take_ends kept (kept.holds names own) blank.1
    fun _ _ => trivial).answered ran
  refine Stills.bind (linkMail_stills taken.kept points (Books.hand_cells (by simp [Books.draw]))) ?_
  exact fun _ _ _ => stills_same rfl

theorem send_stills (kept : Kept wary b s.state) (admitsTarget : wary.Admits s.state.heap target)
    (admitsMessage : wary.Admits s.state.heap message) : Stills (send target message) s := by
  refine Task.ends_require (fun isActor => ?_) fun _ => .refl _
  refine (take_stills kept admitsTarget admitsMessage).bind fun entry u ran => ?_
  obtain ⟨n, points, taken⟩ := (take_ends kept admitsTarget.1 admitsMessage.1
    fun _ _ => trivial).answered ran
  exact enqueue_stills (taken.entry admitsTarget admitsMessage 0) rfl points

/-! ### Deliveries -/

theorem dequeue_stills (kept : Kept care b s.state) (shape : b.mail = l :: mail) :
    Stills dequeue s := by
  have chain := kept.mail.chain
  rw [shape] at chain
  have points : s.state.mailFirst.Points l.node := chain.1
  have own := Books.filed_cells (Books.node_filed (Books.letter_node (b := b) (l := l) (by simp [shape])))
  refine Task.ends_view (kept.ends_first points own (kept.ends_rest points own (Task.ends_alter ?_)))
  refine Stills.bind (recycle_stills kept.stock.sound points (kept.stock.fixed own) kept.admitsPool)
    fun _ u _ => Task.ends_view (Task.ends_require (fun _ => ?_) fun _ => .refl _)
  exact stills_same rfl

theorem behaviorOf_stills (kept : Kept care b s.state) (admits : wary.Admits s.state.heap actor) :
    Stills (behaviorOf actor) s := by
  have read := stills_onHeap (kept.stock.sound.behavior_still
    (s := ⟨s.state.heap, s.journal⟩) admits.1 admits.2)
  refine Stills.bind read fun f u _ => Task.ends_ofExcept (fun n _ => Task.ends_view ?_) fun _ _ => .refl _
  split <;> exact stills_same rfl

theorem openLetter_stills (kept : Kept wary b s.state) (shape : b.mail = l :: mail) :
    Stills openLetter s := by
  have admits : wary.Admits s.state.heap l.entry.note.target :=
    kept.entry (Books.letter_entry (l := l) (by simp [shape])) _ (by simp [Entry.refs])
  refine (dequeue_stills kept shape).bind fun entry u ran => ?_
  obtain ⟨points, still, kept⟩ := (dequeue_ends kept shape).answered ran
  have own := Books.head_cells (b := { b with
    mail, pool := l.node :: b.pool, held := l.entry :: b.held }) rfl
  refine kept.ends_first points own (kept.ends_rest points own ?_)
  rw [kept.entries l.entry (Books.held_entry (by simp))]
  refine Stills.bind (behaviorOf_stills kept (still _ admits)) fun found v _ => Task.ends_view ?_
  refine Stills.bind ?_ fun _ _ _ => stills_same rfl
  cases traced : v.state.traced with
  | false => exact stills_same rfl
  | true => exact (announce_ends _ traced).mono (fun _ _ same => same ▸ .refl _) fun _ _ failed =>
      failed.2.1 ▸ .refl _

theorem closeLetter_stills {d : Opened L α} (kept : Kept care b s.state) (isHeld : b.held = e :: held)
    (points : d.entry.Points e.cell) : Stills (closeLetter d) s := by
  refine Task.ends_alter ?_
  refine Stills.bind (s := ⟨{ s.state with inDelivery := d.outer }, s.journal⟩)
    (recycle_stills kept.stock.sound points (kept.stock.fixed (Books.head_cells isHeld))
      kept.admitsPool) fun _ _ _ => stills_same rfl

theorem Kept.clocked {w : World L α γ} (kept : Kept care b w) (reading : Moment) :
    Kept care { b with now := reading } { w with now := reading } where
  toQueued := { kept.toQueued with clock := rfl }
  stock := kept.stock
  used := kept.used
  most := kept.most

/-- A clock that shows a time before every timer is due is all that a tick changes. -/
theorem tick_idle (kept : Kept care b s.state) (early : ∀ a ∈ b.timers, reading < a.due) :
    tick reading s = .ok () ⟨{ s.state with now := reading }, s.journal⟩ := by
  have moved := kept.clocked reading
  have isNil := kept.timers.chain.isNil
  have chain := kept.timers.chain
  cases shape : b.timers with
  | nil =>
    rw [shape] at isNil
    simp [tick, fireDue, Task.bind_apply, isNil]
  | cons a timers =>
    rw [shape] at isNil chain
    have read := dueTime_apply (s := ⟨{ s.state with now := reading }, s.journal⟩) moved (a := a)
      (by simp [shape]) chain.1
    have notDue := early a (by simp [shape])
    simp [tick, fireDue, Task.bind_apply, isNil, read, notDue]

end Treadmill.World

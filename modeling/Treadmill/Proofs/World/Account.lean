import Mathlib
import Treadmill.Proofs.Heap.Count
import Treadmill.Proofs.World.Conduct

/-!
The account of a world's permanent cells (`Course.account`). Each is in the pool, in a queue, in the
list of roots, under delivery, abandoned, or was handed out to the user; none is in two places. So it is
after a delivery and after a run (`Dialog.run_accounts`).
-/

namespace Treadmill

theorem Heap.Threaded.fixedCells_length {L : Layout} {h : Heap L} (t : h.Threaded h.members)
    {cells : List Nat} (distinct : cells.Nodup) (own : ∀ i, h.Fixed i ↔ i ∈ cells) :
    h.fixedCells.length = cells.length := by
  refine List.Perm.length_eq ((List.perm_ext_iff_of_nodup ?_ distinct).mpr fun i => ?_)
  · exact List.Nodup.filter _ List.nodup_range'
  · rw [t.mem_fixedCells, own]

namespace World
variable {L : Layout} {α γ : Type} {w : World L α γ} {b : Books L} {care : Care L} {r : Record L}
  {opened : Option (Opened L α)} {p : Point L α γ} {m : Move L α γ} {trace : List (Moved L α γ)}
  {now : Moment} {capacity : Nat} {traced : Bool} {guest : γ} {journal : Journal}

/-- Where the permanent cells of a world are, given the record of what has been done in it. -/
structure Account (r : Record L) (w : World L α γ) : Prop where
  used : w.poolUsed = 2 * w.pending + 4 * w.delayed + r.outside
  most : w.poolMax = w.poolUsed + w.poolCells.length
  /-- The chain of free cells comes to an end. -/
  chain : w.heap.Leads w.pool w.poolCells .nil
  apart : (w.poolCells ++ w.mailCells ++ w.timerCells ++ w.rootCells).Nodup
  permanent : ∀ i ∈ w.poolCells ++ w.mailCells ++ w.timerCells ++ w.rootCells, w.heap.Fixed i
  fixed : ∀ journal, ∃ usage, Heap.usage ⟨w.heap, journal⟩ = .ok usage ⟨w.heap, journal⟩ ∧
    usage.fixed = w.poolMax + r.registered.length + r.granted.length

theorem Settled.keeps_account (settled : Settled care r b w opened) : Account r w := by
  have kept := settled.kept
  have most := kept.most
  have used := kept.used
  have outside := settled.outside
  have registered := congrArg List.length settled.registered
  rw [List.length_map] at registered
  have once := List.nodup_iff_count_le_one.mp kept.stock.distinct
  simp only [Books.cells, Books.own, Books.filed, Books.nodes, Books.entries, List.count_append,
    List.map_append, List.map_map] at once
  simp only [Books.taken, settled.hand, List.length_nil] at used
  refine
    { used := by
        rw [used, kept.pending, kept.delayed]
        omega
      most := by rw [most, kept.poolCells]
      chain := kept.poolCells ▸ kept.pool
      apart := ?_
      permanent := ?_
      fixed := fun journal => ⟨_, Heap.usage_apply (s := ⟨w.heap, journal⟩)
        kept.stock.sound.threaded, ?_⟩ }
  · rw [kept.poolCells, kept.mailCells, kept.timerCells, kept.rootCells]
    refine List.nodup_iff_count_le_one.mpr fun i => ?_
    have := once i
    simp only [List.count_append, Function.comp_def] at this ⊢
    omega
  · intro i on
    rw [kept.poolCells, kept.mailCells, kept.timerCells, kept.rootCells] at on
    refine kept.stock.fixed (Books.filed_cells ?_)
    simp only [Books.filed, Books.nodes, Books.entries, List.map_append, List.map_map,
      List.mem_append, Function.comp_def] at on ⊢
    tauto
  · dsimp only
    rw [kept.stock.sound.threaded.fixedCells_length kept.stock.distinct kept.stock.own, ← registered,
      ← settled.granted]
    simp only [Books.cells, Books.own, Books.filed, Books.nodes, Books.entries, settled.hand,
      List.length_append, List.length_map, List.length_nil]
    omega

/-- Whether a move does nothing but send or deliver messages. -/
def Move.isMessaging : Move L α γ → Bool
  | call (.send ..) | call (.sendAfter ..) | call (.tick _) | opens | closes | drops => true
  | call (.heap _) | call (.function _) | call (.aside ..) | call (.addRoot _) | call .gatherRoots =>
    false

theorem Record.after_messaging (r : Record L) {d : Moved L α γ} (messaging : d.move.isMessaging = true) :
    (r.after d).registered = r.registered ∧ (r.after d).granted = r.granted := by
  rw [Record.granted_after]
  obtain ⟨m, o⟩ := d
  cases m with
  | call c =>
    cases c with
    | heap | function | aside | addRoot | gatherRoots => cases messaging
    | sendAfter delay target message =>
      simp only [after, afterDelay, Moved.granted, List.append_nil, and_true]
      split
      · split <;> rfl
      · rfl
      · rfl
    | send | tick => cases o <;> simp [after, Moved.granted]
  | opens | closes | drops => cases o <;> simp [after, Moved.granted]

section
variable [DecidableEq α]

/-- The account after the trace `trace`, which has led to `p`. -/
structure Accounted (now : Moment) (trace : List (Moved L α γ)) (p : Point L α γ) : Prop where
  account : Account (Record.of now trace) p.world
  /-- No count was ever to be lowered below zero. -/
  sober : ∀ d ∈ trace, d.outcome ≠ .error .subtractOverflow
  /-- Messages take a new permanent cell only as the mark of the most cells ever used goes up. -/
  messaging : ∀ m : Move L α γ, m.isMessaging = true → m.Fits p → Proper trace p m →
    (p.moved m).outcome ≠ .error .arenaExhausted → ∀ journal, ∃ before after,
      Heap.usage ⟨p.world.heap, journal⟩ = .ok before ⟨p.world.heap, journal⟩ ∧
      Heap.usage ⟨(p.after m).world.heap, journal⟩ = .ok after ⟨(p.after m).world.heap, journal⟩ ∧
      after.fixed + p.world.poolMax = before.fixed + (p.after m).world.poolMax

theorem Course.sober (course : Course Proper (Point.new capacity traced now guest journal) trace p) :
    ∀ d ∈ trace, d.outcome ≠ .error .subtractOverflow := by
  induction course with
  | start => simp
  | move course m fits allowed enough ih =>
    obtain ⟨b, settled⟩ := course.settled
    obtain ⟨verdict, -⟩ := (settled.proper fits allowed).enough enough
    intro d on
    rcases List.mem_append.mp on with old | new
    · exact ih d old
    · obtain rfl := List.mem_singleton.mp new
      exact fun failed => nomatch verdict.light failed

/-- The account is right after every move, also after a delivery that was dropped. -/
theorem Course.account
    (course : Course Proper (Point.new capacity traced now guest journal) trace p) :
    Accounted now trace p := by
  obtain ⟨b, settled⟩ := course.settled
  have account := settled.keeps_account
  refine { account, sober := course.sober, messaging := fun m messaging fits proper enough journal => ?_ }
  obtain ⟨-, b', settled'⟩ := (settled.proper fits proper).enough enough
  obtain ⟨before, isBefore, fixed⟩ := account.fixed journal
  obtain ⟨after, isAfter, fixed'⟩ := settled'.keeps_account.fixed journal
  obtain ⟨registered, granted⟩ := Record.after_messaging (d := p.moved m) (Record.of now trace) messaging
  have registered : ((Record.of now trace).after ⟨m, (p.moved m).outcome⟩).registered = _ := registered
  have granted : ((Record.of now trace).after ⟨m, (p.moved m).outcome⟩).granted = _ := granted
  refine ⟨before, after, isBefore, isAfter, ?_⟩
  rw [fixed, fixed', registered, granted]
  omega

variable {β : Type} {t : WorldTask L α γ β} {host : Host L α γ} {clock : Nat → γ → Moment} {budget : Int}

/-- What goes on along a dialog leaves the account right, unless the arena is exhausted. -/
theorem Continues.accounts
    (continues : Continues (Dialog modest (Point.new capacity traced now guest journal)) trace p t) :
    outcomeOf (t p.logged) = .error .arenaExhausted ∨ ∃ more,
      Account (Record.of now (trace ++ more)) (stateAfter (t p.logged)).state ∧
        ∀ d ∈ trace ++ more, d.outcome ≠ .error .subtractOverflow := by
  refine Or.imp_right ?_ continues
  rintro ⟨more, dialog⟩
  have course := (dialog.course within_modest).proper
  obtain ⟨b, settled⟩ := course.settled
  exact ⟨more, settled.keeps_account, course.sober⟩

/-- A delivery leaves the account right, also one that its behavior gives up. -/
theorem Dialog.dispatch_accounts
    (dialog : Dialog modest (Point.new capacity traced now guest journal) trace p) (idle : p.opened = none)
    (keeps : Keeps (Dialog modest (Point.new capacity traced now guest journal)) host) :
    outcomeOf (dispatch host p.logged) = .error .arenaExhausted ∨ ∃ more,
      Account (Record.of now (trace ++ more)) (stateAfter (dispatch host p.logged)).state ∧
        ∀ d ∈ trace ++ more, d.outcome ≠ .error .subtractOverflow :=
  (Dialog.runs.dispatch dialog idle (within_modest.behaves keeps)).accounts

theorem Dialog.run_accounts
    (dialog : Dialog modest (Point.new capacity traced now guest journal) trace p) (idle : p.opened = none)
    (keeps : Keeps (Dialog modest (Point.new capacity traced now guest journal)) host) :
    outcomeOf (run host clock budget p.logged) = .error .arenaExhausted ∨ ∃ more,
      Account (Record.of now (trace ++ more)) (stateAfter (run host clock budget p.logged)).state ∧
        ∀ d ∈ trace ++ more, d.outcome ≠ .error .subtractOverflow :=
  (Dialog.runs.run dialog idle (within_modest.behaves keeps) clock budget).accounts

end

/-- One message waits in the mailbox and two until they are due, and one entry was left behind. -/
theorem errand_account : ∃ trace p, Course Proper quiet trace p ∧ p.world.poolUsed = 2 + 2 * 4 + 1 ∧
    Accounted .zero trace p := by
  obtain ⟨trace, p, course, -, -, used⟩ := errand
  exact ⟨trace, p, course, used, course.account⟩

end World

end Treadmill

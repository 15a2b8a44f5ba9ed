import Mathlib
import Treadmill.Proofs.Actor.Story

/-!
A ticker that is started in a new world (`startTicker_finishes`): it knows its counter, and the one message there
is wakes it up.
-/

namespace Treadmill.World
open Heap (plain_of_collectable plain_nil plain_number)
open Actor (Plot)
variable {L : Layout} {α γ : Type} {k : Cast L} {c c' : Chart L} {b : Books L} {s u : Logged (World L α γ)}
  {capacity : Nat} {traced : Bool} {now : Moment} {guest : γ} {threshold : Option Level} {count : Int} {r : Ref L}

/-- What a world with no cells holds. -/
def Chart.empty (L : Layout) : Chart L := ⟨fun _ => (.nil, .nil), fun _ => .other⟩

theorem charted_empty (capacity : Nat) (traced : Bool) (now : Moment) (guest : γ) :
    Charted (Chart.empty L) ⟨[], [], [], [], [], [], [], [], .nil, now⟩
      (World.empty capacity traced now guest : World L α γ) where
  kept := (settled_empty (fun i on => absurd on (Heap.not_collectable_empty traced i)) capacity now guest).kept
  names := ⟨[], Symbols.filled_empty, by simp⟩

variable [DecidableEq α]

/-- An actor is made that knows one thing under a name. -/
theorem hireKnowing_ends {b : Books L} {name : String} {key : UInt32} {v : Ref L} (charted : Charted c b s.state)
    (plain : s.state.heap.Plain v) (found : s.state.symbols.find? name = some key) (role : Role)
    (known : Behavior α) :
    (do
      let state ← Data.mapPut .nil (.atom key) v
      createActor known state : WorldTask L α γ (Ref L)).Ends s
      (fun a u => ∃ state i c', Hired c b s.state role known state a i c' u ∧ Binds c' u state [(name, v)])
      NoRoom := by
  refine (put_ends charted .nil plain_nil plain found .other).bind ?_
  rintro state s₁ ⟨i, j, c₁, bound⟩
  refine (hire_ends bound.charted bound.plain role known).mono ?_ fun _ _ => id
  rintro a u ⟨n, c', hired⟩
  have binds : Binds c₁ s₁.state state [(name, v)] := ⟨_, bound.spelled, by simp [bound.role]⟩
  refine ⟨state, n, c',
    { hired with
      later := bound.later.trans hired.later
      new := fun on => hired.new (bound.later.collectable n on) }, ?_⟩
  exact binds.later bound.charted bound.plain hired.later (Set.notMem_empty _)

/-- The one for the ticker, or the one for its counter. -/
def between {β : Type} (ticker counter : β) : Part → β
  | .ticker => ticker
  | .counter => counter

omit [DecidableEq α] in
/-- Two actors that serve in a world can be cast. -/
theorem Serving.cast {w : World L α γ} {ticker counter held held' : Ref L} {i j : Nat} {known known' : Behavior α}
    (first : Serving c w ticker i known held) (second : Serving c w counter j known' held') (message : Ref L) :
    ∃ k : Cast L, k.actor .ticker = ticker ∧ k.cell .ticker = i ∧ k.actor .counter = counter ∧ k.cell .counter = j ∧
      k.message = message := by
  refine ⟨⟨between ticker counter, between i j, fun x => ?_, fun x => ?_, message⟩, rfl, rfl, rfl, rfl, rfl⟩
  · cases x with
    | ticker => exact first.isActor
    | counter => exact second.isActor
  · cases x with
    | ticker => exact first.target
    | counter => exact second.target

/-- Whatever else there is, the new ticker knows its counter, and a message is to wake it up. -/
theorem startTicker_ends (isNumber : Ref.number count = .ok r) (charted : Charted c b s.state) (resting : b.Resting)
    (idle : b.mail = [] ∧ b.timers = []) : (Actor.startTicker count).Ends s
      (fun ticker u => ∃ k c' b', k.actor .ticker = ticker ∧ Charted c' b' u ∧
        Staged k (fun _ => True) (Plot.start count b.now.s) c' b' u ∧ b'.Resting ∧ b'.now = b.now)
      (Stuck b.now) := by
  have room : ∀ {β : Type} {t : WorldTask L α γ β} {s : Logged (World L α γ)} {done : β → World L α γ → Prop},
      t.Ends s done NoRoom → t.Ends s done (Stuck b.now) := fun ends => ends.mono (fun _ _ => id) fun _ _ => Or.inl
  refine (atom_ends charted (by decide)).bind ?_
  rintro _ s₁ ⟨countKey, rfl, count₁, charted₁, later₁⟩
  refine (atom_ends charted₁ (by decide)).bind ?_
  rintro _ s₂ ⟨secKey, rfl, sec₂, charted₂, later₂⟩
  refine (atom_ends charted₂ (by decide)).bind ?_
  rintro _ s₃ ⟨timeKey, rfl, time₃, charted₃, later₃⟩
  refine Task.ends_ofExcept (fun number found => ?_) fun f refused => by simp [isNumber] at refused
  obtain rfl : r = number := by simpa [isNumber] using found
  have count₃ := (later₂.symbols.trans later₃.symbols) _ _ count₁
  refine ends_paired ((room (hireKnowing_ends charted₃ (plain_number isNumber) count₃ (.plays .counter)
    .eachSecond)).bind ?_)
  rintro counter s₄ ⟨_, j, c₄, counts, binds₄⟩
  have on₄ : s₄.state.heap.Plain counter := plain_of_collectable counts.serving.target counts.old
  have sec₄ := (later₃.symbols.trans counts.later.symbols) _ _ sec₂
  refine ends_paired ((room (hireKnowing_ends counts.charted on₄ sec₄ (.plays .ticker) .ticker)).bind ?_)
  rintro ticker s₅ ⟨_, i, c₅, ticks, binds₅⟩
  refine Task.ends_view ?_
  rw [ticks.charted.kept.clock]
  refine Task.ends_ofExcept (fun shown isNow => ?_) fun f refused => stuck_of_number refused
  have time₅ := (counts.later.symbols.trans ticks.later.symbols) _ _ time₃
  refine (room (put_ends ticks.charted .nil plain_nil (plain_number isNow) time₅ .clock)).bind ?_
  rintro message s₆ ⟨m, n, c₆, bound⟩
  have plain : s₆.state.heap.Plain ticker :=
    plain_of_collectable ticks.serving.target (bound.later.collectable i ticks.old)
  refine (room (post_ends bound.charted ticks.serving.isActor plain bound.plain)).bind ?_
  rintro - u ⟨l, pool, note, charted', later'⟩
  have since₅ := bound.later.trans later'
  have since₄ := ticks.later.trans since₅
  have serving := ticks.serving.later since₅ ticks.old (Set.notMem_empty _)
  have serving' := counts.serving.later since₄ counts.old (Set.notMem_empty _)
  obtain ⟨k, rfl, rfl, rfl, rfl, rfl⟩ := serving.cast serving' message
  -- What they know stands where it was put.
  have knows := binds₅.later ticks.charted (ticks.serving.plain ticks.charted ticks.old) since₅ (Set.notMem_empty _)
  have plainC := counts.serving.plain counts.charted counts.old
  have remains := binds₄.later counts.charted plainC since₄ (Set.notMem_empty _)
  have cells := (bound.spelled.plain bound.charted.kept.stock.stands bound.plain).1
  have spelled := bound.spelled.congr (fun q on => later'.holds q (cells q on) (Set.notMem_empty _)) later'.symbols
  have roles : c₆.role m = .other ∧ c₆.role n = .clock := bound.role
  refine Task.ends_pure ⟨k, c₆, _, rfl, charted', ⟨?_, ?_, fun x _ => ?_, fun _ _ => trivial⟩,
    ⟨resting.held, resting.hand, resting.lost, resting.current⟩, rfl⟩
  · rw [idle.1]
    refine .cons ?_ .nil
    rw [note]
    exact .tick trivial
  · rw [idle.2]
    exact .nil
  · cases x with
    | ticker =>
      have ticking : Ticking k c₆ u.state .none b.now.s true := by
        refine .awake serving ?_ .none spelled isNow roles
        exact knows
      exact ⟨since₅.collectable _ ticks.old, (since₅.role _ ticks.old).trans ticks.role, ticking⟩
    | counter =>
      exact ⟨since₄.collectable _ counts.old, (since₄.role _ counts.old).trans counts.role,
        Counting.left serving' isNumber remains⟩

/-- The ticker that has been started knows its counter, which is to count. -/
structure Started (ticker counter : Ref L) (s : Logged (World L α γ)) : Prop where
  ticks : s.state.behaviorAt? ticker = some .ticker
  knows : ∃ held, s.state.stateAt? ticker = some held ∧ outcomeOf (Actor.lookup held "sec" s) = .ok counter
  counts : s.state.behaviorAt? counter = some .eachSecond

omit [DecidableEq α] in
theorem Staged.started (staged : Staged k (fun _ => True) (Plot.start count now.s) c b s.state)
    (charted : Charted c b s.state) : Started (k.actor .ticker) (k.actor .counter) s := by
  obtain ⟨on, -⟩ := staged.own .ticker trivial
  obtain ⟨on', -⟩ := staged.own .counter trivial
  obtain @⟨held, _, time, _, _, serving, knows, remembers⟩ := staged.awake rfl
  obtain ⟨serving', -⟩ := staged.counts trivial rfl
  obtain ⟨behaves, holds⟩ := serving.visible charted on
  obtain ⟨cells, spelled, -⟩ := knows
  refine ⟨behaves, ⟨held, holds, ?_⟩, (serving'.visible charted on').1⟩
  cases remembers
  have looks : (Actor.lookup held "sec").Ends s _ fun _ _ => False :=
    lookup_ends charted spelled (serving.plain charted on) (by decide)
  cases ran : Actor.lookup held "sec" s with
  | ok v u =>
    obtain ⟨found, -⟩ := looks.of_ok ran
    exact congrArg Except.ok found
  | error f u => exact (looks.of_error ran).elim

/-- A ticker is started in a new world, and no line has been printed. -/
theorem startTicker_finishes (isNumber : Ref.number count = .ok r) : (Actor.startTicker count).Finishes
    (World.create capacity traced now guest threshold : Logged (World L α γ))
    (fun ticker s => ∃ k c b, k.actor .ticker = ticker ∧ Started ticker (k.actor .counter) s ∧
      Ready k (fun _ => True) count (Plot.start count now.s) c b s)
    fun f s => Stuck now f s.state ∧ s.journal.lines = [] := by
  have none : (World.create capacity traced now guest threshold : Logged (World L α γ)).journal.lines = [] := by
    rw [World.create, Journal.lines_add]
    rfl
  have begun := startTicker_ends isNumber (charted_empty (L := L) (α := α) capacity traced now guest)
    (s := World.create capacity traced now guest threshold) ⟨rfl, rfl, rfl, rfl⟩ ⟨rfl, rfl⟩
  refine begun.quietly.mono ?_ fun f u failed => ⟨failed.1, failed.2.trans none⟩
  rintro _ s ⟨⟨k, c, b, rfl, charted, staged, resting, same⟩, lines⟩
  exact ⟨k, c, b, rfl, staged.started charted,
    ⟨charted, staged, same ▸ Plot.sane_start count now.s, resting, lines.trans none⟩⟩

end Treadmill.World

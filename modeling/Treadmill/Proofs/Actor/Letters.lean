import Mathlib
import Treadmill.Proofs.Actor.Staging

/-!
How the ticker and its counter read what they remember and what they are told, and how they write messages: a
name is looked up as what it was bound to (`Consulted.lookup`), and whatever is sent is posted (`orderLine_ends`).
-/

namespace Treadmill.World
open Heap (plain_of_collectable plain_nil plain_atom plain_number)
variable {L : Layout} {α γ : Type} {W : Set Role} {k : Cast L} {there : Part → Prop} {c c' : Chart L} {b : Books L}
  {w u : World L α γ} {s : Logged (World L α γ)} {r a v held : Ref L}
  {entries : List (String × Ref L)} {cells : List Nat} {i : Nat} {known : Behavior α} {name : String}
  {failed : Fault → World L α γ → Prop}

/-! ### Reading -/

/-- Nothing has been written since `w`. -/
structure Consulted (c : Chart L) (b : Books L) (w u : World L α γ) : Prop where
  charted : Charted c b u
  later : Later ∅ c w c u

namespace Consulted

theorem start (charted : Charted c b w) : Consulted c b w w := ⟨charted, .refl ∅ c w⟩

variable (since : Consulted c b w s.state)
include since

/-- A name is looked up as what it was bound to then. -/
theorem lookup (spelled : Spelled w.symbols c.holds r cells entries) (plain : w.heap.Plain r)
    (known : name ∈ vocabulary) : (Actor.lookup r name).Ends s
      (fun v u => v = (entries.lookup name).getD .nil ∧ Consulted c b w u) failed := by
  have spelled := spelled.congr (fun _ _ => rfl) since.later.symbols
  refine (lookup_ends since.charted spelled (since.later.plain plain) known).mono ?_ fun _ _ => id
  rintro v u ⟨found, charted, later⟩
  exact ⟨found, charted, since.later.trans later⟩

/-- The state of an actor is what it was then. -/
theorem state (serving : Serving c w a i known held) (on : w.heap.Collectable i) :
    (onHeap (Heap.state a)).Ends s (fun r u => r = held ∧ Consulted c b w u) failed := by
  obtain ⟨f, holds, -⟩ := serving.holds
  refine (state_ends since.charted serving.isActor serving.target (since.later.collectable i on)).mono ?_
    fun _ _ => id
  rintro r u ⟨found, charted, later⟩
  exact ⟨by rw [found, holds], charted, since.later.trans later⟩

end Consulted

theorem kind_of_number {m : Int} (isNumber : Ref.number m = .ok r) : r.kind = .number :=
  ((Ref.codec L).told (v := .number m) isNumber).2

/-- The reference that is remembered tells the number. -/
theorem remembers_iff {last : Option Int} {time : Option (Ref L)} {m : Int}
    (remembers : Option.Rel (fun l r => Ref.number l = .ok r) last time) (shows : Ref.number m = .ok r) :
    (time = some r ↔ last = some m) ∧ (time.getD .nil = r ↔ last = some m) := by
  have number := Ref.of_number shows
  cases remembers with
  | none =>
    refine ⟨by simp, ?_⟩
    simp only [Option.getD_none, reduceCtorEq, iff_false]
    rintro rfl
    simpa using kind_of_number shows
  | @some l r' isNumber =>
    have same : r' = r ↔ l = m := by
      constructor
      · rintro rfl
        simpa [(Ref.of_number isNumber).2] using number.2
      · rintro rfl
        simpa [isNumber] using shows
    simp [same]

/-- Numbers are printed in decimal. -/
theorem showRef_number {m : Int} (isNumber : Ref.number m = .ok r) : w.showRef r = .whole (toString m) := by
  have value := Ref.value_of_ofValue (v := .number m) isNumber
  simp [showRef, Data.showRef, Data.showFrom, Ref.isCons, Ref.isPair, kind_of_number isNumber, value, Data.leafText]

/-- The text of a message that binds `text` to a number is that number. -/
theorem textOf_ends {m : Int} (charted : Charted c b s.state) (isNumber : Ref.number m = .ok r)
    (binds : Binds c s.state v [("text", r)]) (plain : s.state.heap.Plain v) :
    (Actor.textOf ⟨a, v⟩).Ends s (fun text u => text = toString m ∧ Consulted c b s.state u) failed := by
  obtain ⟨cells, spelled, -⟩ := binds
  refine ((Consulted.start charted).lookup spelled plain (by decide)).bind ?_
  rintro text u ⟨found, since⟩
  obtain rfl : text = r := found
  have value := Ref.value_of_ofValue (v := .number m) isNumber
  have noName : u.state.atomName? text = none := by simp [atomName?, value]
  refine Task.ends_view ?_
  rw [noName]
  refine Task.ends_view (Task.ends_ofExcept_last (fun text shown => ⟨?_, since⟩) fun f failed => ?_)
  · rw [showRef_number isNumber] at shown
    exact (Except.ok.inj shown).symm
  · rw [showRef_number isNumber] at failed
    cases failed

/-- The ticker goes by what it remembers and what it is told. -/
theorem ticker_reads [DecidableEq α] {message : Ref L} {told : List (String × Ref L)} {cells' : List Nat}
    {done : Unit → World L α γ → Prop} (charted : Charted c b s.state) (serving : Serving c s.state a i known held)
    (on : s.state.heap.Collectable i) (remembers : Spelled s.state.symbols c.holds held cells entries)
    (tells : Spelled s.state.symbols c.holds message cells' told) (plain : s.state.heap.Plain message)
    (rest : ∀ u : Logged (World L α γ), Consulted c b s.state u.state →
      (if ((told.lookup "op").getD .nil).isAtom then Actor.obey ⟨a, message⟩ ((told.lookup "op").getD .nil)
        else do
          Task.when ((entries.lookup "time").getD .nil ≠ (told.lookup "time").getD .nil)
            (Actor.noticeSecond ⟨a, message⟩ ((entries.lookup "sec").getD .nil) ((told.lookup "time").getD .nil))
          Actor.rewind ⟨a, message⟩ : WorldTask L α γ Unit).Ends u done failed) :
    (Actor.ticker ⟨a, message⟩).Ends s done failed := by
  have plainState := serving.plain charted on
  refine ((Consulted.start charted).state serving on).bind ?_
  rintro _ s₁ ⟨rfl, since₁⟩
  refine (since₁.lookup remembers plainState (by decide)).bind ?_
  rintro _ s₂ ⟨rfl, since₂⟩
  refine (since₂.lookup remembers plainState (by decide)).bind ?_
  rintro _ s₃ ⟨rfl, since₃⟩
  refine (since₃.lookup tells plain (by decide)).bind ?_
  rintro _ s₄ ⟨rfl, since₄⟩
  refine (since₄.lookup tells plain (by decide)).bind ?_
  rintro _ s₅ ⟨rfl, since₅⟩
  exact rest s₅ since₅

/-- An actor is given another behavior and state, some time after `w`. -/
theorem Later.become [DecidableEq α] (later : Later ∅ c w c' s.state) (charted : Charted c' b s.state)
    (serving : Serving c w a i known held) (on : w.heap.Collectable i) (plain : s.state.heap.Plain v)
    (allowed : c.role i ∈ W) (known' : Behavior α) : (becomeActor a known' v).Ends s
      (fun _ u => ∃ c'', Charted c'' b u ∧ Later W c' s.state c'' u ∧ Later W c w c'' u ∧ Serving c'' u a i known' v)
      NoRoom := by
  refine (become_ends charted serving.isActor serving.target (later.collectable i on) plain
    ((later.role i on).symm ▸ allowed) known').mono ?_ fun _ _ => id
  rintro - u ⟨c'', became⟩
  obtain ⟨f, holds, means⟩ := became.holds
  refine ⟨c'', became.charted, became.later, later.wide.trans became.later, ?_⟩
  exact ⟨serving.isActor, serving.target, f, by rw [holds, Function.update_self], means⟩

/-! ### Writing messages -/

theorem binds_nil (c : Chart L) (w : World L α γ) : Binds c w .nil [] := ⟨[], .nil, by simp⟩

/-- Another name is bound, in cells that are written once. -/
theorem binds_ends (charted : Charted c b s.state) (binds : Binds c s.state r entries) (plain : s.state.heap.Plain r)
    (plainV : s.state.heap.Plain v) (known : name ∈ vocabulary) : (Actor.bind r name v).Ends s
      (fun q u => ∃ c', Charted c' b u ∧ Later ∅ c s.state c' u ∧ u.heap.Plain q ∧
        Binds c' u q ((name, v) :: entries))
      NoRoom := by
  obtain ⟨cells, spelled, once⟩ := binds
  have on := (spelled.plain charted.kept.stock.stands plain).1
  refine (bind_ends charted spelled plain plainV known .other).mono ?_ fun _ _ => id
  rintro q u ⟨i, j, c', bound⟩
  refine ⟨c', bound.charted, bound.later, bound.plain, _, bound.spelled, ?_⟩
  simpa [bound.role] using fun n member => (bound.later.role n (on n member)).trans (once n member)

/-- A new line printer is sent a second. -/
theorem orderLine_ends [DecidableEq α] {m : Int} (charted : Charted c b s.state) (isNumber : Ref.number m = .ok r)
    (k : Cast L) (there : Part → Prop) :
    (do
      let line ← createActor .printLine .nil
      World.send line (← Actor.bind .nil "text" r) : WorldTask L α γ Unit).Ends s
      (fun _ u => ∃ c' l pool, Charted c' { b with mail := b.mail ++ [l], pool } u ∧ Later ∅ c s.state c' u ∧
        Posted k there c' u (.line m) l.entry.note) NoRoom := by
  refine (hire_ends charted plain_nil .other .printLine).bind ?_
  rintro a s₁ ⟨i, c₁, hired⟩
  refine (binds_ends hired.charted (binds_nil c₁ _) plain_nil (plain_number isNumber) (by decide)).bind ?_
  rintro v s₂ ⟨c₂, charted₂, later₂, plain, binds⟩
  have serving₂ := hired.serving.later later₂ hired.old (by simp)
  have on₂ := later₂.collectable i hired.old
  have plainA : s₂.state.heap.Plain a := plain_of_collectable serving₂.target on₂
  refine (post_ends charted₂ serving₂.isActor plainA plain).mono ?_ fun _ _ => id
  rintro - u ⟨l, pool, note, charted', later'⟩
  refine ⟨c₂, l, pool, charted', (hired.later.trans later₂).trans later', ?_⟩
  rw [note]
  refine .line isNumber (binds.later charted₂ plain later' (by simp)) (serving₂.later later' on₂ (by simp)) ?_
  exact (later₂.role i hired.old).trans hired.role

/-- An actor is told to stop. -/
theorem orderStop_ends (charted : Charted c b s.state) (is : there .ticker)
    (isActor : (k.actor .ticker).isActor = true) (plain : s.state.heap.Plain (k.actor .ticker)) :
    (do
      let stop ← World.atom "stop"
      World.send (k.actor .ticker) (← Actor.bind .nil "op" stop) : WorldTask L α γ Unit).Ends s
      (fun _ u => ∃ c' l pool, Charted c' { b with mail := b.mail ++ [l], pool } u ∧ Later ∅ c s.state c' u ∧
        Posted k there c' u .stop l.entry.note) NoRoom := by
  refine (atom_ends charted (by decide)).bind ?_
  rintro stop s₁ ⟨key, rfl, found, charted₁, later₁⟩
  refine (binds_ends charted₁ (binds_nil c _) plain_nil (plain_atom key) (by decide)).bind ?_
  rintro v s₂ ⟨c₂, charted₂, later₂, plainV, binds⟩
  have later := later₁.trans later₂
  refine (post_ends charted₂ isActor (later.plain plain) plainV).mono ?_ fun _ _ => id
  rintro - u ⟨l, pool, note, charted', later'⟩
  refine ⟨c₂, l, pool, charted', later.trans later', ?_⟩
  rw [note]
  exact .stop is ((later₂.symbols.trans later'.symbols) _ _ found) (binds.later charted₂ plainV later' (by simp))

/-- The counter is told of a second. -/
theorem orderSecond_ends {m : Int} (charted : Charted c b s.state) (is : there .counter)
    (isActor : (k.actor .counter).isActor = true) (plain : ∀ x, s.state.heap.Plain (k.actor x))
    (isNumber : Ref.number m = .ok r) :
    (do
      let message ← Actor.bind .nil "from" (k.actor .ticker)
      World.send (k.actor .counter) (← Actor.bind message "time" r) : WorldTask L α γ Unit).Ends s
      (fun _ u => ∃ c' l pool, Charted c' { b with mail := b.mail ++ [l], pool } u ∧ Later ∅ c s.state c' u ∧
        Posted k there c' u (.second m) l.entry.note) NoRoom := by
  refine (binds_ends charted (binds_nil c _) plain_nil (plain _) (by decide)).bind ?_
  rintro from' s₁ ⟨c₁, charted₁, later₁, plain₁, binds₁⟩
  refine (binds_ends charted₁ binds₁ plain₁ (plain_number isNumber) (by decide)).bind ?_
  rintro v s₂ ⟨c₂, charted₂, later₂, plain₂, binds₂⟩
  have later := later₁.trans later₂
  refine (post_ends charted₂ isActor (later.plain (plain _)) plain₂).mono ?_ fun _ _ => id
  rintro - u ⟨l, pool, note, charted', later'⟩
  refine ⟨c₂, l, pool, charted', later.trans later', ?_⟩
  rw [note]
  exact .second is isNumber (binds₂.later charted₂ plain₂ later' (by simp))

/-- The ticker remembers another second and its counter. -/
theorem remember_ends [DecidableEq α] {w : World L α γ} (later : Later ∅ c w c' s.state)
    (charted : Charted c' b s.state) (serving : Serving c w a i known held) (on : w.heap.Collectable i)
    (allowed : c.role i ∈ W) (plain : s.state.heap.Plain v) {m : Int} (isNumber : Ref.number m = .ok r)
    (other : .other ∉ W) :
    (do
      let state ← Actor.bind .nil "sec" v
      let state ← Actor.bind state "time" r
      becomeActor a (← behaviorOf a) state : WorldTask L α γ Unit).Ends s
      (fun _ u => ∃ c'' state, Charted c'' b u ∧ Later W c' s.state c'' u ∧ Later W c w c'' u ∧
        Serving c'' u a i known state ∧ Binds c'' u state [("time", r), ("sec", v)]) NoRoom := by
  refine (binds_ends charted (binds_nil c' _) plain_nil plain (by decide)).bind ?_
  rintro state₁ s₁ ⟨c₁, charted₁, later₁, plain₁, binds₁⟩
  refine (binds_ends charted₁ binds₁ plain₁ (plain_number isNumber) (by decide)).bind ?_
  rintro state s₂ ⟨c₂, charted₂, later₂, plain₂, binds₂⟩
  have since := (later.trans later₁).trans later₂
  refine (behavior_ends charted₂ (serving.later since on (by simp)) (since.collectable i on)).bind ?_
  rintro _ s₃ ⟨rfl, charted₃, later₃⟩
  refine ((since.trans later₃).become charted₃ serving on (later₃.plain plain₂) allowed _).mono ?_ fun _ _ => id
  rintro - u ⟨c'', charted'', later'', total, serving''⟩
  refine ⟨c'', state, charted'', ?_, total, serving'', binds₂.later charted₂ plain₂ (later₃.wide.trans later'') other⟩
  exact ((later₁.trans later₂).trans later₃).wide.trans later''

/-- The second that the clock shows is written into the message, which is to be sent again in a while. -/
theorem rewind_ends {i j : Nat} {message : Ref L} (charted : Charted c b s.state) (isActor : a.isActor = true)
    (plainA : s.state.heap.Plain a) (spelled : Spelled s.state.symbols c.holds message [i, j] [("time", r)])
    (plain : s.state.heap.Plain message) (roles : c.role i = .other ∧ c.role j = .clock) (none : b.timers = []) :
    (Actor.rewind ⟨a, message⟩).Ends s
      (fun _ u => ∃ c' alarm pool r', Charted c' { b with timers := [alarm], pool } u ∧
        Later {.clock} c s.state c' u ∧ alarm.entry.note = ⟨0, a, message⟩ ∧ Ref.number b.now.s = .ok r' ∧
        Spelled u.symbols c'.holds message [i, j] [("time", r')]) (Stuck b.now) := by
  have on := (spelled.plain charted.kept.stock.stands plain).1
  obtain _ | @⟨_, p, map, _, _, _, _, key, _, _, rest, points, node, binding, bound, named⟩ := spelled
  obtain rfl : map = .nil := by cases rest; rfl
  have onI : s.state.heap.Collectable i := on i (by simp)
  have onJ : s.state.heap.Collectable j := on j (by simp)
  refine (first_ends charted points onI).bind ?_
  rintro p' s₁ ⟨isFirst, charted₁, later₁⟩
  obtain rfl : p' = p := by rw [isFirst, node]
  refine Task.ends_view ?_
  rw [charted₁.kept.clock]
  refine Task.ends_ofExcept (fun r' isNow => ?_) fun f refused => stuck_of_number refused
  have onJ₁ := later₁.collectable j onJ
  refine (setRest_ends charted₁ binding onJ₁ (plain_number isNow) (W := {.clock}) roles.2).bind ?_
  rintro - s₂ ⟨c₂, wrote⟩
  have later₂ := later₁.wide.trans wrote.later
  have signed : b.now.IsUsual → IsSigned Actor.tickPeriod ∧ b.now.us + Actor.tickPeriod < 2 ^ 63 := by
    rintro ⟨⟨low, high⟩, -⟩
    unfold IsSigned Actor.tickPeriod secondUs at *
    omega
  have delays := delay_ends wrote.charted isActor (later₂.plain plainA) (later₂.plain plain) signed none
  refine delays.mono ?_ fun _ _ => id
  rintro - u ⟨alarm, pool, note, charted', later'⟩
  refine ⟨c₂, alarm, pool, r', charted', later₂.trans later'.wide, note, isNow, ?_⟩
  have apart : i ≠ j := fun same => by simp [same, roles.2] at roles
  have symbols := later₂.symbols.trans later'.symbols
  refine .bind (.nil) points ?_ binding ?_ (symbols _ _ named)
  · rw [wrote.holds, Function.update_of_ne apart, node]
  · rw [wrote.holds, Function.update_self, bound]

end Treadmill.World

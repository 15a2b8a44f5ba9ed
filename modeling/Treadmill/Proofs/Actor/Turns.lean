import Mathlib
import Treadmill.Proofs.Actor.Letters
import Treadmill.Proofs.Actor.Lines

/-!
What comes of the delivery of a letter (`Advanced`): whichever of them it is, the world is as the plot has it
after its delivery.
-/

namespace Treadmill.World
open Heap (plain_nil plain_number)
open Actor (Notice Plot)
open Actor.Plot (Sane)
variable {L : Layout} {α γ : Type} {W : Set Role} {k : Cast L} {there : Part → Prop} {p q : Plot} {c c' : Chart L}
  {b b' : Books L} {w u : World L α γ} {s : Logged (World L α γ)} {n : Notice} {note : Note L} {r a v held : Ref L}
  {i : Nat} {count now left : Int} {failed : Fault → World L α γ → Prop}

/-! ### What comes of a delivery -/

/-- The world is as the plot `q` has it, which was `p` before. Either the two are still there, or whichever of
them has retired had done so before. -/
structure Advanced (k : Cast L) (there : Part → Prop) (p : Plot) (b : Books L) (w : World L α γ) (q : Plot)
    (c' : Chart L) (b' : Books L) (u : World L α γ) : Prop where
  charted : Charted c' b' u
  staged : Staged k (fun x => there x ∧ u.heap.Collectable (k.cell x)) q c' b' u
  queues : ∃ mail timers pool, b' = { b with mail, timers, pool }
  guest : u.guest = w.guest
  spares : (∀ x, there x → u.heap.Collectable (k.cell x)) ∨ ∀ x, Over q x → Over p x

/-- Where nothing has been reclaimed. -/
theorem Staged.advanced (staged : Staged k there q c' b' u) (charted : Charted c' b' u)
    (queues : ∃ mail timers pool, b' = { b with mail, timers, pool }) (guest : u.guest = w.guest) :
    Advanced k there p b w q c' b' u := by
  have on : ∀ x, there x → u.heap.Collectable (k.cell x) := fun x is => (staged.own x is).1
  have same : (fun x => there x ∧ u.heap.Collectable (k.cell x)) = there :=
    funext fun x => propext ⟨And.left, fun is => ⟨is, on x is⟩⟩
  exact ⟨charted, by rwa [same], queues, guest, Or.inl on⟩

/-- Letters have been sent, and cells of certain roles have been written to. -/
theorem Staged.onward {sent : List Notice} {new : List (Letter L)} (staged : Staged k there p c b w)
    (charted : Charted c b w) (later : Later W c w c' u) (other : .other ∉ W) (tracer : .tracer ∉ W)
    (posted : List.Forall₂ (fun n (l : Letter L) => Posted k there c' u n l.entry.note) sent new)
    (mail : q.mail = p.mail ++ sent) (mail' : b'.mail = b.mail ++ new)
    (timers : List.Forall₂ (fun n (a : Alarm L) => Posted k there c' u n a.entry.note)
      (if q.waiting then [.tick] else []) b'.timers)
    (own : ∀ x, there x → Playing k c' u q x) (both : q.running = true → p.running = true) :
    Staged k there q c' b' u where
  mail := by
    rw [mail, mail']
    exact List.rel_append (staged.posts_later charted later other tracer).1 posted
  timers := timers
  own x is := by
    obtain ⟨on, role, -⟩ := staged.own x is
    exact ⟨later.collectable _ on, (later.role _ on).trans role, own x is⟩
  both running := staged.both (both running)

/-- A letter that carries a collection on is ignored once its actor has retired. -/
theorem Posted.retraced (posted : Posted k there c w n note) (charted : Charted c b w)
    (plain : w.heap.Plain note.target) (plain' : w.heap.Plain note.message)
    (became : Became {.tracer} c b w .sink .nil i c' u) : Posted k there c' u n note := by
  cases posted with
  | @trace id a j known serving role either =>
    obtain ⟨f, holds, means⟩ := became.holds
    by_cases same : j = i
    · subst same
      exact .trace ⟨serving.isActor, serving.target, f, by rw [holds, Function.update_self], means⟩
        (became.role ▸ role) (Or.inr rfl)
    · obtain ⟨g, held, means'⟩ := serving.holds
      exact .trace ⟨serving.isActor, serving.target, g, by rw [holds, Function.update_of_ne same, held],
        means'.broadened became.later.broadens⟩ (became.role ▸ role) either
  | tick is => exact .tick is
  | second is isNumber binds =>
    exact (Posted.second is isNumber binds).later charted plain plain' became.later (by simp) (by simp)
  | line isNumber binds serving role =>
    exact (Posted.line isNumber binds serving role).later charted plain plain' became.later (by simp) (by simp)
  | stop is named binds =>
    exact (Posted.stop is named binds).later charted plain plain' became.later (by simp) (by simp)

theorem printLine_lines {m : Int} (charted : Charted c b s.state) (isNumber : Ref.number m = .ok r)
    (binds : Binds c s.state v [("text", r)]) (plain : s.state.heap.Plain v) :
    (stateAfter (Actor.printLine ⟨a, v⟩ s)).journal.lines = s.journal.lines ++ [toString m] := by
  have ends : (Actor.textOf ⟨a, v⟩).Ends s _ fun _ _ => False := textOf_ends charted isNumber binds plain
  have quiet := (inferInstance : Task.Passes Quiet (Actor.textOf ⟨a, v⟩ : WorldTask L α γ String)).along s
  rw [Actor.printLine, Task.bind_apply]
  cases ran : Actor.textOf ⟨a, v⟩ s with
  | ok text u =>
    rw [ran] at quiet
    obtain ⟨rfl, -⟩ := ends.of_ok ran
    simp only [Task.note_apply, stateAfter, Journal.lines_add]
    rw [show u.journal.lines = s.journal.lines from quiet]
    rfl
  | error f u => exact (ends.of_error ran).elim

/-- The first two of three tasks may be looked at as one. -/
theorem ends_paired {σ β δ ε : Type} {t : Task σ β} {f : β → Task σ δ} {rest : δ → Task σ ε} {s : Logged σ}
    {done : ε → σ → Prop} {failed : Fault → σ → Prop} (ends : ((do let a ← t; f a) >>= rest).Ends s done failed) :
    (do let a ← t; let b ← f a; rest b).Ends s done failed := by
  simpa only [bind_assoc] using ends

/-- So may the first three of four. -/
theorem ends_grouped {σ β δ ε ζ : Type} {t : Task σ β} {f : β → Task σ δ} {g : β → δ → Task σ ε} {rest : ε → Task σ ζ}
    {s : Logged σ} {done : ζ → σ → Prop} {failed : Fault → σ → Prop}
    (ends : ((do let a ← t; let b ← f a; g a b) >>= rest).Ends s done failed) :
    (do let a ← t; let b ← f a; let d ← g a b; rest d).Ends s done failed := by
  simpa only [bind_assoc] using ends

section
variable (charted : Charted c b s.state) (staged : Staged k there p c b s.state)
  (alert : p.running = true → s.state.heap.Plain k.message)
include charted staged alert

omit alert in
/-- Whoever ignores its letter leaves everything as it was. -/
theorem ignored : Advanced k there p b s.state p c b s.state :=
  staged.advanced charted ⟨_, _, _, rfl⟩ rfl

/-- A line printer takes notice of its letter, and no more. -/
theorem printLine_ends {m : Int} (isNumber : Ref.number m = .ok r) (binds : Binds c s.state v [("text", r)])
    (plain : s.state.heap.Plain v) : (Actor.printLine ⟨a, v⟩).Ends s
      (fun _ u => Advanced k there p b s.state { p with lines := p.lines ++ [m] } c b u) failed := by
  refine (textOf_ends charted isNumber binds plain).bind ?_
  rintro text u ⟨-, since⟩
  refine Task.ends_of_ok (Task.note_apply _ _) ?_
  have staged' := staged.later charted alert since.later
  have printed : Staged k there { p with lines := p.lines ++ [m] } c b u.state :=
    ⟨staged'.mail, staged'.timers, staged'.own, staged'.both⟩
  exact printed.advanced since.charted ⟨_, _, _, rfl⟩ since.later.guest

/-- The ticker retires at `stop`. -/
theorem stop_ends [DecidableEq α] {key : UInt32} (running : p.running = true)
    (named : s.state.symbols.find? "stop" = some key) (binds : Binds c s.state v [("op", .atom key)])
    (plain : s.state.heap.Plain v) : (Actor.ticker ⟨k.actor .ticker, v⟩).Ends s
      (fun _ u => ∃ c', Advanced k there p b s.state { p with running := false } c' b u) NoRoom := by
  have is := staged.both running .ticker
  obtain ⟨on, role, -⟩ := staged.own .ticker is
  obtain ⟨serving, remembered, -⟩ := staged.awake running
  obtain ⟨_, spelled, -⟩ := remembered
  obtain ⟨_, spelled', -⟩ := binds
  refine ticker_reads charted serving on spelled spelled' plain fun u since => ?_
  have op : (([("op", .atom key)] : List (String × Ref L)).lookup "op").getD .nil = .atom key := rfl
  rw [op]
  -- The atom stands for the name still.
  obtain ⟨_, filled, -⟩ := since.charted.names
  have name : u.state.atomName? (.atom key) = some "stop" := by
    simpa [atomName?, Ref.value_of_ofValue (v := .atom key) rfl] using
      filled.regular _ _ (since.later.symbols _ _ named)
  have isAtom : (Ref.atom key : Ref L).isAtom = true := by
    simpa [Ref.isAtom, Value.kind] using ((Ref.codec L).told (v := .atom key) rfl).2
  rw [if_pos isAtom]
  refine Task.ends_view ?_
  rw [if_pos name]
  refine Task.ends_bind_ok (Task.note_apply _ _) ?_
  refine (since.later.become (s := ⟨u.state, u.journal.add .tickerStopped⟩) since.charted serving on
    plain_nil (W := {.plays .ticker}) role .sink).mono ?_ fun _ _ => id
  rintro - z ⟨c', charted', -, later, serving'⟩
  have unsent : List.Forall₂ (fun n (l : Letter L) => Posted k there c' z n l.entry.note) [] [] := .nil
  have staged' : Staged k there { p with running := false } c' b z := by
    refine staged.onward charted later (by simp) (by simp) unsent (List.append_nil _).symm (List.append_nil _).symm
      (staged.posts_later charted later (by simp) (by simp)).2 (fun x is => ?_) (by simp)
    cases x with
    | ticker => exact .retired serving'
    | counter => exact staged.playing charted alert later is (by simp) (by simp) (by simp)
  exact ⟨c', staged'.advanced charted' ⟨_, _, _, rfl⟩ later.guest⟩

/-- What the plot makes of a second for the counter, which has sent one letter after another. -/
theorem counted {c₁ : Chart L} {b₁ : Books L} {v : World L α γ} {m : Int} {l : Letter L} {sent : List Notice}
    {new : List (Letter L)} {left : Option Int} {pool : List Nat} (charted₁ : Charted c₁ b₁ v) (onL : l ∈ b₁.mail)
    (posted : Posted k there c₁ v (.line m) l.entry.note)
    (charted' : Charted c' { b with mail := b.mail ++ l :: new, pool } u)
    (later₁ : Later {.plays .counter} c₁ v c' u) (later : Later {.plays .counter} c s.state c' u)
    (posted' : List.Forall₂ (fun n (l : Letter L) => Posted k there c' u n l.entry.note) sent new)
    (counting : Counting k c' u left) :
    Advanced k there p b s.state { p with mail := p.mail ++ .line m :: sent, left } c'
      { b with mail := b.mail ++ l :: new, pool } u := by
  have plain := charted₁.letters onL
  have first := posted.later charted₁ plain.1 plain.2 later₁ (by simp) (by simp)
  have staged' : Staged k there { p with mail := p.mail ++ .line m :: sent, left } c'
      { b with mail := b.mail ++ l :: new, pool } u := by
    refine staged.onward charted later (by simp) (by simp) (.cons first posted') rfl rfl
      (staged.posts_later charted later (by simp) (by simp)).2 (fun x is => ?_) id
    cases x with
    | ticker => exact (staged.playing charted alert later is (by simp) (by simp) (by simp) : Playing k c' u p .ticker)
    | counter => exact counting
  exact staged'.advanced charted' ⟨_, _, _, rfl⟩ later.guest

/-- The counter has a second printed. After the last one it stops the ticker and retires. -/
theorem second_ends [DecidableEq α] {m : Int} (sane : Sane count now { p with mail := .second m :: p.mail })
    (isLeft : p.left = some left) (isNumber : Ref.number m = .ok r)
    (binds : Binds c s.state v [("time", r), ("from", k.actor .ticker)]) (plain : s.state.heap.Plain v) :
    (Actor.eachSecond ⟨k.actor .counter, v⟩).Ends s
      (fun _ u => ∃ c' b', Advanced k there p b s.state (p.deliver now false (.second m)) c' b' u) NoRoom := by
  have running : p.running = true := (sane.counting left isLeft).1
  have all := staged.both running
  obtain ⟨on, role, -⟩ := staged.own .counter (all _)
  obtain ⟨serving, counts, ⟨_, spelled, once⟩⟩ := staged.counts (all _) isLeft
  have plainState := serving.plain charted on
  obtain ⟨_, spelled', once'⟩ := id binds
  refine ((Consulted.start charted).state serving on).bind ?_
  rintro _ s₁ ⟨rfl, since₁⟩
  refine (since₁.lookup spelled plainState (by decide)).bind ?_
  rintro n s₂ ⟨isCount, since₂⟩
  refine (since₂.lookup spelled' plain (by decide)).bind ?_
  rintro time s₃ ⟨isTime, since₃⟩
  refine (since₃.lookup spelled' plain (by decide)).bind ?_
  rintro ticker s₄ ⟨isTicker, since₄⟩
  obtain rfl : n = _ := isCount
  obtain rfl : time = _ := isTime
  obtain rfl : ticker = k.actor .ticker := isTicker
  refine ends_grouped ((orderLine_ends since₄.charted isNumber k there).bind ?_)
  rintro - s₅ ⟨c₅, l, pool, charted₅, later, posted⟩
  have later₅ := since₄.later.trans later
  have plainL := charted₅.letters (l := l) (by simp)
  have isNumber' : n.isNumber = true := by simpa [Ref.isNumber] using kind_of_number counts
  rw [isNumber', if_neg (by simp), (Ref.of_number counts).2]
  refine Task.ends_ofExcept (fun left' same => ?_) fun _ failed => by cases failed
  obtain rfl : left = left' := Except.ok.inj same
  have allowed : c.role (k.cell .counter) ∈ ({.plays .counter} : Set Role) := role
  by_cases done : left ≤ 0
  · rw [if_pos done, k.acts]
    refine (orderStop_ends charted₅ (all .ticker) (k.acts _) (later₅.plain (staged.plain (all _)))).bind ?_
    rintro - s₆ ⟨c₆, l', pool', charted₆, later₆, posted'⟩
    have plain' := charted₆.letters (l := l') (by simp)
    refine ((later₅.trans later₆).become charted₆ serving on plain_nil allowed .sink).mono
      ?_ fun _ _ => id
    rintro - u ⟨c', charted', later', total, serving'⟩
    have posted' := posted'.later charted₆ plain'.1 plain'.2 later' (by simp) (by simp)
    rw [List.append_assoc, List.singleton_append] at charted'
    have advanced := counted charted staged alert charted₅ (by simp) posted charted' (later₆.wide.trans later') total
      (.cons posted' .nil) (.retired serving')
    exact ⟨c', _, by simpa [Plot.deliver, isLeft, done] using advanced⟩
  · obtain ⟨low, high⟩ := Ref.number_range counts
    have least := Ref.minNumber_le_zero L
    obtain ⟨less, isLess⟩ := Ref.number_ok (L := L) (n := left - 1) (by omega) (by omega)
    rw [if_neg done, isLess]
    refine Task.ends_ofExcept (fun less' same => ?_) fun _ failed => by cases failed
    obtain rfl : less = less' := Except.ok.inj same
    refine (binds_ends charted₅ (binds_nil c₅ _) plain_nil (plain_number isLess) (by decide)).bind ?_
    rintro state s₆ ⟨c₆, charted₆, later₆, plain₆, binds₆⟩
    have on₆ := (later₅.trans later₆).collectable _ on
    refine (behavior_ends charted₆ (serving.later (later₅.trans later₆) on (by simp)) on₆).bind ?_
    rintro _ s₇ ⟨rfl, charted₇, later₇⟩
    refine (((later₅.trans later₆).trans later₇).become charted₇ serving on (later₇.plain plain₆) allowed
      .eachSecond).mono ?_ fun _ _ => id
    rintro - u ⟨c', charted', later', total, serving'⟩
    have binds' := binds₆.later charted₆ plain₆ (later₇.wide.trans later') (by simp)
    have advanced := counted charted staged alert charted₅ (by simp) posted charted'
      ((later₆.trans later₇).wide.trans later') total .nil (.left serving' isLess binds')
    exact ⟨c', _, by simpa [Plot.deliver, isLeft, done] using advanced⟩

omit alert in
/-- The ticker tells its counter of the second `p.shown`, and remembers it, if it is another one than it
remembers. -/
theorem notice_ends [DecidableEq α] {time : Option (Ref L)} {u : Logged (World L α γ)} (running : p.running = true)
    (serving : Serving c s.state (k.actor .ticker) (k.cell .ticker) .ticker held)
    (binds : Binds c s.state held ((time.map fun r => ("time", r)).toList ++ [("sec", k.actor .counter)]))
    (remembers : Option.Rel (fun l r => Ref.number l = .ok r) p.last time) (shows : Ref.number p.shown = .ok r)
    (since : Consulted c b s.state u.state) :
    (Task.when (time.getD .nil ≠ r) (Actor.noticeSecond ⟨k.actor .ticker, v⟩ (k.actor .counter) r)).Ends u
      (fun _ z => ∃ c' new state pool, Charted c' { b with mail := b.mail ++ new, pool } z ∧
        Later {.plays .ticker} c s.state c' z ∧
        List.Forall₂ (fun n (l : Letter L) => Posted k there c' z n l.entry.note)
          (if p.last = some p.shown then [] else [.second p.shown]) new ∧
        Serving c' z (k.actor .ticker) (k.cell .ticker) .ticker state ∧
        Binds c' z state [("time", r), ("sec", k.actor .counter)]) NoRoom := by
  have all := staged.both running
  obtain ⟨on, role, -⟩ := staged.own .ticker (all _)
  obtain ⟨isTime, noticed⟩ := remembers_iff remembers shows
  by_cases same : p.last = some p.shown
  · rw [decide_eq_false (by simpa using noticed.mpr same), if_pos same]
    have later : Later {.plays .ticker} c s.state c u.state := since.later.wide
    refine Task.ends_pure ⟨c, [], held, b.pool, by simpa using since.charted, later, .nil, ?_, ?_⟩
    · exact serving.later since.later on (by simp)
    · obtain rfl := isTime.mpr same
      exact binds.later charted (serving.plain charted on) since.later (by simp)
  · rw [decide_eq_true (by simpa using fun equal => same (noticed.mp equal)), if_neg same]
    have plain : ∀ x, u.state.heap.Plain (k.actor x) := fun x => since.later.plain (staged.plain (all x))
    change (Actor.noticeSecond _ _ _).Ends u _ _
    rw [Actor.noticeSecond, k.acts]
    refine (orderSecond_ends since.charted (all .counter) (k.acts _) plain shows).bind ?_
    rintro - s₁ ⟨c₁, l, pool, charted₁, later₁, posted⟩
    have plainL := charted₁.letters (l := l) (by simp)
    refine (remember_ends (since.later.trans later₁) charted₁ serving on (W := {.plays .ticker}) role
      (later₁.plain (plain _)) shows (by simp)).mono ?_ fun _ _ => id
    rintro - z ⟨c', state, charted', later', later, serving', binds'⟩
    exact ⟨c', [l], state, pool, charted', later,
      .cons (posted.later charted₁ plainL.1 plainL.2 later' (by simp) (by simp)) .nil, serving', binds'⟩

/-- The ticker tells its counter of the second in the message if it is another one than it remembers, and sends
the message to itself again. -/
theorem wake_ends [DecidableEq α] (sane : Sane count now { p with mail := .tick :: p.mail })
    (running : p.running = true) : (Actor.ticker ⟨k.actor .ticker, k.message⟩).Ends s
      (fun _ u => ∃ c' b', Advanced k there p b s.state (p.deliver b.now.s false .tick) c' b' u) (Stuck b.now) := by
  have all := staged.both running
  obtain ⟨on, role, -⟩ := staged.own .ticker (all _)
  obtain @⟨held, r, time, i, j, serving, remembered, remembers, spelled, shows, roles⟩ := staged.awake running
  have plain := alert running
  obtain ⟨_, spelled', -⟩ := id remembered
  refine ticker_reads charted serving on spelled' spelled plain fun s₅ since => ?_
  have shown : (([("time", r)] : List (String × Ref L)).lookup "time").getD .nil = r := rfl
  have op : (([("time", r)] : List (String × Ref L)).lookup "op").getD .nil = .nil := rfl
  have old : (((time.map fun r => ("time", r)).toList ++ [("sec", k.actor .counter)]).lookup "time").getD .nil =
      time.getD .nil := by cases time <;> rfl
  have sec : (((time.map fun r => ("time", r)).toList ++ [("sec", k.actor .counter)]).lookup "sec").getD .nil =
      k.actor .counter := by cases time <;> rfl
  have noAtom : (Ref.nil : Ref L).isAtom = false := by simp [Ref.isAtom]
  rw [op, noAtom, if_neg (by simp), shown, old, sec]
  have noticing := notice_ends (v := k.message) charted staged running serving remembered remembers shows since
  refine (noticing.mono (fun _ _ => id) fun _ _ => Or.inl).bind ?_
  rintro - s₆ ⟨c₆, new, state, pool, charted₆, later₆, posted, serving₆, binds₆⟩
  -- The message stands where it stood.
  have cells := (spelled.plain charted.kept.stock.stands plain).1
  have onI := cells i (by simp)
  have onJ := cells j (by simp)
  have spelled₆ : Spelled s₆.state.symbols c₆.holds k.message [i, j] [("time", r)] := by
    refine spelled.congr ?_ later₆.symbols
    simpa using ⟨later₆.holds i onI (by simp [roles.1]), later₆.holds j onJ (by simp [roles.2])⟩
  have roles₆ : c₆.role i = .other ∧ c₆.role j = .clock := by
    rw [later₆.role i onI, later₆.role j onJ]
    exact roles
  have notWaiting : p.waiting = false := by
    have woken := sane.awake running
    simp only [List.count_cons_self] at woken
    cases waits : p.waiting with
    | false => rfl
    | true => simp [waits] at woken
  have none : b.timers = [] := by simpa [notWaiting] using staged.timers
  have rewinds := rewind_ends charted₆ (k.acts .ticker) (later₆.plain (staged.plain (all _))) spelled₆
    (later₆.plain plain) roles₆ none
  refine rewinds.mono ?_ fun _ _ => id
  rintro - u ⟨c', alarm, pool', r', charted', later', note, isNow, spelled'⟩
  have on₆ := later₆.collectable _ on
  have role₆ := (later₆.role _ on).trans role
  have later : Later {.plays .ticker, .clock} c s.state c' u :=
    (later₆.mono (by simp)).trans (later'.mono (by simp))
  have staged' : Staged k there (p.deliver b.now.s false .tick) c'
      { b with mail := b.mail ++ new, timers := [alarm], pool := pool' } u := by
    simp only [Plot.deliver, running, if_true]
    have posted' := posted_later posted charted₆ (by simp +contextual) later' (by simp) (by simp)
    refine staged.onward charted later (by simp) (by simp) posted' rfl rfl ?_ (fun x is => ?_) fun _ => running
    · refine .cons ?_ .nil
      rw [note]
      exact .tick (all _)
    · cases x with
      | ticker =>
        have binds' : Binds c' u state (((some r).map fun r => ("time", r)).toList ++ [("sec", k.actor .counter)]) :=
          binds₆.later charted₆ (serving₆.plain charted₆ on₆) later' (by simp)
        have ticking : Ticking k c' u (some p.shown) b.now.s true :=
          .awake (serving₆.later later' on₆ (by simp [role₆])) binds' (.some shows) spelled' isNow
            ⟨(later'.role i (later₆.collectable i onI)).trans roles₆.1,
              (later'.role j (later₆.collectable j onJ)).trans roles₆.2⟩
        simpa only [Playing, running] using ticking
      | counter =>
        exact (staged.playing charted alert later is (by simp) (by simp) (by simp) : Playing k c' u p .counter)
  exact ⟨c', _, staged'.advanced charted' ⟨_, _, _, rfl⟩ later.guest⟩

/-- A tracer traces a cell and sends itself another letter, or ends the cycle and retires. -/
theorem trace_ends [DecidableEq α] (sane : p.Sane count now) (serving : Serving c s.state a i .trace .nil)
    (role : c.role i = .tracer) (known : a ∈ b.refs) : (Actor.trace ⟨a, .nil⟩).Ends s
      (fun _ u => ∃ again c' b', Advanced k there p b s.state (p.deliver now again .trace) c' b' u) NoRoom := by
  have plain := charted.plain_refs a known
  have on := plain i serving.target
  refine (traceStep_ends charted).bind ?_
  rintro again u ⟨charted₁, later₁, traced⟩
  cases again with
  | true =>
    refine (post_ends charted₁ serving.isActor (later₁.plain plain) plain_nil).mono ?_
      fun _ _ => id
    rintro - v ⟨l, pool, note, charted', later'⟩
    have later := later₁.trans later'
    have posted : Posted k there c v .trace l.entry.note := by
      rw [note]
      exact .trace (serving.later later on (by simp)) role (Or.inl rfl)
    have staged' : Staged k there (p.deliver now true .trace) c { b with mail := b.mail ++ [l], pool } v :=
      staged.onward charted later (by simp) (by simp) (.cons posted .nil) rfl rfl
        (staged.posts_later charted later (by simp) (by simp)).2
        (fun x is => (staged.playing charted alert later is (by simp) (by simp) (by simp) : Playing k c v p x)) id
    exact ⟨true, c, _, staged'.advanced charted' ⟨_, _, _, rfl⟩ later.guest⟩
  | false =>
    refine (sweep_ends charted₁ (traced rfl)).bind ?_
    rintro - v ⟨h, same, charted₂⟩
    -- What the collector has left counts as what was there.
    have staged₁ := staged.later charted alert later₁
    have staged₂ := staged₁.collected (h := h) (by rwa [← same]) sane
    rw [← same] at staged₂
    have on₂ := charted₂.plain_refs a known i serving.target
    have serving₂ : Serving c v.state a i .trace .nil := by
      rw [same]
      exact (serving.later later₁ on (by simp)).moved h
    have alert₂ : p.running = true → v.state.heap.Plain k.message := fun running =>
      (staged₂.alert charted₂ sane running).2
    refine (become_ends charted₂ serving₂.isActor serving₂.target on₂ plain_nil
      (W := {.tracer}) role .sink).mono ?_ fun _ _ => id
    rintro - z ⟨c', became⟩
    have posts := staged₂.posts charted₂ fun _ _ posted plain plain' => posted.retraced charted₂ plain plain' became
    have there' : (fun x => there x ∧ h.Collectable (k.cell x)) =
        fun x => there x ∧ z.heap.Collectable (k.cell x) := by
      funext x
      have : v.state.heap.Collectable (k.cell x) ↔ z.heap.Collectable (k.cell x) :=
        ⟨became.later.collectable _, became.old _⟩
      rw [same] at this
      simp [this]
    refine ⟨false, c', b, became.charted, ?_, ⟨_, _, _, rfl⟩, ?_, Or.inr fun x => ?_⟩
    · rw [← there']
      exact
        { mail := by simpa [Plot.deliver] using posts.1
          timers := posts.2
          own := fun x is => by
            obtain ⟨on, role, -⟩ := staged₂.own x is
            refine ⟨became.later.collectable _ on, (became.later.role _ on).trans role, ?_⟩
            exact (staged₂.playing charted₂ alert₂ became.later is (by simp) (by simp) (by simp) : Playing k c' z p x)
          both := staged₂.both }
    · rw [became.later.guest, same, later₁.guest]
    · cases x <;> exact id

/-- Whatever a letter is about, its target acts on it as the plot has it. -/
theorem act_ends [DecidableEq α] (host : Host L α γ) (sane : Sane count now { p with mail := n :: p.mail })
    (posted : Posted k there c s.state n note) (plain : s.state.heap.Plain note.message)
    (held : note.target ∈ b.refs) : ∃ i known state, Serving c s.state note.target i known state ∧
      (act host known ⟨note.target, note.message⟩).Ends s
        (fun _ u => ∃ again c' b', Advanced k there p b s.state (p.deliver b.now.s again n) c' b' u) (Stuck b.now) ∧
      (stateAfter (act host known ⟨note.target, note.message⟩ s)).journal.lines =
        s.journal.lines ++ (n.line?.map toString).toList := by
  have quiet : ∀ {t : WorldTask L α γ Unit}, n.line? = none → Task.Passes Quiet t →
      (stateAfter (t s)).journal.lines = s.journal.lines ++ (n.line?.map toString).toList := fun {t} none passes => by
    rw [none]
    exact (passes.along s).trans (List.append_nil _).symm
  have ignores : ∀ again, p.deliver b.now.s again n = p → (act host .sink ⟨note.target, note.message⟩).Ends s
      (fun _ u => ∃ again c' b', Advanced k there p b s.state (p.deliver b.now.s again n) c' b' u) (Stuck b.now) :=
    fun again same => Task.ends_pure ⟨again, c, b, by rw [same]; exact ignored charted staged⟩
  cases posted with
  | tick is =>
    cases running : p.running with
    | true =>
      have ends := wake_ends charted staged alert sane running
      obtain ⟨serving, -⟩ := staged.awake running
      refine ⟨_, _, _, serving, ends.mono (fun _ u advanced => ⟨false, advanced⟩) fun _ _ => id, quiet rfl ?_⟩
      change Task.Passes Quiet (Actor.ticker _)
      infer_instance
    | false => exact ⟨_, _, _, staged.retired is running, ignores false (by simp [Plot.deliver, running]),
        quiet rfl (Task.Passes.pure ())⟩
  | second is isNumber binds =>
    cases isLeft : p.left with
    | some left =>
      have ends := second_ends charted staged alert sane isLeft isNumber binds plain
      obtain ⟨serving, -⟩ := staged.counts is isLeft
      refine ⟨_, _, _, serving, ?_, quiet rfl ?_⟩
      · exact ends.mono (fun _ u advanced => ⟨false, advanced⟩) fun _ _ => Or.inl
      · change Task.Passes Quiet (Actor.eachSecond _)
        infer_instance
    | none => exact ⟨_, _, _, staged.retired is isLeft, ignores false (by simp [Plot.deliver, isLeft]),
        quiet rfl (Task.Passes.pure ())⟩
  | @line _ m a v r i isNumber binds serving role =>
    refine ⟨_, _, _, serving, ?_, ?_⟩
    · exact (printLine_ends charted staged alert isNumber binds plain).mono
        (fun _ u advanced => ⟨false, c, b, advanced⟩) fun _ _ => id
    · exact printLine_lines charted isNumber binds plain
  | stop is named binds =>
    cases running : p.running with
    | true =>
      have ends := stop_ends charted staged alert running named binds plain
      obtain ⟨serving, -⟩ := staged.awake running
      refine ⟨_, _, _, serving, ?_, quiet rfl ?_⟩
      · refine ends.mono ?_ fun _ _ => Or.inl
        rintro _ u ⟨c', advanced⟩
        exact ⟨false, c', b, advanced⟩
      · change Task.Passes Quiet (Actor.ticker _)
        infer_instance
    | false =>
      refine ⟨_, _, _, staged.retired is running, ignores false ?_, quiet rfl (Task.Passes.pure ())⟩
      cases p
      simp_all [Plot.deliver]
  | trace serving role either =>
    rcases either with rfl | rfl
    · refine ⟨_, _, _, serving, ?_, quiet rfl ?_⟩
      · exact (trace_ends charted staged alert sane.untraced serving role held).mono (fun _ _ advanced => advanced)
          fun _ _ => Or.inl
      · change Task.Passes Quiet (Actor.trace _)
        infer_instance
    · refine ⟨_, _, _, serving, ignores false ?_, quiet rfl (Task.Passes.pure ())⟩
      simp [Plot.deliver]

end

end Treadmill.World

import Mathlib
import Treadmill.Proofs.Actor.Plot
import Treadmill.Proofs.Actor.Posting

/-!
What the plot of a ticker tells of a world with a chart (`Staged`): which letters and timers there are, and
what its two actors remember. It goes on to do so where only other cells have been written to, and a collection
takes away nothing that still counts (`Staged.collected`).
-/

namespace Treadmill.World
open Heap (plain_of_collectable)
open Actor (Notice Plot)
variable {L : Layout} {α γ : Type}

/-- The two, the cells they stand in, and the message that wakes the ticker up. -/
structure Cast (L : Layout) where
  actor : Part → Ref L
  cell : Part → Nat
  acts (x : Part) : (actor x).isActor = true
  names (x : Part) : (actor x).target? = some (cell x)
  message : Ref L

/-- The map `r` binds these names, and its cells are written once. -/
def Binds (c : Chart L) (w : World L α γ) (r : Ref L) (entries : List (String × Ref L)) : Prop :=
  ∃ cells, Spelled w.symbols c.holds r cells entries ∧ ∀ i ∈ cells, c.role i = .other

/-- What a letter or timer says that is about this. Those for the two are posted while they are `there`. -/
inductive Posted (k : Cast L) (there : Part → Prop) (c : Chart L) (w : World L α γ) : Notice → Note L → Prop
  | tick {id : Nat} (is : there .ticker) : Posted k there c w .tick ⟨id, k.actor .ticker, k.message⟩
  | second {id : Nat} {s : Int} {v r : Ref L} (is : there .counter) (isNumber : Ref.number s = .ok r)
      (binds : Binds c w v [("time", r), ("from", k.actor .ticker)]) :
      Posted k there c w (.second s) ⟨id, k.actor .counter, v⟩
  | line {id : Nat} {s : Int} {a v r : Ref L} {i : Nat} (isNumber : Ref.number s = .ok r)
      (binds : Binds c w v [("text", r)]) (serving : Serving c w a i .printLine .nil) (role : c.role i = .other) :
      Posted k there c w (.line s) ⟨id, a, v⟩
  | stop {id : Nat} {v : Ref L} {name : UInt32} (is : there .ticker) (named : w.symbols.find? "stop" = some name)
      (binds : Binds c w v [("op", .atom name)]) : Posted k there c w .stop ⟨id, k.actor .ticker, v⟩
  | trace {id : Nat} {a : Ref L} {i : Nat} {known : Behavior α} (serving : Serving c w a i known .nil)
      (role : c.role i = .tracer) (either : known = .trace ∨ known = .sink) :
      Posted k there c w .trace ⟨id, a, .nil⟩

/-- What the ticker remembers while it runs, `last` the second that it noticed last and `shown` the one that is
in its message. Then it is a sink. -/
inductive Ticking (k : Cast L) (c : Chart L) (w : World L α γ) (last : Option Int) (shown : Int) : Bool → Prop
  | awake {state r : Ref L} {time : Option (Ref L)} {i j : Nat}
      (serving : Serving c w (k.actor .ticker) (k.cell .ticker) .ticker state)
      (binds : Binds c w state ((time.map fun r => ("time", r)).toList ++ [("sec", k.actor .counter)]))
      (remembers : Option.Rel (fun l r => Ref.number l = .ok r) last time)
      (spelled : Spelled w.symbols c.holds k.message [i, j] [("time", r)]) (shows : Ref.number shown = .ok r)
      (roles : c.role i = .other ∧ c.role j = .clock) : Ticking k c w last shown true
  | retired (serving : Serving c w (k.actor .ticker) (k.cell .ticker) .sink .nil) : Ticking k c w last shown false

/-- What the counter remembers while it has something left to count. Then it is a sink. -/
inductive Counting (k : Cast L) (c : Chart L) (w : World L α γ) : Option Int → Prop
  | left {n : Int} {state r : Ref L} (serving : Serving c w (k.actor .counter) (k.cell .counter) .eachSecond state)
      (isNumber : Ref.number n = .ok r) (binds : Binds c w state [("count", r)]) : Counting k c w (some n)
  | retired (serving : Serving c w (k.actor .counter) (k.cell .counter) .sink .nil) : Counting k c w none

/-- The two are as the plot has them. -/
def Playing (k : Cast L) (c : Chart L) (w : World L α γ) (p : Plot) : Part → Prop
  | .ticker => Ticking k c w p.last p.shown p.running
  | .counter => Counting k c w p.left

/-- Whether one of the two has retired. -/
def Over (p : Plot) : Part → Prop
  | .ticker => p.running = false
  | .counter => p.left = none

/-- The world is as the plot has it. Those of the two that are `there` have not been reclaimed. -/
structure Staged (k : Cast L) (there : Part → Prop) (p : Plot) (c : Chart L) (b : Books L) (w : World L α γ) :
    Prop where
  mail : List.Forall₂ (fun n (l : Letter L) => Posted k there c w n l.entry.note) p.mail b.mail
  timers : List.Forall₂ (fun n (a : Alarm L) => Posted k there c w n a.entry.note)
    (if p.waiting then [.tick] else []) b.timers
  own : ∀ x, there x → w.heap.Collectable (k.cell x) ∧ c.role (k.cell x) = .plays x ∧ Playing k c w p x
  both : p.running = true → ∀ x, there x

variable {W : Set Role} {k : Cast L} {there : Part → Prop} {p : Plot} {c c' : Chart L} {b b' : Books L}
  {w u : World L α γ} {n : Notice} {note : Note L} {r a : Ref L} {entries : List (String × Ref L)}
  {i : Nat} {x : Part} {known : Behavior α} {count now : Int} {last : Option Int} {shown : Int}
  {running : Bool} {left : Option Int}

/-- The ticker runs. -/
theorem Staged.awake (staged : Staged k there p c b w) (running : p.running = true) :
    Ticking k c w p.last p.shown true := by
  have ticking : Ticking k c w p.last p.shown p.running := (staged.own .ticker (staged.both running _)).2.2
  rwa [running] at ticking

/-- The counter has something left to count. -/
theorem Staged.counts {n : Int} (staged : Staged k there p c b w) (is : there .counter) (isLeft : p.left = some n) :
    Counting k c w (some n) := by
  have counting : Counting k c w p.left := (staged.own .counter is).2.2
  rwa [isLeft] at counting

/-! ### Writing to other cells -/

theorem Binds.plain (binds : Binds c w r entries) (charted : Charted c b w) (plain : w.heap.Plain r) :
    ∀ e ∈ entries, w.heap.Plain e.2 := by
  obtain ⟨cells, spelled, -⟩ := binds
  exact (spelled.plain charted.kept.stock.stands plain).2

theorem Binds.later (binds : Binds c w r entries) (charted : Charted c b w) (plain : w.heap.Plain r)
    (later : Later W c w c' u) (other : .other ∉ W) : Binds c' u r entries := by
  obtain ⟨cells, spelled, once⟩ := binds
  have on := (spelled.plain charted.kept.stock.stands plain).1
  refine ⟨cells, spelled.congr (fun i member => ?_) later.symbols, fun i member => ?_⟩
  · exact later.holds i (on i member) (once i member ▸ other)
  · exact (later.role i (on i member)).trans (once i member)

theorem Posted.later (posted : Posted k there c w n note) (charted : Charted c b w) (plain : w.heap.Plain note.target)
    (plain' : w.heap.Plain note.message) (later : Later W c w c' u) (other : .other ∉ W)
    (tracer : n = .trace → .tracer ∉ W) : Posted k there c' u n note := by
  cases posted with
  | tick is => exact .tick is
  | second is isNumber binds => exact .second is isNumber (binds.later charted plain' later other)
  | line isNumber binds serving role =>
    have on := plain _ serving.target
    exact .line isNumber (binds.later charted plain' later other) (serving.later later on (role ▸ other))
      ((later.role _ on).trans role)
  | stop is named binds => exact .stop is (later.symbols _ _ named) (binds.later charted plain' later other)
  | trace serving role either =>
    have on := plain _ serving.target
    exact .trace (serving.later later on (role ▸ tracer rfl)) ((later.role _ on).trans role) either

theorem Ticking.later (ticking : Ticking k c w last shown running) (charted : Charted c b w)
    (on : w.heap.Collectable (k.cell .ticker)) (role : c.role (k.cell .ticker) = .plays .ticker)
    (plain : running = true → w.heap.Plain k.message) (later : Later W c w c' u) (own : .plays .ticker ∉ W)
    (other : .other ∉ W) (clock : .clock ∉ W) : Ticking k c' u last shown running := by
  cases ticking with
  | retired serving => exact .retired (serving.later later on (role ▸ own))
  | @awake state r time i j serving binds remembers spelled shows roles =>
    have cells := (spelled.plain charted.kept.stock.stands (plain rfl)).1
    have onI := cells i (by simp)
    have onJ := cells j (by simp)
    refine .awake (serving.later later on (role ▸ own)) (binds.later charted (serving.plain charted on) later other)
      remembers
      (spelled.congr ?_ later.symbols) shows ⟨(later.role i onI).trans roles.1, (later.role j onJ).trans roles.2⟩
    simpa using ⟨later.holds i onI (roles.1 ▸ other), later.holds j onJ (roles.2 ▸ clock)⟩

theorem Counting.later (counting : Counting k c w left) (charted : Charted c b w)
    (on : w.heap.Collectable (k.cell .counter)) (role : c.role (k.cell .counter) = .plays .counter)
    (later : Later W c w c' u) (own : .plays .counter ∉ W) (other : .other ∉ W) : Counting k c' u left := by
  cases counting with
  | retired serving => exact .retired (serving.later later on (role ▸ own))
  | left serving isNumber binds =>
    exact .left (serving.later later on (role ▸ own)) isNumber
      (binds.later charted (serving.plain charted on) later other)

/-- Where neither of the two nor its message has been written to, both go on as they were. -/
theorem Playing.later (playing : Playing k c w p x) (charted : Charted c b w) (on : w.heap.Collectable (k.cell x))
    (role : c.role (k.cell x) = .plays x) (plain : p.running = true → w.heap.Plain k.message)
    (later : Later W c w c' u) (own : .plays x ∉ W) (other : .other ∉ W) (clock : x = .ticker → .clock ∉ W) :
    Playing k c' u p x := by
  cases x with
  | ticker => exact Ticking.later playing charted on role plain later own other (clock rfl)
  | counter => exact Counting.later playing charted on role later own other

theorem Charted.letters (charted : Charted c b w) {l : Letter L} (on : l ∈ b.mail) :
    w.heap.Plain l.entry.note.target ∧ w.heap.Plain l.entry.note.message := by
  have safe := charted.kept.entry (Books.letter_entry on)
  exact ⟨(safe _ (by simp [Entry.refs])).1, (safe _ (by simp [Entry.refs])).1⟩

theorem Charted.alarms (charted : Charted c b w) {a : Alarm L} (on : a ∈ b.timers) :
    w.heap.Plain a.entry.note.target ∧ w.heap.Plain a.entry.note.message := by
  have safe := charted.kept.entry (Books.alarm_entry on)
  exact ⟨(safe _ (by simp [Entry.refs])).1, (safe _ (by simp [Entry.refs])).1⟩

/-- What holds of each letter and timer that is posted and that the world holds on to. -/
theorem Staged.posts {R : Notice → Note L → Prop} (staged : Staged k there p c b w) (charted : Charted c' b u)
    (each : ∀ n note, Posted k there c w n note → u.heap.Plain note.target → u.heap.Plain note.message → R n note) :
    List.Forall₂ (fun n (l : Letter L) => R n l.entry.note) p.mail b.mail ∧
      List.Forall₂ (fun n (a : Alarm L) => R n a.entry.note) (if p.waiting then [.tick] else []) b.timers := by
  refine ⟨List.forall₂_iff_zip.mpr ⟨staged.mail.length_eq, fun {n l} on => ?_⟩,
    List.forall₂_iff_zip.mpr ⟨staged.timers.length_eq, fun {n a} on => ?_⟩⟩
  · have plain := charted.letters (List.of_mem_zip on).2
    exact each n _ ((List.forall₂_iff_zip.mp staged.mail).2 on) plain.1 plain.2
  · have plain := charted.alarms (List.of_mem_zip on).2
    exact each n _ ((List.forall₂_iff_zip.mp staged.timers).2 on) plain.1 plain.2

theorem posted_later {sent : List Notice} {new : List (Letter L)}
    (posted : List.Forall₂ (fun n (l : Letter L) => Posted k there c w n l.entry.note) sent new)
    (charted : Charted c b w) (on : ∀ l ∈ new, l ∈ b.mail) (later : Later W c w c' u) (other : .other ∉ W)
    (tracer : .tracer ∉ W) :
    List.Forall₂ (fun n (l : Letter L) => Posted k there c' u n l.entry.note) sent new :=
  List.forall₂_iff_zip.mpr ⟨posted.length_eq, fun {n l} both => by
    have plain := charted.letters (on l (List.of_mem_zip both).2)
    exact ((List.forall₂_iff_zip.mp posted).2 both).later charted plain.1 plain.2 later other fun _ => tracer⟩

theorem Staged.posts_later (staged : Staged k there p c b w) (charted : Charted c b w) (later : Later W c w c' u)
    (other : .other ∉ W) (tracer : .tracer ∉ W) :
    List.Forall₂ (fun n (l : Letter L) => Posted k there c' u n l.entry.note) p.mail b.mail ∧
      List.Forall₂ (fun n (a : Alarm L) => Posted k there c' u n a.entry.note)
        (if p.waiting then [.tick] else []) b.timers :=
  staged.posts charted fun _ _ posted plain plain' => posted.later charted plain plain' later other fun _ => tracer

theorem Staged.plain (staged : Staged k there p c b w) (is : there x) : w.heap.Plain (k.actor x) :=
  plain_of_collectable (k.names x) (staged.own x is).1

theorem Staged.playing (staged : Staged k there p c b w) (charted : Charted c b w)
    (alert : p.running = true → w.heap.Plain k.message) (later : Later W c w c' u) (is : there x)
    (own : .plays x ∉ W) (other : .other ∉ W) (clock : x = .ticker → .clock ∉ W) : Playing k c' u p x := by
  obtain ⟨on, role, playing⟩ := staged.own x is
  exact playing.later charted on role alert later own other clock

/-- Where nothing has been written that counts, the world is as the plot has it still. -/
theorem Staged.later (staged : Staged k there p c b w) (charted : Charted c b w)
    (alert : p.running = true → w.heap.Plain k.message) (later : Later ∅ c w c' u) : Staged k there p c' b u where
  mail := (staged.posts_later charted later (Set.notMem_empty _) (Set.notMem_empty _)).1
  timers := (staged.posts_later charted later (Set.notMem_empty _) (Set.notMem_empty _)).2
  own x is := by
    obtain ⟨on, role, -⟩ := staged.own x is
    refine ⟨later.collectable _ on, (later.role _ on).trans role, ?_⟩
    exact staged.playing charted alert later is (Set.notMem_empty _) (Set.notMem_empty _) fun _ => Set.notMem_empty _
  both := staged.both

/-! ### Collections -/

theorem exists_of_forall₂ {β δ : Type} {R : β → δ → Prop} {l : List β} {m : List δ} {b : β}
    (each : List.Forall₂ R l m) (on : b ∈ l) : ∃ d ∈ m, R b d := by
  induction each with
  | nil => cases on
  | @cons b' d l m first _ ih =>
    rcases List.mem_cons.mp on with rfl | on
    · exact ⟨d, by simp, first⟩
    · obtain ⟨d', on', holds⟩ := ih on
      exact ⟨d', by simp [on'], holds⟩

theorem Posted.woken (posted : Posted k there c w .tick note) :
    note.target = k.actor .ticker ∧ note.message = k.message := by
  cases posted
  exact ⟨rfl, rfl⟩

/-- As long as the ticker runs the world holds on to it and its message. -/
theorem Staged.alert (staged : Staged k there p c b w) (charted : Charted c b u) (sane : p.Sane count now)
    (running : p.running = true) : u.heap.Plain (k.actor .ticker) ∧ u.heap.Plain k.message := by
  have woken := sane.awake running
  by_cases mailed : .tick ∈ p.mail
  · obtain ⟨l, on, posted⟩ := exists_of_forall₂ staged.mail mailed
    exact posted.woken.1 ▸ posted.woken.2 ▸ charted.letters on
  · have waiting : p.waiting = true := by simpa [List.count_eq_zero_of_not_mem mailed] using woken
    have timers := staged.timers
    rw [if_pos waiting] at timers
    obtain ⟨a, on, posted⟩ := exists_of_forall₂ timers (List.mem_singleton.mpr rfl)
    exact posted.woken.1 ▸ posted.woken.2 ▸ charted.alarms on

theorem Serving.moved {state : Ref L} (serving : Serving c w a i known state) (h : Heap L) :
    Serving c { w with heap := h } a i known state :=
  ⟨serving.isActor, serving.target, serving.holds⟩

theorem Ticking.moved (ticking : Ticking k c w last shown running) (h : Heap L) :
    Ticking k c { w with heap := h } last shown running := by
  cases ticking with
  | awake serving binds remembers spelled shows roles =>
    exact .awake (serving.moved h) binds remembers spelled shows roles
  | retired serving => exact .retired (serving.moved h)

theorem Counting.moved (counting : Counting k c w left) (h : Heap L) : Counting k c { w with heap := h } left := by
  cases counting with
  | left serving isNumber binds => exact .left (serving.moved h) isNumber binds
  | retired serving => exact .retired (serving.moved h)

theorem Playing.moved (playing : Playing k c w p x) (h : Heap L) : Playing k c { w with heap := h } p x := by
  cases x with
  | ticker => exact Ticking.moved playing h
  | counter => exact Counting.moved playing h

theorem Posted.collected {h : Heap L} (posted : Posted k there c w n note) (plain : h.Plain note.target) :
    Posted k (fun x => there x ∧ h.Collectable (k.cell x)) c { w with heap := h } n note := by
  cases posted with
  | tick is => exact .tick ⟨is, plain _ (k.names _)⟩
  | second is isNumber binds => exact .second ⟨is, plain _ (k.names _)⟩ isNumber binds
  | line isNumber binds serving role => exact .line isNumber binds (serving.moved h) role
  | stop is named binds => exact .stop ⟨is, plain _ (k.names _)⟩ named binds
  | trace serving role either => exact .trace (serving.moved h) role either

/-- A collection takes away neither of the two before it has retired, nor a letter for it. -/
theorem Staged.collected {h : Heap L} (staged : Staged k there p c b w) (charted : Charted c b { w with heap := h })
    (sane : p.Sane count now) :
    Staged k (fun x => there x ∧ h.Collectable (k.cell x)) p c b { w with heap := h } where
  mail := (staged.posts charted fun _ _ posted plain _ => posted.collected plain).1
  timers := (staged.posts charted fun _ _ posted plain _ => posted.collected plain).2
  own x is := by
    obtain ⟨-, role, playing⟩ := staged.own x is.1
    exact ⟨is.2, role, playing.moved h⟩
  both running := by
    have all := staged.both running
    have on : h.Collectable (k.cell .ticker) := (staged.alert charted sane running).1 _ (k.names _)
    -- The ticker remembers its counter.
    obtain ⟨serving, binds, -⟩ := staged.awake running
    have plainState : h.Plain _ := (serving.moved h).plain charted on
    have plain : h.Plain (k.actor .counter) :=
      Binds.plain (w := { w with heap := h }) binds charted plainState ("sec", k.actor .counter) (by simp)
    intro x
    cases x with
    | ticker => exact ⟨all _, on⟩
    | counter => exact ⟨all _, plain _ (k.names _)⟩

/-! ### Retired actors -/

theorem Staged.retired (staged : Staged k there p c b w) (is : there x) (done : Over p x) :
    Serving c w (k.actor x) (k.cell x) .sink .nil := by
  have playing := (staged.own x is).2.2
  cases x with
  | ticker =>
    have ticking : Ticking k c w p.last p.shown p.running := playing
    rw [show p.running = false from done] at ticking
    cases ticking with
    | retired serving => exact serving
  | counter =>
    have counting : Counting k c w p.left := playing
    rw [show p.left = none from done] at counting
    cases counting with
    | retired serving => exact serving

end Treadmill.World

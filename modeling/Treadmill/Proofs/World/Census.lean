import Mathlib
import Treadmill.Proofs.World.Order

/-!
What a world keeps alive, read off the world itself: gathering its roots finds that, in order, and
changes nothing (`Course.gathers_roots`).
-/

namespace Treadmill.World
variable {L : Layout} {α γ : Type} [DecidableEq α] {w : World L α γ} {b : Books L} {care : Care L}
  {r : Record L} {opened : Option (Opened L α)} {p : Point L α γ} {trace : List (Moved L α γ)}
  {now : Moment} {capacity : Nat} {traced : Bool} {guest : γ} {journal : Journal}

/-- Target and message of the entry under delivery, if there is one. -/
def underDelivery (w : World L α γ) : List (Ref L) :=
  if w.inDelivery.isNil then [] else
    let entry := w.heap.named w.inDelivery
    [entry.1, entry.2]

/-- What a move has registered. -/
def Moved.registered : Moved L α γ → List (Ref L)
  | ⟨.call (.addRoot v), .ok _⟩ => [v]
  | _ => []

/-- The registered roots, the latest first, then target and message of each entry in the mailbox, among
the timers and under delivery. -/
def census (trace : List (Moved L α γ)) (w : World L α γ) : List (Ref L) :=
  (trace.flatMap Moved.registered).reverse ++ w.mailbox.flatMap (fun m => [m.1, m.2]) ++
    w.timerList.flatMap (fun t => [t.2.1, t.2.2]) ++ w.underDelivery

omit [DecidableEq α] in
theorem Record.registered_after (r : Record L) (d : Moved L α γ) :
    (r.after d).registered = d.registered.reverse ++ r.registered := by
  obtain ⟨m, o⟩ := d
  cases m with
  | call c =>
    cases c with
    | addRoot v => cases o <;> rfl
    | sendAfter delay target message =>
      simp only [after, afterDelay, Moved.registered, List.reverse_nil, List.nil_append]
      split
      · split <;> rfl
      · rfl
      · rfl
    | heap | function | aside | gatherRoots => rfl
    | send | tick => cases o <;> rfl
  | opens | drops => rfl
  | closes => cases o <;> rfl

omit [DecidableEq α] in
theorem Record.registered_of (now : Moment) (trace : List (Moved L α γ)) :
    (of now trace).registered = (trace.flatMap Moved.registered).reverse := by
  induction trace using List.reverseRecOn with
  | nil => rfl
  | append_singleton trace d ih => simp [registered_after, ih]

omit [DecidableEq α] in
theorem Kept.underDelivery {under : List (Entry L)} (kept : Kept care b w)
    (delivers : Delivers b.current under) (on : ∀ e ∈ under, e ∈ b.held) :
    w.underDelivery = under.flatMap Entry.refs := by
  rw [World.underDelivery, kept.current]
  rcases delivers with ⟨none, rfl⟩ | ⟨e, points, rfl⟩
  · simp [none]
  · rw [points.isNil, Heap.named_of_points points, kept.entries e (Books.held_entry (on e (by simp)))]
    simp [Entry.refs]

/-- What there is to gather in `p`, where the trace `trace` has led. -/
structure Gathers (trace : List (Moved L α γ)) (p : Point L α γ) : Prop where
  gathered : gatherRoots p.logged = .ok (census trace p.world) p.logged
  tallied : p.world.pending = p.world.mailbox.length ∧ p.world.delayed = p.world.timerList.length
  sorted : p.world.timerList.Pairwise fun x y => ¬y.1 < x.1
  /-- A delivery under way has its entry there. -/
  delivering : ∀ d, p.opened = some d → p.world.underDelivery = [d.delivery.this, d.delivery.what]
  /-- While a cycle is under way no other is begun, and a log line is all that comes of asking. -/
  refused : p.world.heap.collecting = true →
    startCollect p.logged = .ok false ⟨p.world, p.logged.journal.add .cycleRefused⟩

omit [DecidableEq α] in
theorem Settled.census (settled : Settled care r b p.world p.opened)
    (same : r.registered = (trace.flatMap Moved.registered).reverse) :
    gatherRoots p.logged = .ok (census trace p.world) p.logged ∧
      ∀ d, p.opened = some d → p.world.underDelivery = [d.delivery.this, d.delivery.what] := by
  obtain ⟨under, delivers, on, told, -⟩ := settled.delivers
  have kept := settled.kept
  have standing := kept.underDelivery delivers on
  refine ⟨?_, fun d isOpen => standing.trans (told d isOpen)⟩
  rw [gatherRoots_apply kept delivers on, World.census, ← same, standing, kept.mailbox, kept.timerList,
    ← settled.registered]
  simp [Books.refs, Books.entries, List.flatMap_map, Entry.refs]

/-- Whatever was done in a world, its roots can be gathered. -/
theorem Course.gathers_roots
    (course : Course Proper (Point.new capacity traced now guest journal) trace p) : Gathers trace p := by
  obtain ⟨b, settled⟩ := course.settled
  have shows := settled.shows
  obtain ⟨gathered, delivering⟩ := settled.census (Record.registered_of now trace)
  refine
    { gathered
      tallied := ⟨shows.pending, shows.delayed⟩
      sorted := ?_
      delivering
      refused := fun busy => ?_ }
  · rw [shows.timers, List.pairwise_map]
    exact (Record.ordered now trace).timers.imp Timer.Before.not_lt
  · have busy : p.logged.state.heap.collecting = true := busy
    rw [startCollect, Task.bind_apply, gathered]
    simp only [startCollectFrom, Task.bind_apply, Task.view_apply, busy, if_true, Task.note_apply]
    rfl

/-- A registered actor with one message in the mailbox, two among the timers and one whose delivery was
dropped, in the middle of a cycle. -/
theorem errand_gathers : ∃ trace p, Course Proper quiet trace p ∧
    (p.world.inDelivery.isNil = false ∧ p.world.heap.collecting = true) ∧ p.world.mailbox.length = 1 ∧
    p.world.timerList.map Prod.fst = [⟨0, 9⟩, ⟨0, 9⟩] ∧ Gathers trace p := by
  obtain ⟨trace, p, course, ⟨left, busy, -, a, -, -, timers⟩, mail, -⟩ := errand
  exact ⟨trace, p, course, ⟨left, busy⟩, mail, by rw [timers]; rfl, course.gathers_roots⟩

end Treadmill.World

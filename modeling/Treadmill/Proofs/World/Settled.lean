import Mathlib
import Treadmill.Proofs.World.Course
import Treadmill.Proofs.World.Reading

/-!
The books of a world follow the record of its course (`Settled`): each move that is carried out finds
them settled and leaves them so.
-/

namespace Treadmill.World
variable {L : Layout} {α γ β : Type}

/-- What is held when `opened` is under way: its entry in front of the one that was under delivery
before. -/
def Under (b : Books L) : Option (Opened L α) → Prop
  | none => Delivers b.current b.held
  | some d => ∃ e outer, b.held = e :: outer ∧ b.current = d.entry ∧ d.entry.Points e.cell ∧
      Delivers d.outer outer ∧ d.delivery = ⟨e.note.target, e.note.message⟩

/-- The books of a world between two moves. -/
structure Settled (care : Care L) (r : Record L) (b : Books L) (w : World L α γ)
    (opened : Option (Opened L α)) : Prop where
  kept : Kept care b w
  hand : b.hand = []
  mail : b.mail.map (fun l => l.entry.note) = r.agenda.mail
  timers : b.timers.map Alarm.toTimer = r.agenda.timers
  clock : b.now = r.agenda.now
  outside : b.held.length + b.lost.length = r.outside
  registered : b.roots.map Root.value = r.registered
  granted : b.granted = r.granted
  under : Under b opened

/-- `o` and `u` come of a move from `w` that ends as it should and leaves the books settled, or has
exhausted the arena. -/
def Settles (care : Care L) (r : Record L) (w : World L α γ) (opened : Option (Opened L α))
    (m : Move L α γ) (o : Except Fault (Option (Ref L))) (u : World L α γ) : Prop :=
  o = .error .arenaExhausted ∧ u.Full ∨
    m.Verdict w o ∧ ∃ b, Settled care (r.after ⟨m, o⟩) b u opened

variable {s : Logged (World L α γ)} {w u : World L α γ} {b : Books L} {care care' : Care L}
  {r : Record L} {opened : Option (Opened L α)} {p : Point L α γ} {m : Move L α γ}
  {target message v : Ref L} {trace : List (Moved L α γ)}

theorem settles_exhausted (u : World L α γ) (full : u.Full) :
    Settles care r w opened m (.error .arenaExhausted) u := Or.inl ⟨rfl, full⟩

theorem settles_of {o : Except Fault (Option (Ref L))} (verdict : m.Verdict w o)
    (settled : Settled care (r.after ⟨m, o⟩) b u opened) : Settles care r w opened m o u :=
  Or.inr ⟨verdict, b, settled⟩

theorem Settles.enough {o : Except Fault (Option (Ref L))} (settles : Settles care r w opened m o u)
    (enough : o ≠ .error .arenaExhausted) :
    m.Verdict w o ∧ ∃ b, Settled care (r.after ⟨m, o⟩) b u opened :=
  settles.resolve_left fun exhausted => enough exhausted.1

/-- No verdict is that a count was to be lowered below zero, or that there is no room. -/
theorem Move.Verdict.light {o : Except Fault (Option (Ref L))} {f : Fault} (verdict : m.Verdict w o)
    (failed : o = .error f) : f.isGrave = false := by
  cases m with
  | call c =>
    cases c with
    | heap | function => exact verdict f failed
    | send target message =>
      rw [show o = _ from verdict] at failed
      split at failed
      · cases failed
      · exact Except.error.inj failed ▸ rfl
    | sendAfter delay target message =>
      simp only [Move.Verdict] at verdict
      split at verdict
      · split at verdict
        · rw [verdict] at failed
          split at failed
          · cases failed
          · exact Except.error.inj failed ▸ rfl
        · rename_i g overflow
          rw [verdict, Moment.shift_error overflow] at failed
          exact Except.error.inj failed ▸ rfl
      · rw [verdict] at failed
        exact Except.error.inj failed ▸ rfl
    | aside | addRoot | gatherRoots | tick =>
      rw [show o = _ from verdict] at failed
      cases failed
  | opens => exact verdict f failed
  | closes | drops =>
    rw [show o = _ from verdict] at failed
    cases failed

theorem Settles.full {o : Except Fault (Option (Ref L))} (settles : Settles care r w opened m o u)
    (exhausted : o = .error .arenaExhausted) : u.Full := by
  rcases settles with ⟨-, full⟩ | ⟨verdict, -⟩
  · exact full
  · cases verdict.light exhausted

theorem ends_outcome {t : WorldTask L α γ (Option (Ref L))}
    {P : Except Fault (Option (Ref L)) → World L α γ → Prop}
    (ends : t.Ends s (fun a => P (.ok a)) (fun f => P (.error f))) :
    P (outcomeOf (t s)) (stateAfter (t s)).state := by
  unfold Task.Ends at ends
  cases ran : t s <;> simpa [ran, outcomeOf, stateAfter] using ends

theorem settled_empty {traced : Bool} (stands : care.Stands (Heap.empty traced)) (capacity : Nat)
    (now : Moment) (guest : γ) :
    Settled care (Record.empty now) ⟨[], [], [], [], [], [], [], [], .nil, now⟩
      (World.empty capacity traced now guest : World L α γ) none where
  kept :=
    { mail := ⟨rfl, by simp, Or.inl ⟨rfl, rfl⟩⟩
      timers := ⟨rfl, by simp⟩
      pool := rfl
      roots := rfl
      values := by simp
      entries := by simp [Books.entries]
      pending := rfl
      delayed := rfl
      current := rfl
      clock := rfl
      stock :=
        { sound := Heap.sound_empty traced
          distinct := .nil
          own := fun i => ⟨fun fixed => absurd fixed (Heap.not_fixed_empty traced i), fun on => by
            simp [Books.cells, Books.own, Books.filed, Books.nodes, Books.entries] at on⟩
          kept := by simp [Books.refs, Books.entries]
          stands := stands }
      used := rfl
      most := rfl }
  hand := rfl
  mail := rfl
  timers := rfl
  clock := rfl
  outside := rfl
  registered := rfl
  granted := rfl
  under := Or.inl ⟨rfl, rfl⟩

/-! ### Calls -/

namespace Settled
variable (settled : Settled care r b s.state opened)
include settled

theorem send (admitsTarget : care.Admits s.state.heap target)
    (admitsMessage : care.Admits s.state.heap message) :
    (do World.send target message; return none : WorldTask L α γ (Option (Ref L))).Ends s
      (fun a => Settles care r s.state opened (.call (.send target message)) (.ok a))
      (fun f => Settles care r s.state opened (.call (.send target message)) (.error f)) := by
  refine Task.Ends.bind (send_ends settled.kept admitsTarget admitsMessage r.agenda.sent
    settles_exhausted fun isActor => settles_of (by simp [Move.Verdict, isActor]) settled) ?_
  rintro - u ⟨isActor, l, pool, note, kept⟩
  refine Task.ends_pure (settles_of (by simp [Move.Verdict, isActor]) { settled with kept, mail := ?_ })
  simp [Record.after, Agenda.post, settled.mail, note]

theorem map_takeWhile (reading : Moment) :
    (b.timers.takeWhile (Alarm.isDue reading)).map Alarm.toTimer =
      r.agenda.timers.takeWhile (Timer.isDue reading) := by
  rw [← settled.timers, List.takeWhile_map]
  rfl

theorem map_dropWhile (reading : Moment) :
    (b.timers.dropWhile (Alarm.isDue reading)).map Alarm.toTimer =
      r.agenda.timers.dropWhile (Timer.isDue reading) := by
  rw [← settled.timers, List.dropWhile_map]
  rfl

theorem sendAfter (admitsTarget : care.Admits s.state.heap target)
    (admitsMessage : care.Admits s.state.heap message) (delay : Int) :
    (do World.sendAfter delay target message; return none : WorldTask L α γ (Option (Ref L))).Ends s
      (fun a => Settles care r s.state opened (.call (.sendAfter delay target message)) (.ok a))
      (fun f => Settles care r s.state opened (.call (.sendAfter delay target message)) (.error f)) := by
  have clock := settled.clock
  refine Task.Ends.bind (sendAfter_ends settled.kept admitsTarget admitsMessage delay r.agenda.sent
    settles_exhausted
    (fun isActor => settles_of (by simp [Move.Verdict, isActor]) settled)
    (fun isActor f overflow => ?_) fun isActor due c pool u isDue range kept => ?_) ?_
  · obtain rfl := Moment.shift_error overflow
    rw [settled.kept.clock.symm] at overflow
    exact settles_of (by simp [Move.Verdict, isActor, overflow]) settled
  · rw [settled.kept.clock.symm] at isDue
    refine settles_of (by simp [Move.Verdict, isActor, isDue, range]) { settled with kept, outside := ?_ }
    simp only [Record.after, Record.afterDelay, ← settled.outside, List.length_cons]
    omega
  · rintro - u ⟨isActor, a, pool, isDue, range, note, kept⟩
    have verdict : Move.Verdict s.state (.ok none)
        (.call (.sendAfter delay target message) : Move L α γ) := by
      rw [settled.kept.clock.symm] at isDue
      simp [Move.Verdict, isActor, isDue, range]
    rw [clock] at isDue
    have same : r.after (⟨.call (.sendAfter delay target message), .ok none⟩ : Moved L α γ) =
        { r with agenda := r.agenda.delay a.due target message } := by
      simp [Record.after, Record.afterDelay, isDue]
    refine Task.ends_pure (Or.inr ⟨verdict, ?_⟩)
    rw [same]
    refine ⟨_, { settled with kept, timers := ?_ }⟩
    rw [List.map_append, List.map_cons, settled.map_takeWhile, settled.map_dropWhile]
    simp [Agenda.delay, Agenda.insertTimer, Alarm.toTimer, note]

theorem tick (reading : Moment) :
    (do World.tick reading; return none : WorldTask L α γ (Option (Ref L))).Ends s
      (fun a => Settles care r s.state opened (.call (.tick reading)) (.ok a))
      (fun f => Settles care r s.state opened (.call (.tick reading)) (.error f)) := by
  refine Task.Ends.bind (tick_ends settled.kept reading settles_exhausted) ?_
  rintro - u ⟨letters, pool, same, kept⟩
  refine Task.ends_pure (settles_of rfl
    { settled with kept, mail := ?_, timers := ?_, clock := rfl })
  · have moved := settled.map_takeWhile reading
    have notes := congrArg (List.map Entry.note) same
    rw [List.map_map, List.map_map] at notes
    have timers := congrArg (List.map Timer.note) moved
    rw [List.map_map] at timers
    simp only [Record.after, Agenda.tick, List.map_append, settled.mail, ← timers]
    exact congrArg _ notes
  · exact settled.map_dropWhile reading

theorem addRoot (admits : care.Admits s.state.heap v) :
    (do World.addRoot v; return none : WorldTask L α γ (Option (Ref L))).Ends s
      (fun a => Settles care r s.state opened (.call (.addRoot v)) (.ok a))
      (fun f => Settles care r s.state opened (.call (.addRoot v)) (.error f)) := by
  refine Task.Ends.bind (addRoot_ends settled.kept admits (settles_exhausted _)) ?_
  rintro - u ⟨i, kept⟩
  refine Task.ends_pure (settles_of rfl { settled with kept, registered := ?_ })
  simp [Record.after, settled.registered]

theorem delivers : ∃ under, Delivers b.current under ∧ (∀ e ∈ under, e ∈ b.held) ∧
    (∀ d, opened = some d → under.flatMap Entry.refs = [d.delivery.this, d.delivery.what]) ∧
    (opened = none → under = b.held) := by
  have under := settled.under
  unfold Under at under
  cases opened with
  | none => exact ⟨b.held, under, fun _ => id, by simp, fun _ => rfl⟩
  | some d =>
    obtain ⟨e, outer, held, current, points, -, told⟩ := under
    exact ⟨[e], Or.inr ⟨e, current ▸ points, rfl⟩, by simp [held], by simp [told, Entry.refs], by simp⟩

/-- The roots of a settled world can be gathered: what is on record, and target and message of the
entry under delivery. They stand in the books, and between deliveries nothing else does. -/
theorem gathered : ∃ delivering, gatherRoots s = .ok (r.refs ++ delivering) s ∧
    (∀ d, opened = some d → delivering = [d.delivery.this, d.delivery.what]) ∧
    (∀ v ∈ r.refs ++ delivering, v ∈ b.refs) ∧ (opened = none → r.refs ++ delivering = b.refs) := by
  obtain ⟨under, delivers, on, told, all⟩ := settled.delivers
  have gathered := gatherRoots_apply settled.kept delivers on
  have shape : Books.refs { b with held := under } = r.refs ++ under.flatMap Entry.refs := by
    have mail : b.mail.flatMap (fun l => l.entry.refs) = r.agenda.mail.flatMap Note.refs := by
      rw [← settled.mail, List.flatMap_map]
      rfl
    have timers : b.timers.flatMap (fun a => a.entry.refs) =
        (r.agenda.timers.map Timer.note).flatMap Note.refs := by
      rw [← settled.timers, List.map_map, List.flatMap_map]
      rfl
    simp only [Books.refs, Books.entries, Record.refs, settled.registered, List.flatMap_append,
      List.flatMap_map, mail, timers, List.append_assoc]
  rw [shape] at gathered
  refine ⟨_, gathered, told, fun v member => ?_, fun idle => by rw [← shape, all idle]⟩
  rw [← shape] at member
  refine Books.refs_mono (b := b) (c := { b with held := under }) (fun _ => id) (fun e entry => ?_) member
  simp only [Books.entries, List.mem_append] at entry ⊢
  exact entry.imp id (on e)

theorem beside (same : Beside s.state u) (m : Move L α γ) (o : Except Fault (Option (Ref L)))
    (silent : r.after ⟨m, o⟩ = r) (verdict : m.Verdict s.state o) :
    Settles care r s.state opened m o u :=
  settles_of verdict (silent.symm ▸ { settled with kept := settled.kept.beside same })

theorem function [DecidableEq α] (known : Behavior α) :
    (do return some (← World.function known) : WorldTask L α γ (Option (Ref L))).Ends s
      (fun a => Settles care r s.state opened (.call (.function known)) (.ok a))
      (fun f => Settles care r s.state opened (.call (.function known)) (.error f)) := by
  have here : Beside s.state s.state := ⟨rfl, rfl, rfl, rfl, rfl, rfl, rfl, rfl, rfl, rfl, rfl, rfl⟩
  suffices ends : (World.function known).Ends s (fun _ => Beside s.state) fun f =>
      Settles care r s.state opened (.call (.function known)) (.error f) from ends.bind fun _ u same =>
    Task.ends_pure (settled.beside same _ _ rfl (by simp [Move.Verdict]))
  refine Task.ends_view ?_
  cases s.state.behaviors.idxOf? known with
  | some i =>
    exact Task.ends_ofExcept_last (fun _ _ => here) fun f failed =>
      settled.beside here _ _ rfl (by simp [Move.Verdict, Ref.func_error failed, Fault.isGrave])
  | none =>
    have grown : Beside s.state { s.state with behaviors := s.state.behaviors.push known } :=
      ⟨rfl, rfl, rfl, rfl, rfl, rfl, rfl, rfl, rfl, rfl, rfl, rfl⟩
    exact Task.ends_alter (Task.ends_ofExcept_last (fun _ _ => grown) fun f failed =>
      settled.beside grown _ _ rfl (by simp [Move.Verdict, Ref.func_error failed, Fault.isGrave]))

end Settled

/-! ### Moves and the books -/

theorem outcome_onHeap (t : HeapTask L β) (s : Logged (World L α γ)) :
    outcomeOf (onHeap t s) = outcomeOf (t ⟨s.state.heap, s.journal⟩) := by
  cases ran : t ⟨s.state.heap, s.journal⟩ with
  | ok a u => rw [onHeap_ok ran]; rfl
  | error f u => rw [onHeap_error ran]; rfl

theorem stateAfter_onHeap (t : HeapTask L β) (s : Logged (World L α γ)) :
    (stateAfter (onHeap t s)).state =
      { s.state with heap := (stateAfter (t ⟨s.state.heap, s.journal⟩)).state } := by
  cases ran : t ⟨s.state.heap, s.journal⟩ with
  | ok a u => rw [onHeap_ok ran]; rfl
  | error f u => rw [onHeap_error ran]; rfl

section
variable [DecidableEq α]

/-- Where work on the heap of a world leads. -/
theorem world_heap (p : Point L α γ) (op : Op L) : (p.after (.call (.heap op))).world =
    { p.world with heap := (stateAfter (op.task ⟨p.world.heap, p.logged.journal⟩)).state } :=
  stateAfter_onHeap op.task p.logged

variable (settled : Settled care r b p.world p.opened)
include settled

theorem Settled.heap (op : Op L) (held : ∀ v ∈ op.operands, p.world.heap.Holds v)
    (spared : ∀ i ∈ b.own, op.writes ≠ some i)
    (guards : ∀ v ∈ b.refs, care'.Guards (p.after (.call (.heap op))).world.heap v)
    (stands : care'.Stands (p.after (.call (.heap op))).world.heap) :
    Settles care' r p.world p.opened (.call (.heap op)) (p.moved (.call (.heap op))).outcome
      (p.after (.call (.heap op))).world := by
  have step := op.step (s := ⟨p.world.heap, p.logged.journal⟩) settled.kept.stock.sound held
  rw [world_heap] at guards stands ⊢
  have worked := settled.kept.worked step spared guards stands
  have outcome : (p.moved (.call (.heap op))).outcome =
      outcomeOf (op.task ⟨p.world.heap, p.logged.journal⟩) := outcome_onHeap op.task p.logged
  rw [outcome]
  have grave := fun f => op.grave (s := ⟨p.world.heap, p.logged.journal⟩) (f := f)
    settled.kept.stock.sound held
  by_cases exhausted : outcomeOf (op.task ⟨p.world.heap, p.logged.journal⟩) = .error .arenaExhausted
  · exact Or.inl ⟨exhausted, (grave _ exhausted rfl).2⟩
  · refine settles_of (fun f failed => ?_)
      { settled with kept := worked, granted := congrArg (· ++ _) settled.granted }
    by_contra isGrave
    rw [Bool.not_eq_false] at isGrave
    exact exhausted ((grave f failed isGrave).1 ▸ failed)

theorem Settled.call (c : Call L α γ) (noHeap : ∀ op, c ≠ .heap op)
    (admits : ∀ v ∈ c.operands, care.Admits p.world.heap v) :
    Settles care r p.world p.opened (.call c) (p.moved (.call c)).outcome (p.after (.call c)).world := by
  suffices ends : c.task.Ends p.logged (fun a => Settles care r p.world p.opened (.call c) (.ok a))
      (fun f => Settles care r p.world p.opened (.call c) (.error f)) from ends_outcome ends
  cases c with
  | heap op => exact absurd rfl (noHeap op)
  | function known => exact settled.function known
  | send target message =>
    exact settled.send (admits _ (by simp [Call.operands])) (admits _ (by simp [Call.operands]))
  | sendAfter delay target message =>
    exact settled.sendAfter (admits _ (by simp [Call.operands]))
      (admits _ (by simp [Call.operands])) delay
  | aside symbols guest journal =>
    have same : Beside p.world { p.world with symbols, guest } :=
      ⟨rfl, rfl, rfl, rfl, rfl, rfl, rfl, rfl, rfl, rfl, rfl, rfl⟩
    exact settled.beside same (.call (.aside symbols guest journal)) (.ok none) rfl rfl
  | addRoot v => exact settled.addRoot (admits _ (by simp [Call.operands]))
  | gatherRoots =>
    obtain ⟨_, gathered, -⟩ := settled.gathered
    exact Task.ends_bind_ok gathered (Task.ends_pure (settles_of rfl settled))
  | tick reading => exact settled.tick reading

/-- Opening a delivery takes the first message, be it that its behavior cannot be found. -/
theorem Settled.opens (fits : Move.Fits .opens p)
    (admits : ∀ l ∈ b.mail.head?, care.Admits p.world.heap l.entry.note.target) :
    Settles care r p.world (p.after .opens).opened .opens (p.moved .opens).outcome (p.after .opens).world := by
  obtain ⟨idle, filled⟩ := fits
  have isNil := settled.kept.mail.chain.isNil
  rw [filled] at isNil
  cases shape : b.mail with
  | nil => simp [shape] at isNil
  | cons l mail =>
    have ends := openLetter_ends (s := p.logged) settled.kept shape (admits l (by simp [shape]))
    have under := settled.under
    rw [idle] at under
    have rest : mail.map (fun l => l.entry.note) = r.agenda.take.mail := by
      simp [Agenda.take, ← settled.mail, shape]
    have outside := settled.outside
    simp only [Point.moved, Point.after, Move.next]
    cases ran : openLetter p.logged with
    | ok d u =>
      obtain ⟨points, outer, told, -, kept⟩ := ends.of_ok ran
      refine settles_of (by simp [Move.Verdict]) { settled with kept, mail := rest, outside := ?_, under := ?_ }
      · simp only [Record.after, List.length_cons]
        omega
      · exact ⟨l.entry, b.held, rfl, rfl, points, outer.symm ▸ under, told⟩
    | error f u =>
      obtain ⟨sober, kept, -⟩ := ends.of_error ran
      refine settles_of (by simpa [Move.Verdict] using sober)
        { settled with kept, mail := rest, outside := ?_, under }
      simp only [Record.after, List.length_cons]
      omega

theorem Settled.closes (fits : Move.Fits .closes p) :
    Settles care r p.world (p.after .closes).opened .closes (p.moved .closes).outcome
      (p.after .closes).world := by
  obtain ⟨d, under⟩ := Option.isSome_iff_exists.mp fits
  have books := settled.under
  rw [under] at books
  obtain ⟨e, outer, held, current, points, delivers, -⟩ := books
  have ends : (closeLetter d).Ends p.logged (fun _ u => Kept care
      { b with held := outer, pool := e.cell :: b.pool, current := d.outer } u) fun _ _ => False :=
    closeLetter_ends settled.kept held points
  have outside := settled.outside
  simp only [Point.moved, Point.after, Move.next, under]
  cases ran : closeLetter d p.logged with
  | error f u => exact (ends.of_error ran).elim
  | ok _ u =>
    refine settles_of rfl
      { settled with kept := ends.of_ok ran, outside := ?_, under := delivers }
    simp only [held, List.length_cons] at outside
    simp only [Record.after]
    omega

/-- A delivery that is dropped stays under delivery as far as the collector is concerned. -/
theorem Settled.drops (fits : Move.Fits .drops p) :
    Settles care r p.world (p.after .drops).opened .drops (p.moved .drops).outcome (p.after .drops).world := by
  obtain ⟨d, under⟩ := Option.isSome_iff_exists.mp fits
  have books := settled.under
  rw [under] at books
  obtain ⟨e, outer, held, current, points, -, -⟩ := books
  have outside := settled.outside
  refine settles_of rfl
    { settled with kept := settled.kept.dropped held, outside := ?_, under := ?_ }
  · simp only [held, List.length_cons] at outside
    simp only [Record.after, List.length_append, List.length_map, List.length_singleton]
    omega
  · exact Or.inr ⟨e, current ▸ points, rfl⟩

/-- A move leaves the books settled if work on the heap does. Another care may be taken afterwards, but
only of work on the heap. -/
theorem Settled.next (fits : m.Fits p)
    (heap : ∀ op, m = .call (.heap op) → Settles care' r p.world p.opened (.call (.heap op))
      (p.moved (.call (.heap op))).outcome (p.after (.call (.heap op))).world)
    (same : (∀ op, m ≠ .call (.heap op)) → care' = care)
    (admits : ∀ c, m = .call c → ∀ v ∈ c.operands, care.Admits p.world.heap v)
    (first : m = .opens → ∀ l ∈ b.mail.head?, care.Admits p.world.heap l.entry.note.target) :
    Settles care' r p.world (p.after m).opened m (p.moved m).outcome (p.after m).world := by
  cases m with
  | call c =>
    by_cases isHeap : ∃ op, c = .heap op
    · obtain ⟨op, rfl⟩ := isHeap
      exact heap op rfl
    · rw [same fun op it => isHeap ⟨op, by simpa using it⟩]
      exact settled.call c (fun op it => isHeap ⟨op, it⟩) (admits c rfl)
  | opens =>
    rw [same (by simp)]
    exact settled.opens fits (first rfl)
  | closes =>
    rw [same (by simp)]
    exact settled.closes fits
  | drops =>
    rw [same (by simp)]
    exact settled.drops fits

end

end Treadmill.World

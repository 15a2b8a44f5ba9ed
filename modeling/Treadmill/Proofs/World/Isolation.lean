import Mathlib
import Treadmill.Proofs.World.Aware

/-!
Actors are kept apart in a fair course (`Course.apart`): there is one reference to each cell, every actor has
the behavior last given for it, and none is changed by a message to another.
-/

namespace Treadmill.World
variable {L : Layout} {α γ : Type} [DecidableEq α]
  {allows : List (Moved L α γ) → Point L α γ → Move L α γ → Prop} {start p q : Point L α γ}
  {trace more : List (Moved L α γ)} {m : Move L α γ} {l : Lore L α} {now : Moment} {capacity : Nat}
  {traced : Bool} {guest : γ} {journal : Journal} {d : Opened L α} {e : Issue L α} {i : Nat}

/-! ### Behaviors -/

/-- The actor `a`, which has not been swept, was last given the behavior `c`. -/
def Lore.Gives (l : Lore L α) (a : Ref L) (c : Behavior α) : Prop :=
  ∃ e ∈ l.issues, e.swept = false ∧ e.asActor = true ∧ e.ref = a ∧ e.given = some c

omit [DecidableEq α] in
theorem Told.gives {w : World L α γ} {a : Ref L} (told : Told l w) (live : a ∈ l.live)
    (isActor : a.isActor = true) :
    ∃ c, Lore.Gives l a c ∧ ∃ i, a.target? = some i ∧ w.Means (w.heap.contents i).1 c := by
  obtain ⟨e, on, unswept, rfl⟩ := Lore.mem_live.mp live
  have asActor := (told.kinds e on).trans isActor
  obtain ⟨c, i, given, target, held⟩ := told.given e on unswept asActor
  have means := told.names _ held
  exact ⟨c, ⟨e, on, unswept, asActor, rfl, given⟩, i, target, means⟩

/-- The behavior of an actor can be looked up. -/
theorem Aware.behaviorOf {a : Ref L} {c : Behavior α} (aware : Aware now start trace p)
    (live : a ∈ (loreOf start trace).live) (isActor : a.isActor = true) (target : a.target? = some i)
    (means : p.world.Means (p.world.heap.contents i).1 c) :
    outcomeOf (World.behaviorOf a p.logged) = .ok c := by
  obtain ⟨b, settled⟩ := aware.settled
  have stands := settled.kept.stock.stands
  have ends := behaviorOf_ends (s := p.logged) settled.kept ⟨stands.2.refs a live, Or.inr live⟩
  have steady := Steady.setup (t := (World.behaviorOf a : WorldTask L α γ (Behavior α))) p.logged
  -- Looking up leaves the behaviors and the slots of the actor as they are.
  have found : ∀ {u : World L α γ} {b : Books L}, u.setup = p.world.setup →
      Kept (informed (loreOf start trace).live (lastStored trace)) b u → u.behaviorAt? a = some c := by
    intro u b same kept
    refine Means.behaviorAt? ?_ target
    have before := (stands.1 i (stands.2.refs a live i target)).2
    have after := (kept.stock.stands.1 i (kept.stock.stands.2.refs a live i target)).2
    rw [after, ← before]
    exact means.broadened (broadens_of_setup same)
  cases ran : World.behaviorOf a p.logged with
  | ok c' s =>
    rw [ran] at steady
    obtain ⟨isFound, kept⟩ := ends.of_ok ran
    rw [show s.state.behaviorAt? a = some c from found steady kept, Option.some.injEq] at isFound
    exact congrArg _ isFound.symm
  | error f s =>
    rw [ran] at steady
    obtain ⟨-, kept, lacks⟩ := ends.of_error ran
    have lacks := lacks isActor
    rw [show s.state.behaviorAt? a = some c from found steady kept] at lacks
    cases lacks

theorem Aware.deliverable {d : Delivery L} (aware : Aware now start trace p)
    (target : d.this ∈ (loreOf start trace).live) (isActor : d.this.isActor = true)
    (message : (loreOf start trace).Allows d.what) : Deliverable p.world d := by
  obtain ⟨b, settled⟩ := aware.settled
  obtain ⟨holding, kin⟩ := settled.kept.stock.stands
  obtain ⟨c, -, i, named, means⟩ := aware.told.gives target isActor
  have closed := fun i on => (holding i on).1
  exact
    { isActor := isActor
      behavior := by simp [means.behaviorAt? named]
      target := fun _ => Data.showFrom_whole settled.kept.stock.sound closed (kin.refs _ target)
      message := fun _ => Data.showFrom_whole settled.kept.stock.sound closed
        (message.elim Heap.plain_of_target? (kin.refs _)) }

theorem fair_opens (start : Point L α γ) (trace : List (Moved L α γ)) (p : Point L α γ) :
    Fair start trace p .opens :=
  ⟨by simp [Move.given], trivial, by simp, by simp⟩

/-- A delivery can be opened, and its behavior is the one last given for its target. -/
theorem Aware.opens (aware : Aware now start trace p) (course : Course allows start trace p)
    (fits : Move.Fits .opens p) :
    ∃ d, (p.after .opens).opened = some d ∧ Lore.Gives (loreOf start trace) d.delivery.this d.behavior ∧
      ∀ host : Host L α γ, dispatch host p.logged =
        (do act host d.behavior d.delivery; closeLetter d; return true : WorldTask L α γ Bool)
          (p.after .opens).logged := by
  obtain ⟨b, settled⟩ := aware.settled
  obtain ⟨l, mail, shape, inLine⟩ := settled.letter fits
  have guards := settled.kept.entry (Books.letter_entry (l := l) (by simp [shape]))
  have target := guards l.entry.note.target (by simp [Entry.refs])
  have message := guards l.entry.note.message (by simp [Entry.refs])
  have isActor := aware.addressed _ inLine
  have admits : (informed (loreOf start trace).live (lastStored trace)).Admits p.world.heap
      l.entry.note.target := ⟨target.1.1, target.2⟩
  have live : l.entry.note.target ∈ (loreOf start trace).live := target.2.resolve_left (by
    simp [Ref.target?_of_isActor isActor])
  have ends := openLetter_ends (s := p.logged) settled.kept shape admits
  have light : ∀ f, (p.moved .opens).outcome = .error f → f.isGrave = false := by
    intro f failed
    simp only [Point.moved, Move.next] at failed
    cases ran : openLetter p.logged with
    | ok d s => simp [ran] at failed
    | error g s =>
      obtain ⟨light, -⟩ := ends.of_error ran
      simp only [ran, Except.error.injEq] at failed
      exact failed ▸ light
  have next := aware.next course fits (fair_opens ..) fun exhausted => by
    cases light _ exhausted
  have same : (loreOf start (trace ++ [p.moved .opens])) = loreOf start trace := by
    rw [course.lore]
    rfl
  have fine : Deliverable (p.after .opens).world ⟨l.entry.note.target, l.entry.note.message⟩ :=
    next.deliverable (by rwa [same]) isActor (by rw [same]; exact message.2)
  obtain ⟨target', message', rest, first, ⟨d, opened, told, found, runs⟩ | ⟨never, -⟩⟩ :=
    settled.delivered fits fun l' on => by
      obtain rfl : l = l' := by simpa [shape] using on
      exact admits
  all_goals
    rw [settled.kept.mailbox, shape, List.map_cons, List.cons.injEq, Prod.mk.injEq] at first
    obtain ⟨⟨rfl, rfl⟩, -⟩ := first
  · refine ⟨d, opened, ?_, runs⟩
    obtain ⟨c, gives, i, named, means⟩ := next.told.gives (by rwa [same]) isActor
    rw [means.behaviorAt? named, Option.some.injEq] at found
    rw [told, ← found, ← same]
    exact gives
  · exact absurd fine never

/-! ### Deliveries to others -/

/-- Entries stay in their place, and one that is unswept was so before. -/
theorem Lore.issue_after (l : Lore L α) (k : Heap L) (p : Point L α γ) (m : Move L α γ) {n : Nat}
    (here : l.issues[n]? = some e) : ∃ e', (l.after k (p.moved m)).issues[n]? = some e' ∧
      e'.ref = e.ref ∧ e'.asActor = e.asActor ∧ (e'.swept = false → e.swept = false) := by
  unfold Lore.after
  split
  · exact ⟨e, here, rfl, rfl, id⟩
  · rename_i op o _
    refine ⟨l.update ⟨op, o⟩ k e, ?_, Lore.ref_update .., Lore.asActor_update ..,
      fun unswept => (Lore.update_unswept.mp unswept).1⟩
    obtain ⟨inside, same⟩ := List.getElem?_eq_some_iff.mp here
    simp [Lore.record, List.getElem?_append_left, inside, same]
  · exact ⟨e, here, rfl, rfl, id⟩

/-- A move changes no actor but the one of the delivery under way. -/
theorem Aware.spares (aware : Aware now start trace p) (course : Course allows start trace p)
    (fits : m.Fits p) (fair : Fair start trace p m)
    (enough : (p.moved m).outcome ≠ .error .arenaExhausted)
    (on : e ∈ (loreOf start trace).issues) (unswept : e.swept = false) (asActor : e.asActor = true)
    (other : ∀ d, p.opened = some d → e.ref ≠ d.delivery.this) (target : e.ref.target? = some i) :
    (p.after m).world.heap.contents i = p.world.heap.contents i := by
  obtain ⟨b, settled⟩ := aware.settled
  have live : e.ref ∈ (loreOf start trace).live := Lore.mem_live.mpr ⟨e, on, unswept, rfl⟩
  have stock := settled.kept.stock
  by_cases isHeap : ∃ op, m = .call (.heap op)
  · obtain ⟨op, rfl⟩ := isHeap
    rw [world_heap]
    have allowed : ∀ v ∈ op.operands, p.world.heap.Holds v ∧ (loreOf start trace).Allows v := fun v on =>
      ⟨((fair.allowed v on).elim Heap.plain_of_target? (stock.stands.2.refs v)).holds, fair.allowed v on⟩
    rcases aware.told.written (s := ⟨p.world.heap, p.logged.journal⟩) stock.sound allowed on unswept asActor
      target (Or.inl (stock.stands.2.refs _ live i target)) with ⟨same, -⟩ | ⟨f, st, rfl, -⟩
    · exact same
    · obtain ⟨-, d, under, mine⟩ := fair.becomes _ f st rfl
      exact absurd mine.symm (other d under)
  · have noHeap : ∀ op, m ≠ .call (.heap op) := fun op same => isHeap ⟨op, same⟩
    obtain ⟨b', settled'⟩ := (aware.next course fits fair enough).settled
    have same : (loreOf start (trace ++ [p.moved m])).live = (loreOf start trace).live := by
      rw [course.lore, Lore.live, Lore.after_other _ _ _ noHeap]
      rfl
    rw [same] at settled'
    exact settled.untouched settled' noHeap live target

/-- What `e` says of the actor has not changed from `p` to `q`, unless its cell was swept. -/
def Spared (l : Lore L α) (n : Nat) (e : Issue L α) (p q : Point L α γ) : Prop :=
  ∃ e', l.issues[n]? = some e' ∧ e'.ref = e.ref ∧ e'.asActor = e.asActor ∧
    (e'.swept = false → e.swept = false ∧
      ∀ i, e.ref.target? = some i → q.world.heap.contents i = p.world.heap.contents i)

theorem Spared.next {n : Nat} {s : Point L α γ} (spared : Spared (loreOf start trace) n e s p)
    (aware : Aware now start trace p) (course : Course allows start trace p) (fits : m.Fits p)
    (fair : Fair start trace p m) (enough : (p.moved m).outcome ≠ .error .arenaExhausted)
    (asActor : e.asActor = true) (other : ∀ d, p.opened = some d → e.ref ≠ d.delivery.this) :
    Spared (loreOf start (trace ++ [p.moved m])) n e s (p.after m) := by
  obtain ⟨e', here, ref, same, still⟩ := spared
  obtain ⟨e'', here', ref', same', before⟩ := Lore.issue_after _ (p.after m).world.heap p m here
  rw [course.lore]
  refine ⟨e'', here', ref'.trans ref, same'.trans same, fun unswept => ?_⟩
  obtain ⟨first, unchanged⟩ := still (before unswept)
  refine ⟨first, fun i target => ?_⟩
  rw [← unchanged i target]
  exact aware.spares course fits fair enough (List.mem_of_getElem? here) (before unswept)
    (same.trans asActor) (ref.symm ▸ other) (ref.symm ▸ target)

/-- While the delivery `d` is under way, and until the next one, no actor changes but its own. -/
theorem Course.spared {n : Nat} (course : Course (Fair start) start trace p)
    (isNew : start = Point.new capacity traced now guest journal) (idle : p.opened = none)
    (opened : (p.after .opens).opened = some d)
    (later : Course (Fair start) start (trace ++ p.moved .opens :: more) q)
    (within : ∀ x ∈ more, x.move ≠ .opens) (here : (loreOf start trace).issues[n]? = some e)
    (asActor : e.asActor = true) (other : e.ref ≠ d.delivery.this) :
    (q.opened = none ∨ q.opened = some d) ∧
      Spared (loreOf start (trace ++ p.moved .opens :: more)) n e p q := by
  induction more using List.reverseRecOn generalizing q with
  | nil =>
    obtain ⟨p', m, course', fits, fair, enough, move, rfl⟩ := later.of_concat
    obtain rfl : p' = p := course'.replay.symm.trans course.replay
    obtain rfl : .opens = m := congrArg Moved.move move
    refine ⟨Or.inr opened, ?_⟩
    have start : Spared (loreOf start trace) n e p' p' :=
      ⟨e, here, rfl, rfl, fun unswept => ⟨unswept, fun _ _ => rfl⟩⟩
    exact start.next (course.aware isNew) course fits fair enough asActor (by simp [idle])
  | append_singleton more x ih =>
    rw [← List.cons_append, ← List.append_assoc] at later ⊢
    obtain ⟨p', m, course', fits, fair, enough, rfl, rfl⟩ := later.of_concat
    obtain ⟨under, spared⟩ := ih course' fun y on => within y (by simp [on])
    refine ⟨?_, spared.next (course'.aware isNew) course' fits fair enough asActor fun d' same => ?_⟩
    · have notOpens : m ≠ .opens := within (p'.moved m) (by simp)
      cases m with
      | call c => exact under
      | opens => exact absurd rfl notOpens
      | closes =>
        refine Or.inl ?_
        simp only [Point.after, Move.next]
        split
        · assumption
        · split <;> rfl
      | drops => exact Or.inl rfl
    · rcases under with none | some
      · simp [none] at same
      · obtain rfl : d = d' := by simpa [some] using same
        exact other

/-! ### Isolation -/

/-- What the user of a world can come across: what ordinary cells hold, the registered roots, and target
and message of each entry. -/
def Mentions (w : World L α γ) (roots : List (Ref L)) (v : Ref L) : Prop :=
  v ∈ roots ∨ ∃ i, w.heap.Collectable i ∧ v ∈ w.heap.slots i

structure Isolated (start : Point L α γ) (trace : List (Moved L α γ)) (p : Point L α γ) : Prop where
  /-- No cell is named by a pair and by an actor, and all that names a cell has been answered. -/
  kinds : ∃ roots, gatherRoots p.logged = .ok roots p.logged ∧
    (∀ d, p.opened = some d → d.delivery.this ∈ roots ∧ d.delivery.what ∈ roots) ∧
    (∀ v, Mentions p.world roots v → (loreOf start trace).Allows v) ∧
    ∀ v w i, Mentions p.world roots v → Mentions p.world roots w → v.cell = .ok i → w.cell = .ok i →
      v.kind = w.kind
  answers : ∀ m : Move L α γ, m.Fits p → Fair start trace p m → ∀ r,
    (p.moved m).outcome = .ok (some r) → (loreOf start (trace ++ [p.moved m])).Allows r
  /-- An actor holds a reference of the behavior last given for it, and looking it up finds that. -/
  registered : ∀ e ∈ (loreOf start trace).issues, e.swept = false → e.asActor = true →
    e.ref.isActor = true ∧ ∃ c i n, e.given = some c ∧ e.ref.target? = some i ∧
      p.world.heap.Collectable i ∧ (p.world.heap.contents i).1.asFunc = .ok n ∧
      p.world.behaviors[n]? = some c ∧ outcomeOf (behaviorOf e.ref p.logged) = .ok c
  current : ∀ d, p.opened = some d →
    ∃ c, Lore.Gives (loreOf start trace) d.delivery.this c ∧
      outcomeOf (behaviorOf d.delivery.this p.logged) = .ok c
  opens : Move.Fits .opens p → ∃ d, (p.after .opens).opened = some d ∧
    Lore.Gives (loreOf start trace) d.delivery.this d.behavior ∧
    ∀ host : Host L α γ, dispatch host p.logged =
      (do act host d.behavior d.delivery; closeLetter d; return true : WorldTask L α γ Bool)
        (p.after .opens).logged
  /-- A delivery leaves every actor but its own as it was, or to be swept. -/
  spares : p.opened = none → ∀ d more q, (p.after .opens).opened = some d →
    Course (Fair start) start (trace ++ p.moved .opens :: more) q → (∀ x ∈ more, x.move ≠ .opens) →
      ∀ (n : Nat) e, (loreOf start trace).issues[n]? = some e → e.asActor = true →
        e.ref ≠ d.delivery.this → Spared (loreOf start (trace ++ p.moved .opens :: more)) n e p q

omit [DecidableEq α] in
theorem Told.one_name {w : World L α γ} {u v : Ref L} (told : Told l w) (sound : w.heap.Sound)
    (kin : w.heap.Kin l.live) (first : l.Allows u) (second : l.Allows v) (names : u.cell = .ok i)
    (names' : v.cell = .ok i) : u = v := by
  have nil : (Ref.nil : Ref L).cell = .ok 0 := by simp [Ref.cell, Ref.nil, Ref.kind_make, Ref.field_make]
  -- Of what has no cell of its own only the empty list names one, which is no ordinary cell.
  have blank : ∀ {v : Ref L}, v.cell = .ok i → v.target? = none → v = .nil ∧ i = 0 := by
    intro v names none
    have isPair : v.isPair = true := by
      unfold Ref.cell at names
      split at names
      · simp_all [Ref.isPair]
      · rename_i isActor
        simp [Ref.target?_of_isActor (r := v) (by simp [Ref.isActor, isActor])] at none
      · cases names
    obtain rfl := Ref.eq_nil_of_isPair isPair none
    exact ⟨rfl, by simpa [nil] using names.symm⟩
  have named : ∀ {v : Ref L} {j : Nat}, v.cell = .ok i → v.target? = some j → l.Allows v →
      j = i ∧ v ∈ l.live ∧ i ≠ 0 := by
    intro v j names target allows
    have live := allows.resolve_left (by simp [target])
    have inside := (sound.threaded.inside_of_collectable (kin.refs v live j target)).1
    obtain rfl : j = i := by simpa [Ref.cell_of_target? target] using names
    refine ⟨rfl, live, ?_⟩
    rintro rfl
    cases inside
  cases target : u.target? with
  | none =>
    cases target' : v.target? with
    | none => rw [(blank names target).1, (blank names' target').1]
    | some j => exact absurd (blank names target).2 (named names' target' second).2.2
  | some j =>
    cases target' : v.target? with
    | none => exact absurd (blank names' target').2 (named names target first).2.2
    | some j' =>
      obtain ⟨rfl, live, -⟩ := named names target first
      obtain ⟨rfl, live', -⟩ := named names' target' second
      obtain ⟨e, on, unswept, rfl⟩ := Lore.mem_live.mp live'
      exact told.same on unswept live (target.trans target'.symm)

theorem unanswered {σ β : Type} {t : Task σ β} {s : Logged σ} {r : Ref L} :
    outcomeOf ((do let _ ← t; return none : Task σ (Option (Ref L))) s) ≠ .ok (some r) := by
  rw [Task.bind_apply]
  cases t s <;> simp [outcomeOf]

/-- What a fair user is answered with names no cell, or one that was asked for. -/
theorem Aware.answers {r : Ref L} (aware : Aware now start trace p) (course : Course allows start trace p)
    (fits : m.Fits p) (fair : Fair start trace p m) (answered : (p.moved m).outcome = .ok (some r)) :
    (loreOf start (trace ++ [p.moved m])).Allows r := by
  obtain ⟨b, settled⟩ := aware.settled
  obtain ⟨b', settled'⟩ := (aware.next course fits fair (by simp [answered])).settled
  have stands := settled.kept.stock.stands
  obtain ⟨-, kin⟩ := settled'.kept.stock.stands
  cases m with
  | call c =>
    cases c with
    | heap op =>
      have plain : ∀ v ∈ op.operands, p.world.heap.Plain v := fun v on =>
        (fair.allowed v on).elim Heap.plain_of_target? (stands.2.refs v)
      have outcome := (outcome_onHeap (α := α) (γ := γ) op.task p.logged).symm.trans answered
      have step := op.step (s := ⟨p.world.heap, p.logged.journal⟩) settled.kept.stock.sound
        fun v on => (plain v on).holds
      rw [course.lore, Lore.after_heap] at kin ⊢
      rw [world_heap] at kin
      rw [show outcomeOf (op.task ⟨p.world.heap, p.logged.journal⟩) = _ from outcome] at step kin ⊢
      cases step with
      | acted effect =>
        rename_i a
        cases a with
        | cons x y | actorCell x y =>
          exact Or.inr (Lore.mem_live_record.mpr (Or.inr (by simp [Lore.issued])))
        | perm x y => exact absurd fair.leaves (by simp [Move.LeavesCollecting, Act.lasting])
        | first q | rest q | behavior q | state q =>
          exact kin.read effect rfl (plain q (by simp [Op.operands, Act.operands]))
        | setFirst | setRest | setActor | scanValue => exact absurd outcome unanswered
    | function f =>
      have means := ((functionCall_ends f).of_ok (eq_ok_of_outcome answered)).1 r rfl
      exact Or.inl (Ref.target?_of_isFunc means.isFunc)
    | send | sendAfter | addRoot | gatherRoots | tick => exact absurd answered unanswered
    | aside => cases answered
  | opens =>
    simp only [Point.moved, Move.next] at answered
    split at answered <;> cases answered
  | closes =>
    simp only [Point.moved, Move.next] at answered
    split at answered
    · cases answered
    · split at answered <;> cases answered
  | drops => cases answered

/-- Actors are kept apart in every course of a fair user. -/
theorem Course.apart (course : Course (Fair start) start trace p)
    (isNew : start = Point.new capacity traced now guest journal) : Isolated start trace p := by
  have aware := course.aware isNew
  obtain ⟨b, settled⟩ := aware.settled
  obtain ⟨sound, -, -, guards, holding, kin⟩ := settled.kept.stock
  obtain ⟨delivering, gathered, told, listed, -⟩ := settled.gathered (s := p.logged)
  have allows : ∀ v, Mentions p.world ((Record.of now trace).refs ++ delivering) v →
      (loreOf start trace).Allows v := by
    rintro v (root | ⟨i, on, slot⟩)
    · exact (guards v (listed v root)).2
    · exact kin.slots i on v slot
  exact
    { kinds := ⟨_, gathered, fun d under => by simp [told d under], allows,
        fun u v i first second names names' => by
          rw [aware.told.one_name sound kin (allows u first) (allows v second) names names']⟩
      answers := fun m fits fair r answered => aware.answers course fits fair answered
      registered := fun e on unswept asActor => by
        have live := Lore.mem_live.mpr ⟨e, on, unswept, rfl⟩
        have isActor := (aware.told.kinds e on).symm.trans asActor
        obtain ⟨c, i, given, target, held⟩ := aware.told.given e on unswept asActor
        have means := aware.told.names _ held
        have found := aware.behaviorOf live isActor target means
        obtain ⟨n, isFunc, known⟩ := means
        exact ⟨isActor, c, i, n, given, target, kin.refs _ live i target, isFunc, known, found⟩
      current := fun d under => by
        have isActor := aware.opened d under
        have live : d.delivery.this ∈ (loreOf start trace).live :=
          (allows _ (Or.inl (by simp [told d under]))).resolve_left (by
            simp [Ref.target?_of_isActor isActor])
        obtain ⟨c, gives, i, target, means⟩ := aware.told.gives live isActor
        exact ⟨c, gives, aware.behaviorOf live isActor target means⟩
      opens := aware.opens course
      spares := fun idle d more q opened later within n e here asActor other =>
        (course.spared isNew idle opened later within here asActor other).2 }

end Treadmill.World

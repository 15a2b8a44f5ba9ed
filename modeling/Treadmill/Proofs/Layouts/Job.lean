import Mathlib
import Treadmill.Proofs.Layouts.Collect
import Treadmill.Proofs.Layouts.Data

/-!
# Every job in lockstep

Whatever is asked of a heap, or of the lists and maps in it, comes to the same in any two layouts
(`Job.agree`), as long as neither run leaves the range that the layouts share.
-/

namespace Treadmill
variable {L M : Layout} {ρ σ α β : Type}

/-- What can be asked of a heap, or of the lists and maps in it, with operands from `ρ`. -/
inductive Job (ρ : Type)
  | cons (first rest : ρ)
  | perm (first rest : ρ)
  | actorCell (beh st : ρ)
  | markOf (r : ρ)
  | first (r : ρ)
  | rest (r : ρ)
  | setFirst (r v : ρ)
  | setRest (r v : ρ)
  | behavior (a : ρ)
  | state (a : ρ)
  | setActor (a beh st : ρ)
  | scanValue (r : ρ)
  | age
  | beginCollect (roots : List ρ)
  | traceStep
  | sweep
  | fullCollect (roots : List ρ)
  | ofList (items : List ρ)
  | equal (x y : ρ)
  | append (x y : ρ)
  | reverse (list : ρ)
  | length (list : ρ)
  | replace (form map : ρ)
  | mapFind (map key : ρ)
  | mapGet? (map key : ρ)
  | mapGetD (map key fallback : ρ)
  | mapPut (map key val : ρ)
  | mapPutAll (map other : ρ)
  | mapDefine (map keys vals : ρ)
  | mapRemove (map key : ρ)
  | mapCut (map key : ρ)

/-- What a job answers. -/
inductive Answer (ρ : Type)
  | done
  | ref (r : ρ)
  | found (r : Option ρ)
  | flag (b : Bool)
  | count (n : Nat)
  | mark (m : Mark)
deriving DecidableEq

def Answer.map (f : ρ → σ) : Answer ρ → Answer σ
  | done => done
  | ref r => ref (f r)
  | found r => found (r.map f)
  | flag b => flag b
  | count n => count n
  | mark m => mark m

namespace Job

def map (f : ρ → σ) : Job ρ → Job σ
  | cons a b => cons (f a) (f b)
  | perm a b => perm (f a) (f b)
  | actorCell beh st => actorCell (f beh) (f st)
  | markOf r => markOf (f r)
  | first r => first (f r)
  | rest r => rest (f r)
  | setFirst r v => setFirst (f r) (f v)
  | setRest r v => setRest (f r) (f v)
  | behavior a => behavior (f a)
  | state a => state (f a)
  | setActor a beh st => setActor (f a) (f beh) (f st)
  | scanValue r => scanValue (f r)
  | age => age
  | beginCollect roots => beginCollect (roots.map f)
  | traceStep => traceStep
  | sweep => sweep
  | fullCollect roots => fullCollect (roots.map f)
  | ofList items => ofList (items.map f)
  | equal x y => equal (f x) (f y)
  | append x y => append (f x) (f y)
  | reverse list => reverse (f list)
  | length list => length (f list)
  | replace form m => replace (f form) (f m)
  | mapFind m key => mapFind (f m) (f key)
  | mapGet? m key => mapGet? (f m) (f key)
  | mapGetD m key fallback => mapGetD (f m) (f key) (f fallback)
  | mapPut m key val => mapPut (f m) (f key) (f val)
  | mapPutAll m other => mapPutAll (f m) (f other)
  | mapDefine m keys vals => mapDefine (f m) (f keys) (f vals)
  | mapRemove m key => mapRemove (f m) (f key)
  | mapCut m key => mapCut (f m) (f key)

/-- The operation itself. -/
def task : Job (Ref L) → HeapTask L (Answer (Ref L))
  | cons a b => do return .ref (← Heap.cons a b)
  | perm a b => do return .ref (← Heap.perm a b)
  | actorCell beh st => do return .ref (← Heap.actorCell beh st)
  | markOf r => do return .mark (← Heap.markOf r)
  | first r => do return .ref (← Heap.first r)
  | rest r => do return .ref (← Heap.rest r)
  | setFirst r v => do Heap.setFirst r v; return .done
  | setRest r v => do Heap.setRest r v; return .done
  | behavior a => do return .ref (← Heap.behavior a)
  | state a => do return .ref (← Heap.state a)
  | setActor a beh st => do Heap.setActor a beh st; return .done
  | scanValue r => do Heap.scanValue r; return .done
  | age => do Heap.age; return .done
  | beginCollect roots => do Heap.beginCollect roots; return .done
  | traceStep => do return .flag (← Heap.traceStep)
  | sweep => do Heap.sweep; return .done
  | fullCollect roots => do Heap.fullCollect roots; return .done
  | ofList items => do return .ref (← Heap.ofList items)
  | equal x y => do return .flag (← Data.equal x y)
  | append x y => do return .ref (← Data.append x y)
  | reverse list => do return .ref (← Data.reverse list)
  | length list => do return .count (← Data.length list)
  | replace form map => do return .ref (← Data.replace form map)
  | mapFind map key => do return .ref (← Data.mapFind map key)
  | mapGet? map key => do return .found (← Data.mapGet? map key)
  | mapGetD map key fallback => do return .ref (← Data.mapGetD map key fallback)
  | mapPut map key val => do return .ref (← Data.mapPut map key val)
  | mapPutAll map other => do return .ref (← Data.mapPutAll map other)
  | mapDefine map keys vals => do return .ref (← Data.mapDefine map keys vals)
  | mapRemove map key => do return .ref (← Data.mapRemove map key)
  | mapCut map key => do return .ref (← Data.mapCut map key)

end Job

/-- Answers that mean the same. -/
def SameAnswer (a : Answer (Ref L)) (b : Answer (Ref M)) : Prop :=
  a.map Ref.value = b.map Ref.value

namespace Lockstep

theorem answers {same : α → β → Prop} {x : HeapTask L α} {y : HeapTask M β}
    {f : α → Answer (Ref L)} {g : β → Answer (Ref M)} (both : Lockstep same x y)
    (means : ∀ {a b}, same a b → SameAnswer (f a) (g b)) :
    Lockstep SameAnswer (do return f (← x)) (do return g (← y)) :=
  both.bind fun related => .pure (means related)

theorem ref {x : HeapTask L (Ref L)} {y : HeapTask M (Ref M)} (both : Lockstep SameValue x y) :
    Lockstep SameAnswer (do return .ref (← x)) (do return .ref (← y)) :=
  both.answers (congrArg Answer.ref)

theorem done {x : HeapTask L Unit} {y : HeapTask M Unit} (both : Lockstep Eq x y) :
    Lockstep SameAnswer (do x; return .done : HeapTask L (Answer (Ref L)))
      (do y; return .done : HeapTask M (Answer (Ref M))) :=
  both.answers fun _ => rfl

end Lockstep

/-- New heaps are alike. -/
theorem alike_empty (traced traced' : Bool) :
    (Heap.empty traced : Heap L).Alike (Heap.empty traced' : Heap M) := by
  refine ⟨?_, fun i low => ?_, rfl, rfl, rfl, rfl, rfl⟩
  · simp [Heap.empty]
  · have low : i < firstCell := by simpa [Heap.empty] using low
    rw [Heap.cellAt_empty low, Heap.cellAt_empty low]
    exact ⟨rfl, rfl, rfl, Heap.sameValue_nil, Heap.sameValue_nil⟩

theorem kept_of_ok {r : EStateM.Result Fault (Logged (Heap L)) α} {a : α} (ok : outcomeOf r = .ok a)
    (small : (stateAfter r).state.cells.size ≤ sharedCells) : ¬Strayed r := by
  rintro (outgrown | ⟨i, range⟩)
  · omega
  · rw [ok] at range
    cases range

namespace Job

theorem lockstep (job : Job ρ) {left : ρ → Ref L} {right : ρ → Ref M}
    (same : ∀ x, SameValue (left x) (right x)) :
    Lockstep SameAnswer (job.map left).task (job.map right).task := by
  have pairs : ∀ items : List ρ, List.Forall₂ SameValue (items.map left) (items.map right) := by
    intro items
    rw [List.forall₂_map_left_iff, List.forall₂_map_right_iff, List.forall₂_same]
    exact fun x _ => same x
  cases job with
  | cons a b => exact (Heap.cons_lockstep (same a) (same b)).ref
  | perm a b => exact (Heap.perm_lockstep (same a) (same b)).ref
  | actorCell beh st => exact (Heap.actorCell_lockstep (same beh) (same st)).ref
  | markOf r => exact (Heap.markOf_lockstep (same r)).answers (congrArg Answer.mark)
  | first r => exact (Heap.first_lockstep (same r)).ref
  | rest r => exact (Heap.rest_lockstep (same r)).ref
  | setFirst r v => exact (Heap.setFirst_lockstep (same r) (same v)).done
  | setRest r v => exact (Heap.setRest_lockstep (same r) (same v)).done
  | behavior a => exact (Heap.behavior_lockstep (same a)).ref
  | state a => exact (Heap.state_lockstep (same a)).ref
  | setActor a beh st => exact (Heap.setActor_lockstep (same a) (same beh) (same st)).done
  | scanValue r => exact (Heap.scanValue_lockstep (same r)).done
  | age => exact Heap.age_lockstep.done
  | beginCollect roots => exact (Heap.beginCollect_lockstep (pairs roots)).done
  | traceStep => exact Heap.traceStep_lockstep.answers (congrArg Answer.flag)
  | sweep => exact Heap.sweep_lockstep.done
  | fullCollect roots => exact (Heap.fullCollect_lockstep (pairs roots)).done
  | ofList items => exact (Heap.ofList_lockstep (pairs items)).ref
  | equal x y => exact (Data.equal_lockstep (same x) (same y)).answers (congrArg Answer.flag)
  | append x y => exact (Data.append_lockstep (same x) (same y)).ref
  | reverse list => exact (Data.reverse_lockstep (same list)).ref
  | length list => exact (Data.length_lockstep (same list)).answers (congrArg Answer.count)
  | replace form map => exact (Data.replace_lockstep (same form) (same map)).ref
  | mapFind map key => exact (Data.mapFind_lockstep (same map) (same key)).ref
  | mapGet? map key =>
    refine (Data.mapGet?_lockstep (same map) (same key)).answers fun found => ?_
    cases found with
    | none => rfl
    | some value => exact congrArg (Answer.found ∘ some) value
  | mapGetD map key fallback =>
    exact (Data.mapGetD_lockstep (same map) (same key) (same fallback)).ref
  | mapPut map key val => exact (Data.mapPut_lockstep (same map) (same key) (same val)).ref
  | mapPutAll map other => exact (Data.mapPutAll_lockstep (same map) (same other)).ref
  | mapDefine map keys vals => exact (Data.mapDefine_lockstep (same map) (same keys) (same vals)).ref
  | mapRemove map key => exact (Data.mapRemove_lockstep (same map) (same key)).ref
  | mapCut map key => exact (Data.mapCut_lockstep (same map) (same key)).ref

/-- One job in two layouts, its operands read by `left` in the one and by `right` in the other: from
heaps that are alike both runs give up or both answer the same, and the heaps they leave are alike. -/
theorem agree (job : Job ρ) {left : ρ → Ref L} {right : ρ → Ref M}
    (same : ∀ x, (left x).value = (right x).value) {s : Logged (Heap L)} {t : Logged (Heap M)}
    (alike : s.state.Alike t.state) (kept : ¬Strayed ((job.map left).task s))
    (kept' : ¬Strayed ((job.map right).task t)) :
    Agree SameAnswer ((job.map left).task s) ((job.map right).task t) :=
  (job.lockstep same s t alike).resolve_right (not_or.mpr ⟨kept, kept'⟩)

/-- A pair of the number 7 and the empty list, in two new heaps. The number is the word 31 in the one
layout and 57 in the other, the pair 24 and 48. -/
theorem agree_one_pair :
    ∃ (r : Ref .twoLow) (u : Ref .threeLow) (s : Logged (Heap .twoLow)) (t : Logged (Heap .threeLow)),
      (Job.cons ⟨31, by decide⟩ .nil).task ⟨Heap.empty false, ⟨none, #[]⟩⟩ = .ok (.ref r) s ∧
        (Job.cons ⟨57, by decide⟩ .nil).task ⟨Heap.empty true, ⟨none, #[]⟩⟩ = .ok (.ref u) t ∧
          r.word = 24 ∧ u.word = 48 ∧ r.value = u.value ∧ s.state.Alike t.state := by
  let left : Bool → Ref .twoLow := fun b => cond b ⟨31, by decide⟩ .nil
  let right : Bool → Ref .threeLow := fun b => cond b ⟨57, by decide⟩ .nil
  have same : ∀ b, (left b).value = (right b).value := by decide
  obtain ⟨r, u, made, made', small, small', word, word'⟩ :
      ∃ (r : Ref .twoLow) (u : Ref .threeLow),
        outcomeOf (((Job.cons true false).map left).task ⟨Heap.empty false, ⟨none, #[]⟩⟩) = .ok (.ref r) ∧
        outcomeOf (((Job.cons true false).map right).task ⟨Heap.empty true, ⟨none, #[]⟩⟩) = .ok (.ref u) ∧
        (stateAfter (((Job.cons true false).map left).task
          ⟨Heap.empty false, ⟨none, #[]⟩⟩)).state.cells.size ≤ sharedCells ∧
        (stateAfter (((Job.cons true false).map right).task
          ⟨Heap.empty true, ⟨none, #[]⟩⟩)).state.cells.size ≤ sharedCells ∧
        r.word = 24 ∧ u.word = 48 :=
    ⟨⟨24, by decide⟩, ⟨48, by decide⟩, by decide +kernel⟩
  have agreed := (Job.cons true false).agree same
    (s := ⟨Heap.empty false, ⟨none, #[]⟩⟩) (t := ⟨Heap.empty true, ⟨none, #[]⟩⟩) (alike_empty false true)
    (kept_of_ok made small) (kept_of_ok made' small')
  have ran := eq_ok_of_outcome made
  have ran' := eq_ok_of_outcome made'
  rw [ran, ran'] at agreed
  cases agreed with
  | answers related alike =>
    exact ⟨r, u, _, _, ran, ran', word, word', Answer.ref.inj related, alike⟩

end Job

end Treadmill

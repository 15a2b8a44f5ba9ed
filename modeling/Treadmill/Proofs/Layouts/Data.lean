import Mathlib
import Treadmill.Data.Equal
import Treadmill.Data.Replace
import Treadmill.Proofs.Layouts.Access

/-!
# Lists and maps in lockstep

Walks over lists and maps take the same turns in both layouts: what ends them, and which key is the
one, is told by what references mean. They have the same number of steps, as the arenas are of one
size.
-/

namespace Treadmill.Data
open Heap
variable {L M : Layout} {r x y z p q key val : Ref L} {u v w o p' q' key' val' : Ref M}

/-! ### Arenas -/

instance (n : Nat) (p : Ref L) (seen : List (Ref L)) : Grows (itemsFrom n p seen) := by
  induction n generalizing p seen with
  | zero => exact Grows.throw _
  | succ n ih =>
    unfold itemsFrom
    infer_instance

instance : Grows (items r) := by
  unfold items
  infer_instance

instance : Grows (append x y) := by
  unfold append
  infer_instance

instance (n : Nat) (p made : Ref L) : Grows (reverseFrom n p made) := by
  induction n generalizing p made with
  | zero => exact Grows.throw _
  | succ n ih =>
    unfold reverseFrom
    infer_instance

instance : Grows (reverse r) := by
  unfold reverse
  infer_instance

instance (n : Nat) (p : Ref L) (count : Nat) : Grows (lengthFrom n p count) := by
  induction n generalizing p count with
  | zero => exact Grows.throw _
  | succ n ih =>
    unfold lengthFrom
    infer_instance

instance (n : Nat) (x y : Ref L) : Grows (equalFrom n x y) := by
  induction n generalizing x y with
  | zero => exact Grows.throw _
  | succ n ih =>
    unfold equalFrom
    infer_instance

instance (n : Nat) (key p : Ref L) : Grows (mapFindFrom key n p) := by
  induction n generalizing p with
  | zero => exact Grows.throw _
  | succ n ih =>
    unfold mapFindFrom
    infer_instance

instance : Grows (mapFind x key) := by
  unfold mapFind
  infer_instance

instance : Grows (mapGet? x key) := by
  unfold mapGet?
  infer_instance

instance : Grows (mapPut x key val) := by
  unfold mapPut
  infer_instance

instance : Grows (mapPutBinding x y) := by
  unfold mapPutBinding
  infer_instance

instance (n : Nat) (x p : Ref L) : Grows (mapPutAllFrom n x p) := by
  induction n generalizing x p with
  | zero => exact Grows.throw _
  | succ n ih =>
    unfold mapPutAllFrom
    infer_instance

instance (n : Nat) (x p q : Ref L) : Grows (mapDefineFrom n x p q) := by
  induction n generalizing x p q with
  | zero => exact Grows.throw _
  | succ n ih =>
    unfold mapDefineFrom
    infer_instance

instance : Grows (keepBinding key x y) := by
  unfold keepBinding
  infer_instance

instance (n : Nat) (p kept : Ref L) : Grows (mapRemoveFrom key n p kept) := by
  induction n generalizing p kept with
  | zero => exact Grows.throw _
  | succ n ih =>
    unfold mapRemoveFrom
    infer_instance

instance : Grows (cutNode x p q) := by
  unfold cutNode
  infer_instance

instance (n : Nat) (before p : Ref L) : Grows (mapCutFrom x key n before p) := by
  induction n generalizing before p with
  | zero => exact Grows.throw _
  | succ n ih =>
    unfold mapCutFrom
    infer_instance

instance (tail : Ref L) (made : List (Ref L)) : Grows (replaceFrom.close tail made) := by
  unfold replaceFrom.close
  induction made generalizing tail with
  | nil => exact Grows.pure tail
  | cons a made ih =>
    rw [List.foldlM_cons]
    infer_instance

instance (n : Nat) (p : Ref L) (made : List (Ref L)) : Grows (replaceFrom x n p made) := by
  induction n generalizing p made with
  | zero => exact Grows.throw _
  | succ n ih =>
    unfold replaceFrom
    infer_instance

/-! ### Lists -/

theorem itemsFrom_lockstep (n : Nat) (same : SameValue p p') {seen : List (Ref L)}
    {seen' : List (Ref M)} (pairs : List.Forall₂ SameValue seen seen') :
    Lockstep (List.Forall₂ SameValue) (itemsFrom n p seen) (itemsFrom n p' seen') := by
  induction n generalizing p p' seen seen' with
  | zero => exact .throw _ _
  | succ n ih =>
    refine .ite (by rw [Ref.isNil_congr same]) (.pure (List.rel_reverse pairs)) ?_
    refine (first_lockstep same).bind fun item => ?_
    exact (rest_lockstep same).bind fun next => ih next (.cons item pairs)

theorem items_lockstep (same : SameValue r u) :
    Lockstep (List.Forall₂ SameValue) (items r) (items u) :=
  walkLimit_lockstep.bind_eq fun limit => itemsFrom_lockstep limit same .nil

theorem append_lockstep (front : SameValue x v) (back : SameValue y w) :
    Lockstep SameValue (append x y) (append v w) := by
  refine (Lockstep.require (Ref.isPair_congr front)).bind_eq fun _ => ?_
  exact (items_lockstep front).bind fun pairs => consAll_lockstep pairs back

theorem reverseFrom_lockstep (n : Nat) (same : SameValue p p') {made : Ref L} {made' : Ref M}
    (prior : SameValue made made') :
    Lockstep SameValue (reverseFrom n p made) (reverseFrom n p' made') := by
  induction n generalizing p p' made made' with
  | zero => exact .throw _ _
  | succ n ih =>
    refine .ite (by rw [Ref.isNil_congr same]) (.pure prior) ?_
    refine (first_lockstep same).bind fun item => ?_
    refine (cons_lockstep item prior).bind fun longer => ?_
    exact (rest_lockstep same).bind fun next => ih next longer

theorem reverse_lockstep (same : SameValue r u) : Lockstep SameValue (reverse r) (reverse u) :=
  walkLimit_lockstep.bind_eq fun limit => reverseFrom_lockstep limit same sameValue_nil

theorem lengthFrom_lockstep (n count : Nat) (same : SameValue p p') :
    Lockstep Eq (lengthFrom n p count) (lengthFrom n p' count) := by
  induction n generalizing p p' count with
  | zero => exact .throw _ _
  | succ n ih =>
    refine .ite (by rw [Ref.isNil_congr same]) (.pure rfl) ?_
    exact (rest_lockstep same).bind fun next => ih (count + 1) next

theorem length_lockstep (same : SameValue r u) : Lockstep Eq (length r) (length u) :=
  walkLimit_lockstep.bind_eq fun limit => lengthFrom_lockstep limit 0 same

theorem equalFrom_lockstep (n : Nat) (left : SameValue x v) (right : SameValue y w) :
    Lockstep Eq (equalFrom n x y) (equalFrom n v w) := by
  induction n generalizing x y v w with
  | zero => exact .throw _ _
  | succ n ih =>
    refine .ite (Ref.eq_congr left right) (.pure rfl) ?_
    refine .ite (by rw [Ref.isCons_congr left, Ref.isCons_congr right]) (.pure rfl) ?_
    refine (first_lockstep left).bind fun a => ?_
    refine (first_lockstep right).bind fun b => ?_
    refine (ih a b).bind_eq fun equal => ?_
    refine .ite Iff.rfl ?_ (.pure rfl)
    refine (rest_lockstep left).bind fun c => ?_
    exact (rest_lockstep right).bind fun d => ih c d

theorem equal_lockstep (left : SameValue x v) (right : SameValue y w) :
    Lockstep Eq (equal x y) (equal v w) :=
  walkLimit_lockstep.bind_eq fun limit => equalFrom_lockstep limit left right

/-! ### Maps -/

theorem mapFindFrom_lockstep (n : Nat) (keys : SameValue key key') (same : SameValue p p') :
    Lockstep SameValue (mapFindFrom key n p) (mapFindFrom key' n p') := by
  induction n generalizing p p' with
  | zero => exact .throw _ _
  | succ n ih =>
    refine .ite (by rw [Ref.isNil_congr same]) (.pure sameValue_nil) ?_
    refine (first_lockstep same).bind fun binding => ?_
    refine (first_lockstep binding).bind fun found => ?_
    refine .ite (Ref.eq_congr found keys) (.pure binding) ?_
    exact (rest_lockstep same).bind fun next => ih next

theorem mapFind_lockstep (map : SameValue x v) (keys : SameValue key key') :
    Lockstep SameValue (mapFind x key) (mapFind v key') :=
  walkLimit_lockstep.bind_eq fun limit => mapFindFrom_lockstep limit keys map

theorem mapGet?_lockstep (map : SameValue x v) (keys : SameValue key key') :
    Lockstep (Option.Rel SameValue) (mapGet? x key) (mapGet? v key') := by
  refine (mapFind_lockstep map keys).bind fun binding => ?_
  refine .ite (by rw [Ref.isNil_congr binding]) (.pure .none) ?_
  exact (rest_lockstep binding).bind fun found => .pure (.some found)

theorem mapGetD_lockstep (map : SameValue x v) (keys : SameValue key key')
    (fallback : SameValue y w) :
    Lockstep SameValue (mapGetD x key y) (mapGetD v key' w) := by
  refine (mapGet?_lockstep map keys).bind fun found => ?_
  cases found with
  | none => exact .pure fallback
  | some same => exact .pure same

theorem mapPut_lockstep (map : SameValue x v) (keys : SameValue key key')
    (vals : SameValue val val') : Lockstep SameValue (mapPut x key val) (mapPut v key' val') := by
  refine (Lockstep.require (Ref.isPair_congr map)).bind_eq fun _ => ?_
  exact (cons_lockstep keys vals).bind fun binding => cons_lockstep binding map

theorem mapPutBinding_lockstep (map : SameValue x v) (binding : SameValue y w) :
    Lockstep SameValue (mapPutBinding x y) (mapPutBinding v w) := by
  refine .ite (by rw [Ref.isCons_congr binding]) ?_ (.pure map)
  refine (first_lockstep binding).bind fun k => ?_
  exact (rest_lockstep binding).bind fun val => mapPut_lockstep map k val

theorem mapPutAllFrom_lockstep (n : Nat) (map : SameValue x v) (same : SameValue p p') :
    Lockstep SameValue (mapPutAllFrom n x p) (mapPutAllFrom n v p') := by
  induction n generalizing x v p p' with
  | zero => exact .throw _ _
  | succ n ih =>
    refine .ite (by rw [Ref.isCons_congr same]) ?_ (.pure map)
    refine (first_lockstep same).bind fun binding => ?_
    refine (mapPutBinding_lockstep map binding).bind fun longer => ?_
    exact (rest_lockstep same).bind fun next => ih longer next

theorem mapPutAll_lockstep (map : SameValue x v) (other : SameValue y w) :
    Lockstep SameValue (mapPutAll x y) (mapPutAll v w) :=
  walkLimit_lockstep.bind_eq fun limit => mapPutAllFrom_lockstep limit map other

theorem mapDefineFrom_lockstep (n : Nat) (map : SameValue x v) (keys : SameValue p p')
    (vals : SameValue q q') :
    Lockstep SameValue (mapDefineFrom n x p q) (mapDefineFrom n v p' q') := by
  induction n generalizing x v p p' q q' with
  | zero => exact .throw _ _
  | succ n ih =>
    refine .ite (by rw [Ref.isCons_congr keys, Ref.isCons_congr vals]) ?_ (.pure map)
    refine (first_lockstep keys).bind fun k => ?_
    refine (first_lockstep vals).bind fun val => ?_
    refine (mapPut_lockstep map k val).bind fun longer => ?_
    refine (rest_lockstep keys).bind fun keysLeft => ?_
    exact (rest_lockstep vals).bind fun valsLeft => ih longer keysLeft valsLeft

theorem mapDefine_lockstep (map : SameValue x v) (keys : SameValue p p') (vals : SameValue q q') :
    Lockstep SameValue (mapDefine x p q) (mapDefine v p' q') :=
  walkLimit_lockstep.bind_eq fun limit => mapDefineFrom_lockstep limit map keys vals

theorem keepBinding_lockstep (keys : SameValue key key') (binding : SameValue x v)
    (kept : SameValue y w) : Lockstep SameValue (keepBinding key x y) (keepBinding key' v w) := by
  refine (first_lockstep binding).bind fun k => ?_
  refine .ite (Ref.eq_congr k keys) (.pure kept) ?_
  refine (mapFind_lockstep kept k).bind fun found => ?_
  exact .ite (by rw [Ref.isNil_congr found]) (cons_lockstep binding kept) (.pure kept)

theorem mapRemoveFrom_lockstep (n : Nat) (keys : SameValue key key') (same : SameValue p p')
    (kept : SameValue y w) :
    Lockstep SameValue (mapRemoveFrom key n p y) (mapRemoveFrom key' n p' w) := by
  induction n generalizing p p' y w with
  | zero => exact .throw _ _
  | succ n ih =>
    refine .ite (by rw [Ref.isNil_congr same]) (reverse_lockstep kept) ?_
    refine (first_lockstep same).bind fun binding => ?_
    refine (keepBinding_lockstep keys binding kept).bind fun more => ?_
    exact (rest_lockstep same).bind fun next => ih next more

theorem mapRemove_lockstep (map : SameValue x v) (keys : SameValue key key') :
    Lockstep SameValue (mapRemove x key) (mapRemove v key') :=
  walkLimit_lockstep.bind_eq fun limit => mapRemoveFrom_lockstep limit keys map sameValue_nil

theorem cutNode_lockstep (map : SameValue x v) (before : SameValue p p') (node : SameValue q q') :
    Lockstep SameValue (cutNode x p q) (cutNode v p' q') := by
  refine (rest_lockstep node).bind fun after => ?_
  refine .ite (by rw [Ref.isNil_congr before]) (.pure after) ?_
  exact (setRest_lockstep before after).bind_eq fun _ => .pure map

theorem mapCutFrom_lockstep (n : Nat) (map : SameValue x v) (keys : SameValue key key')
    (before : SameValue p p') (node : SameValue q q') :
    Lockstep SameValue (mapCutFrom x key n p q) (mapCutFrom v key' n p' q') := by
  induction n generalizing p p' q q' with
  | zero => exact .throw _ _
  | succ n ih =>
    refine .ite (by rw [Ref.isNil_congr node]) (.pure map) ?_
    refine (first_lockstep node).bind fun binding => ?_
    refine (first_lockstep binding).bind fun found => ?_
    refine .ite (Ref.eq_congr found keys) (cutNode_lockstep map before node) ?_
    exact (rest_lockstep node).bind fun next => ih node next

theorem mapCut_lockstep (map : SameValue x v) (keys : SameValue key key') :
    Lockstep SameValue (mapCut x key) (mapCut v key') :=
  walkLimit_lockstep.bind_eq fun limit => mapCutFrom_lockstep limit map keys sameValue_nil map

/-! ### Substitution -/

theorem close_lockstep {tail : Ref L} {tail' : Ref M} (last : SameValue tail tail')
    {made : List (Ref L)} {made' : List (Ref M)} (pairs : List.Forall₂ SameValue made made') :
    Lockstep SameValue (replaceFrom.close tail made) (replaceFrom.close tail' made') := by
  unfold replaceFrom.close
  induction pairs generalizing tail tail' with
  | nil => exact .pure last
  | @cons a b made made' same _ ih =>
    have closed : ∀ tail, Grows (made.foldlM (fun d a => cons a d) tail) := by
      intro tail
      change Grows (replaceFrom.close tail made)
      infer_instance
    have closed' : ∀ tail, Grows (made'.foldlM (fun d a => cons a d) tail) := by
      intro tail
      change Grows (replaceFrom.close tail made')
      infer_instance
    rw [List.foldlM_cons, List.foldlM_cons]
    exact (cons_lockstep same last).bind fun longer => ih longer

theorem replaceFrom_lockstep (n : Nat) (map : SameValue x v) (same : SameValue p p')
    {made : List (Ref L)} {made' : List (Ref M)} (pairs : List.Forall₂ SameValue made made') :
    Lockstep SameValue (replaceFrom x n p made) (replaceFrom v n p' made') := by
  induction n generalizing p p' made made' with
  | zero => exact .throw _ _
  | succ n ih =>
    refine .ite (by rw [Ref.isNil_congr same]) (close_lockstep sameValue_nil pairs) ?_
    refine (mapFind_lockstep map same).bind fun binding => ?_
    refine .ite (by rw [Ref.isNil_congr binding]) ?_ ?_
    · exact (rest_lockstep binding).bind fun found => close_lockstep found pairs
    refine .ite (by rw [Ref.isPair_congr same]) (close_lockstep same pairs) ?_
    refine (first_lockstep same).bind fun item => ?_
    refine (ih item .nil).bind fun rebuilt => ?_
    exact (rest_lockstep same).bind fun next => ih next (.cons rebuilt pairs)

theorem replace_lockstep (form : SameValue x v) (map : SameValue y w) :
    Lockstep SameValue (replace x y) (replace v w) :=
  walkLimit_lockstep.bind_eq fun limit => replaceFrom_lockstep limit map form .nil

end Treadmill.Data

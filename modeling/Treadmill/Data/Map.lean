import Treadmill.Data.List

/-!
# Maps

A map is a list of bindings, pairs of a key and a value. Keys are compared by identity, and the
binding nearest the front counts.
-/

namespace Treadmill

namespace Data
open Heap
variable {L : Layout}

def mapFindFrom (key : Ref L) : Nat → Ref L → HeapTask L (Ref L)
  | 0, _ => throw .endless
  | n + 1, p =>
    if p.isNil then return .nil
    else do
      let binding ← first p
      if (← first binding) = key then return binding
      mapFindFrom key n (← rest p)

/-- The binding of a key, or the empty list. -/
def mapFind (map key : Ref L) : HeapTask L (Ref L) := do
  mapFindFrom key (← walkLimit) map

/-- The value of a key, if it is bound. -/
def mapGet? (map key : Ref L) : HeapTask L (Option (Ref L)) := do
  let binding ← mapFind map key
  if binding.isNil then return none
  return some (← rest binding)

/-- The value of a key, or `fallback` if it is not bound. -/
def mapGetD (map key fallback : Ref L) : HeapTask L (Ref L) := do
  return (← mapGet? map key).getD fallback

/-- A map in which the key is bound to the value; an earlier binding stays behind it. -/
def mapPut (map key val : Ref L) : HeapTask L (Ref L) := do
  Task.require map.isPair (.misuse .mapPut map.value)
  let binding ← cons key val
  cons binding map

/-- Puts a binding of another map onto `map`; what is no pair binds nothing. -/
def mapPutBinding (map binding : Ref L) : HeapTask L (Ref L) := do
  if binding.isCons then
    let k ← first binding
    let v ← rest binding
    mapPut map k v
  else return map

def mapPutAllFrom : Nat → Ref L → Ref L → HeapTask L (Ref L)
  | 0, _, _ => throw .endless
  | n + 1, map, p =>
    if p.isCons then do
      let map ← mapPutBinding map (← first p)
      mapPutAllFrom n map (← rest p)
    else return map

/-- Puts every binding of `other` onto `map`, front to back. -/
def mapPutAll (map other : Ref L) : HeapTask L (Ref L) := do
  mapPutAllFrom (← walkLimit) map other

def mapDefineFrom : Nat → Ref L → Ref L → Ref L → HeapTask L (Ref L)
  | 0, _, _, _ => throw .endless
  | n + 1, map, keys, vals =>
    if keys.isCons && vals.isCons then do
      let k ← first keys
      let v ← first vals
      let map ← mapPut map k v
      let keys ← rest keys
      mapDefineFrom n map keys (← rest vals)
    else return map

/-- Puts a binding for each key and the value at its place onto `map`, up to the end of the
shorter list. -/
def mapDefine (map keys vals : Ref L) : HeapTask L (Ref L) := do
  mapDefineFrom (← walkLimit) map keys vals

/-- Puts a binding in front of `kept`, unless it is one of `key` or its key is bound there. -/
def keepBinding (key binding kept : Ref L) : HeapTask L (Ref L) := do
  let k ← first binding
  if k = key then return kept
  else if (← mapFind kept k).isNil then cons binding kept
  else return kept

def mapRemoveFrom (key : Ref L) : Nat → Ref L → Ref L → HeapTask L (Ref L)
  | 0, _, _ => throw .endless
  | n + 1, p, kept =>
    if p.isNil then reverse kept
    else do
      let kept ← keepBinding key (← first p) kept
      mapRemoveFrom key n (← rest p) kept

/-- A new map of the bindings that count, less the one of `key`. -/
def mapRemove (map key : Ref L) : HeapTask L (Ref L) := do
  mapRemoveFrom key (← walkLimit) map .nil

/-- Unlinks the node `p` of a map from the node `before`, if there is one. -/
def cutNode (map before p : Ref L) : HeapTask L (Ref L) := do
  let after ← rest p
  if before.isNil then return after
  else
    setRest before after
    return map

def mapCutFrom (map key : Ref L) : Nat → Ref L → Ref L → HeapTask L (Ref L)
  | 0, _, _ => throw .endless
  | n + 1, before, p =>
    if p.isNil then return map
    else do
      if (← first (← first p)) = key then cutNode map before p
      else mapCutFrom map key n p (← rest p)

/-- Unlinks the first binding of a key from the map itself and answers with what is left. -/
def mapCut (map key : Ref L) : HeapTask L (Ref L) := do
  mapCutFrom map key (← walkLimit) .nil map

end Data

end Treadmill

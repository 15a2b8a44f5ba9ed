import Mathlib
import Treadmill.Symbols

/-!
Names and their numbers. In a table that is built by entering names, a name is found under the number that
leads back to it (`Symbols.Regular`), so different names have different numbers, and what has been entered
stays (`Symbols.Extends`).
-/

namespace Treadmill.Symbols
variable {t u v : Symbols} {name other : String} {id id' : UInt32} {f : Fault}

/-- The number under which a name is found leads back to it. -/
def Regular (t : Symbols) : Prop := ∀ name id, t.find? name = some id → t.name? id = some name

/-- Every name of `t` has the same number in `u`. -/
def Extends (t u : Symbols) : Prop := ∀ name id, t.find? name = some id → u.find? name = some id

/-- The table with one more name, which gets the next number. -/
def enter (t : Symbols) (name : String) : Symbols :=
  ⟨t.names.push name, t.ids.insert name (UInt32.ofNat t.size)⟩

theorem Extends.refl (t : Symbols) : Extends t t := fun _ _ => id

theorem Extends.trans (first : Extends t u) (second : Extends u v) : Extends t v :=
  fun name id found => second name id (first name id found)

@[simp] theorem find?_empty (name : String) : empty.find? name = none := by simp [find?, empty]

@[simp] theorem size_empty : empty.size = 0 := rfl

@[simp] theorem size_enter (t : Symbols) (name : String) : (t.enter name).size = t.size + 1 := by
  simp [enter, size]

theorem regular_empty : empty.Regular := fun name id found => by simp at found

theorem find?_enter (t : Symbols) (name other : String) :
    (t.enter name).find? other = if name = other then some (UInt32.ofNat t.size) else t.find? other := by
  simp [enter, find?, Std.HashMap.getElem?_insert]

/-- Different names have different numbers. -/
theorem Regular.injective (regular : t.Regular) (found : t.find? name = some id) (found' : t.find? other = some id) :
    name = other := by
  have back := regular name id found
  rw [regular other id found'] at back
  exact (Option.some.inj back).symm

theorem Extends.enter (new : t.find? name = none) : Extends t (t.enter name) := by
  intro other id found
  rw [find?_enter, if_neg]
  · exact found
  · rintro rfl
    simp [new] at found

theorem Regular.enter (regular : t.Regular) (room : t.size < 2 ^ 32) : (t.enter name).Regular := by
  intro other id found
  rw [find?_enter] at found
  split at found
  · rename_i same
    obtain rfl := Option.some.inj found
    have back : (UInt32.ofNat t.size).toNat = t.names.size := UInt32.toNat_ofNat_of_lt' room
    simp [name?, Symbols.enter, back, same]
  · have old := regular other id found
    obtain ⟨inside, -⟩ := Array.getElem?_eq_some_iff.mp old
    rw [name?, Symbols.enter, Array.getElem?_push_lt inside, ← Array.getElem?_eq_getElem inside]
    exact old

theorem intern_eq (t : Symbols) (name : String) : t.intern name =
    match t.find? name with
    | some id => .ok (id, t)
    | none => if t.size < 2 ^ 32 then .ok (UInt32.ofNat t.size, t.enter name) else .error .symbolsExhausted := rfl

/-- A name that is interned is found from then on, and so is every other that was found before. -/
theorem Regular.intern (regular : t.Regular) (interned : t.intern name = .ok (id, u)) :
    u.find? name = some id ∧ Extends t u ∧ u.Regular := by
  rw [intern_eq] at interned
  split at interned
  · rename_i known found
    obtain ⟨rfl, rfl⟩ := Prod.mk.inj (Except.ok.inj interned)
    exact ⟨found, .refl t, regular⟩
  · rename_i new
    split at interned
    · rename_i room
      obtain ⟨rfl, rfl⟩ := Prod.mk.inj (Except.ok.inj interned)
      exact ⟨by rw [find?_enter, if_pos rfl], .enter new, regular.enter room⟩
    · cases interned

/-- Only a full table refuses a name. -/
theorem intern_error (failed : t.intern name = .error f) : f = .symbolsExhausted ∧ 2 ^ 32 ≤ t.size := by
  rw [intern_eq] at failed
  split at failed
  · cases failed
  · split at failed
    · cases failed
    · rename_i full
      exact ⟨(Except.error.inj failed).symm, by omega⟩

end Treadmill.Symbols

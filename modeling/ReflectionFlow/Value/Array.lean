/-
  File:      ReflectionFlow/Value/Array.lean
  Subject:   Arrays with partly known contents.

  Only stores at constant indices are tracked, and only up to a given number of indices.
  A store from the block that stored at an index last overwrites what is there; a store
  from another block adds to it, because the earlier one may be the one seen on some path.

  Main definitions:
  * `ArrayValue.element`    what may be read at an index
  * `ArrayValue.store`      a store at a constant index
  * `ArrayValue.merge`      two versions of one array that meet
  * `ArrayValue.cleared`    after a store at an unknown index
-/
import ReflectionFlow.Value.Set

namespace ReflectionFlow

namespace ArrayOf

/-- An array without tracked entries. -/
def fresh (site : Site) (size : ValueSet) : ArrayValue := ⟨site, size, []⟩

/-- The length, when it is one constant. -/
def constantSize? (a : ArrayValue) : Option Int32 := a.size.constant?

/-- The tracked entry at an index. -/
def slot? (a : ArrayValue) (index : Int32) : Option (Slot Value) := Assoc.get? a.slots index

/-- What may be read at an index; anything, if the index is not tracked. -/
def element (a : ArrayValue) (index : Int32) : ValueSet :=
  match a.slot? index with
  | some s => s.values
  | none => .unknown

/-- Number of tracked indices. -/
def tracked (a : ArrayValue) : Nat := a.slots.length

/-- The array after a store at a constant index.  The contents of arrays are not stored in
    arrays.  When `capacity` indices are tracked, a store at a new one is not tracked. -/
def store (a : ArrayValue) (index : Int32) (values : ValueSet) (block capacity : Nat) :
    ArrayValue :=
  let stored := values.map Value.withoutContents
  match a.slot? index with
  | some s =>
    let values := if s.block = block then stored else s.values.merge stored
    { a with slots := Assoc.insert a.slots index ⟨values, block⟩ }
  | none =>
    if a.tracked < capacity then { a with slots := Assoc.insert a.slots index ⟨stored, block⟩ }
    else a

/-- Two versions that meet: an index stays tracked when both track it. -/
def merge (a b : ArrayValue) : ArrayValue :=
  if a = b then a
  else
    { site := a.site
      size := a.size.merge b.size
      slots := a.slots.filterMap fun e => (b.slot? e.1).map fun theirs =>
        (e.1, ⟨e.2.values.merge theirs.values, max e.2.block theirs.block⟩) }

/-- The array when nothing is known of its contents. -/
def cleared (a : ArrayValue) : ArrayValue := { a with slots := [] }

/-- A fresh array tells nothing about its elements. -/
theorem element_fresh (site : Site) (size : ValueSet) (index : Int32) :
    (fresh site size).element index = .unknown := rfl

/-- A cleared array tells nothing about its elements. -/
theorem element_cleared (a : ArrayValue) (index : Int32) :
    a.cleared.element index = .unknown := rfl

/-- Merging an array with itself changes nothing. -/
theorem merge_self (a : ArrayValue) : a.merge a = a := by simp [merge]

end ArrayOf

end ReflectionFlow

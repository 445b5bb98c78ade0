/-
  File:      ReflectionFlow/Members/Lookup.lean
  Subject:   What a reflection lookup reaches.

  A lookup asks for one kind of member.  Binding flags say whether public and non-public
  members are meant.  A flag whose effect is not understood, or a value that is not a
  constant, makes the lookup reach everything of its kind under names in any case.

  Main definitions:
  * `LookupKind`                    what is looked for
  * `BindingFlags.ofConstant?`      flags that are understood
  * `Lookup.byDefault`, `Lookup.ofFlags`
-/
import ReflectionFlow.Members.Categories
import ReflectionFlow.Value.Set

namespace ReflectionFlow

/-! ## 1. Binding flags -/

/-- Flags that control a lookup. -/
structure BindingFlags where
  bits : UInt32
  deriving DecidableEq, Repr

namespace BindingFlags

def publicFlag : UInt32 := 0x0010
def nonPublicFlag : UInt32 := 0x0020

/-- The flags whose effect is modelled or does not matter: declared only 2, instance 4,
    static 8, public 16, non-public 32, flatten hierarchy 64, the invocation flags from 256
    to 8192, and exact binding 65536. -/
def understood : UInt32 := 0x0001_3F7E

/-- The flags of an integer constant, if all of them are understood. -/
def ofConstant? (n : Int32) : Option BindingFlags :=
  let bits := n.toUInt32
  if understood &&& bits == bits then some ⟨bits⟩ else none

/-- Are public members meant? -/
def wantsPublic (f : BindingFlags) : Bool := f.bits &&& publicFlag != 0

/-- Are non-public members meant? -/
def wantsNonPublic (f : BindingFlags) : Bool := f.bits &&& nonPublicFlag != 0

end BindingFlags

/-! ## 2. Kinds of lookups -/

/-- What a lookup looks for. -/
inductive LookupKind where
  | constructors
  | methods
  | fields
  | properties
  | events
  | nestedTypes
  | members
  | interfaces
  deriving DecidableEq, Repr

namespace LookupKind

open Categories

/-- The categories of public members of the kind. -/
def publicCategories : LookupKind → Categories
  | .constructors => publicConstructors
  | .methods => publicMethods
  | .fields => publicFields
  | .properties => publicProperties
  | .events => publicEvents
  | .nestedTypes => publicNestedTypes
  | .members =>
    publicConstructors ∪ publicMethods ∪ publicFields ∪ publicProperties ∪ publicEvents ∪
      publicNestedTypes
  | .interfaces => Categories.interfaces

/-- The categories of non-public members of the kind. -/
def nonPublicCategories : LookupKind → Categories
  | .constructors => nonPublicConstructors
  | .methods => nonPublicMethods
  | .fields => nonPublicFields
  | .properties => nonPublicProperties
  | .events => nonPublicEvents
  | .nestedTypes => nonPublicNestedTypes
  | .members =>
    nonPublicConstructors ∪ nonPublicMethods ∪ nonPublicFields ∪ nonPublicProperties ∪
      nonPublicEvents ∪ nonPublicNestedTypes
  | .interfaces => Categories.interfaces

/-- The name of the kind. -/
def name : LookupKind → String
  | .constructors => "Constructors"
  | .methods => "Methods"
  | .fields => "Fields"
  | .properties => "Properties"
  | .events => "Events"
  | .nestedTypes => "NestedTypes"
  | .members => "Members"
  | .interfaces => "Interfaces"

end LookupKind

/-! ## 3. Lookups -/

/-- The categories a lookup reaches and how it compares names. -/
structure Lookup where
  categories : Categories
  ignoreCase : Bool
  reachesPublic : Bool
  reachesNonPublic : Bool
  deriving DecidableEq, Repr

namespace Lookup

/-- The lookup of a kind for public or non-public members or both. -/
def reaching (kind : LookupKind) (reachesPublic reachesNonPublic ignoreCase : Bool) : Lookup where
  categories :=
    (if reachesPublic then kind.publicCategories else .nothing) ∪
      (if reachesNonPublic then kind.nonPublicCategories else .nothing)
  ignoreCase := ignoreCase
  reachesPublic := reachesPublic
  reachesNonPublic := reachesNonPublic

/-- A lookup without flags reaches public members. -/
def byDefault (kind : LookupKind) : Lookup := reaching kind true false false

/-- A lookup that could be anything of its kind. -/
def anything (kind : LookupKind) : Lookup := reaching kind true true true

/-- The flags of each value, if all values are constants that are understood. -/
def flagsOf? (values : List Value) : Option (List BindingFlags) :=
  values.mapM fun v => v.constant?.bind BindingFlags.ofConstant?

/-- The lookup that a flags argument selects; every value it may hold contributes. -/
def ofFlags (kind : LookupKind) (flags : ValueSet) : Lookup :=
  if flags.isEmpty then anything kind
  else match flagsOf? flags.members with
  | some all =>
    reaching kind (all.any BindingFlags.wantsPublic) (all.any BindingFlags.wantsNonPublic) false
  | none => anything kind

end Lookup

end ReflectionFlow

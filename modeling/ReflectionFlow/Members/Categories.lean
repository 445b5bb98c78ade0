/-
  File:      ReflectionFlow/Members/Categories.lean
  Subject:   Sets of member categories.

  A requirement says which categories of members must stay reachable on the type a value
  denotes.  A set of categories is a word of 32 bits.  The category of all public
  constructors includes the bit of the parameterless one, and all bits together stand for
  everything, also for categories that have no name.

  Main definitions:
  * `Categories.covers`        the order by inclusion
  * `Categories.inherited`     what a requirement on a type says about its base type
  * `Categories.render`        the text of a set
-/
import ReflectionFlow.Order.Rank
import ReflectionFlow.Text.Hex

namespace ReflectionFlow

/-- A set of member categories. -/
structure Categories where
  bits : UInt32
  deriving DecidableEq, Repr

namespace Categories

/-- Sets are ordered by their bits. -/
instance : Ranked Categories := Ranked.via Categories.bits fun {a b} h => by
  cases a; cases b; simpa using h

instance : Inhabited Categories := ⟨⟨0⟩⟩

/-! ## 1. The named categories -/

def nothing : Categories := ⟨0⟩
def publicParameterlessConstructor : Categories := ⟨0x0001⟩
def publicConstructors : Categories := ⟨0x0003⟩
def nonPublicConstructors : Categories := ⟨0x0004⟩
def publicMethods : Categories := ⟨0x0008⟩
def nonPublicMethods : Categories := ⟨0x0010⟩
def publicFields : Categories := ⟨0x0020⟩
def nonPublicFields : Categories := ⟨0x0040⟩
def publicNestedTypes : Categories := ⟨0x0080⟩
def nonPublicNestedTypes : Categories := ⟨0x0100⟩
def publicProperties : Categories := ⟨0x0200⟩
def nonPublicProperties : Categories := ⟨0x0400⟩
def publicEvents : Categories := ⟨0x0800⟩
def nonPublicEvents : Categories := ⟨0x1000⟩
def interfaces : Categories := ⟨0x2000⟩

/-- Everything, named or not. -/
def all : Categories := ⟨0xFFFFFFFF⟩

/-! ## 2. Operations -/

/-- The categories of both sets. -/
def union (a b : Categories) : Categories := ⟨a.bits ||| b.bits⟩

/-- The categories common to both sets. -/
def inter (a b : Categories) : Categories := ⟨a.bits &&& b.bits⟩

instance : Union Categories := ⟨union⟩

instance : Inter Categories := ⟨inter⟩

/-- Is the set empty? -/
def isEmpty (a : Categories) : Bool := a.bits == 0

/-- Does the set contain every bit of another one? -/
def covers (a b : Categories) : Bool := a.bits &&& b.bits == b.bits

/-- Every set covers itself. -/
theorem covers_refl (a : Categories) : a.covers a = true := by simp [covers]

/-- What a requirement on a type says about its base type: public members are inherited,
    constructors, nested types and non-public members are not, and everything stays
    everything. -/
def inherited (a : Categories) : Categories :=
  if a = all then all
  else a ∩ (publicEvents ∪ publicFields ∪ publicMethods ∪ publicProperties ∪ interfaces)

/-! ## 3. Text -/

/-- The names of the categories, in the order in which they are listed. -/
def names : List (String × Categories) :=
  [("PUBLIC_PARAMETERLESS_CONSTRUCTOR", publicParameterlessConstructor),
   ("PUBLIC_CONSTRUCTORS", publicConstructors),
   ("NON_PUBLIC_CONSTRUCTORS", nonPublicConstructors),
   ("PUBLIC_METHODS", publicMethods),
   ("NON_PUBLIC_METHODS", nonPublicMethods),
   ("PUBLIC_FIELDS", publicFields),
   ("NON_PUBLIC_FIELDS", nonPublicFields),
   ("PUBLIC_NESTED_TYPES", publicNestedTypes),
   ("NON_PUBLIC_NESTED_TYPES", nonPublicNestedTypes),
   ("PUBLIC_PROPERTIES", publicProperties),
   ("NON_PUBLIC_PROPERTIES", nonPublicProperties),
   ("PUBLIC_EVENTS", publicEvents),
   ("NON_PUBLIC_EVENTS", nonPublicEvents),
   ("INTERFACES", interfaces),
   ("ALL", all)]

/-- The names of a set whose remaining bits still need one: a name is listed when the set
    covers it and it accounts for a bit no earlier name did; bits without a name follow
    in hexadecimal. -/
def listNames (a : Categories) (remaining : UInt32) : List (String × Categories) → List String
  | [] => if remaining == 0 then [] else ["0x" ++ Text.hex remaining.toNat]
  | (name, c) :: r =>
    if a.covers c && remaining &&& c.bits != 0 then
      name :: listNames a (remaining &&& ~~~c.bits) r
    else listNames a remaining r

/-- The text of a set. -/
def render (a : Categories) : String :=
  let listed := if a.isEmpty then ["0x0"] else a.listNames a.bits names
  "MemberTypes(" ++ Text.joined " | " listed ++ ")"

end Categories

end ReflectionFlow

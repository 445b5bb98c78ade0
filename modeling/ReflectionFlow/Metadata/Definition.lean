/-
  File:      ReflectionFlow/Metadata/Definition.lean
  Subject:   Definitions of types, methods, fields, properties and events.

  A definition carries its flags as a word; the predicates beside it read from the flags
  what the analysis needs: visibility, static or not, sealed, layout.

  Main definitions:
  * `TypeDef`, `MethodDef`, `FieldDef`, `PropertyDef`, `EventDef`
  * `MethodRef`       a method with the generic arguments a reference gives it
-/
import ReflectionFlow.Metadata.Marshal
import ReflectionFlow.Metadata.TypeSig

namespace ReflectionFlow

/-- A generic parameter as it is declared. -/
structure GenericParam where
  index : UInt16
  name : String
  flags : UInt16
  deriving DecidableEq, Repr

/-- Must an argument have a public constructor without parameters? -/
def GenericParam.needsConstructor (p : GenericParam) : Bool := p.flags &&& 0x10 != 0

/-! ## 1. Types -/

/-- A type definition. -/
structure TypeDef where
  token : Token
  assembly : String
  /-- Empty for nested types. -/
  space : String
  name : String
  /-- Name with namespace, or with the full name of the enclosing type and a plus sign. -/
  fullName : String
  flags : UInt32
  base : Option Token
  enclosing : Option Token
  interfaces : List Token := []
  generics : List GenericParam := []
  methods : List Token := []
  fields : List Token := []
  properties : List Token := []
  events : List Token := []
  nested : List Token := []
  deriving DecidableEq, Repr

namespace TypeDef

/-- Is the type an interface? -/
def isInterface (t : TypeDef) : Bool := t.flags &&& 0x20 != 0

/-- Can no type derive from it? -/
def isSealed (t : TypeDef) : Bool := t.flags &&& 0x100 != 0

/-- Is the type public, as a top-level or as a nested type? -/
def isPublic (t : TypeDef) : Bool := t.flags &&& 0x7 == 1 || t.flags &&& 0x7 == 2

/-- Does the type declare its layout, in sequence or by offsets? -/
def hasLayout (t : TypeDef) : Bool := t.flags &&& 0x18 != 0

end TypeDef

/-! ## 2. Methods -/

/-- A method definition. -/
structure MethodDef where
  token : Token
  declaring : Token
  name : String
  flags : UInt16
  sig : MethodSig
  generics : List GenericParam := []
  paramNames : List String
  /-- How the return value is passed from native code. -/
  returnForm : Option NativeForm := none
  /-- How the parameters are passed to native code. -/
  paramForms : List (Option NativeForm) := []
  deriving DecidableEq, Repr

namespace MethodDef

/-- Is the method static? -/
def isStatic (m : MethodDef) : Bool := m.flags &&& 0x10 != 0

/-- Is the method public? -/
def isPublic (m : MethodDef) : Bool := m.flags &&& 0x7 == 6

/-- Is the method private? -/
def isPrivate (m : MethodDef) : Bool := m.flags &&& 0x7 == 1

/-- Is the method an instance constructor? -/
def isConstructor (m : MethodDef) : Bool := !m.isStatic && m.name == ".ctor"

/-- Is the method the class constructor? -/
def isClassConstructor (m : MethodDef) : Bool := m.isStatic && m.name == ".cctor"

/-- Is the method a constructor of either kind? -/
def isAnyConstructor (m : MethodDef) : Bool := m.isConstructor || m.isClassConstructor

/-- Is the method implemented by native code? -/
def isNative (m : MethodDef) : Bool := m.flags &&& 0x2000 != 0

/-- Number of declared parameters. -/
def paramCount (m : MethodDef) : Nat := m.sig.params.length

/-- Do calls pass an implicit instance? -/
def hasThis (m : MethodDef) : Bool := m.sig.hasThis && !m.sig.explicitThis

end MethodDef

/-- A method with the generic arguments that a reference gives it. -/
structure MethodRef where
  method : MethodDef
  typeArgs : List TypeSig := []
  methodArgs : List TypeSig := []
  deriving DecidableEq, Repr

/-- The signature with the generic arguments in place. -/
def MethodRef.instantiated (r : MethodRef) : MethodSig :=
  r.method.sig.substitute r.typeArgs r.methodArgs

/-! ## 3. Fields, properties, events -/

/-- A field definition. -/
structure FieldDef where
  token : Token
  declaring : Token
  name : String
  flags : UInt16
  sig : TypeSig
  deriving DecidableEq, Repr

namespace FieldDef

/-- Is the field static? -/
def isStatic (f : FieldDef) : Bool := f.flags &&& 0x10 != 0

/-- Is the field public? -/
def isPublic (f : FieldDef) : Bool := f.flags &&& 0x7 == 6

/-- Is the field private? -/
def isPrivate (f : FieldDef) : Bool := f.flags &&& 0x7 == 1

end FieldDef

/-- A property definition. -/
structure PropertyDef where
  token : Token
  declaring : Token
  name : String
  getter : Option Token
  setter : Option Token
  deriving DecidableEq, Repr

/-- The accessors, the getter first. -/
def PropertyDef.accessors (p : PropertyDef) : List Token := p.getter.toList ++ p.setter.toList

/-- An event definition. -/
structure EventDef where
  token : Token
  declaring : Token
  name : String
  adder : Option Token
  remover : Option Token
  raiser : Option Token
  deriving DecidableEq, Repr

/-- The accessors in the order add, remove, raise. -/
def EventDef.accessors (e : EventDef) : List Token :=
  e.adder.toList ++ e.remover.toList ++ e.raiser.toList

end ReflectionFlow

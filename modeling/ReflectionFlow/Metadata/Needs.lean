/-
  File:      ReflectionFlow/Metadata/Needs.lean
  Subject:   What the signature of a method and the generic parameters of a declaration need.

  The annotations of a store are single entries.  Here they are gathered: all annotations of
  a method in one record, and the needs of all generic parameters of a type or a method in
  one list.  A constructor constraint on a generic parameter counts as a need.

  Main definitions:
  * `Needs`, `Store.needs`          the annotations of a method
  * `Store.genericNeedsOf`          the needs of the generic parameters of an owner
-/
import ReflectionFlow.Metadata.Resolve

namespace ReflectionFlow

/-- The annotations of a method. -/
structure Needs where
  /-- What each declared parameter needs. -/
  params : List Categories
  /-- What the return value promises. -/
  ret : Categories
  /-- What the instance needs. -/
  this : Categories
  /-- Why the method requires unreferenced code. -/
  warning : Option String
  deriving DecidableEq, Repr

namespace Needs

/-- What a declared parameter needs; nothing beyond the last one. -/
def param (n : Needs) (index : Nat) : Categories := n.params[index]?.getD .nothing

/-- Does a parameter or the instance need anything? -/
def anyParam (n : Needs) : Bool := !n.this.isEmpty || n.params.any fun c => !c.isEmpty

end Needs

/-- The index of a parameter as annotations number it; there are none from 65536 on. -/
def wordIndex? (index : Nat) : Option UInt16 :=
  if index < UInt16.size then some (UInt16.ofNat index) else none

namespace Store

/-- The annotations of a method.  The instance counts only where calls pass one. -/
def needs (s : Store) (m : MethodDef) : Needs where
  params := (List.range m.paramCount).map fun i => match wordIndex? i with
    | some index => s.parameterNeed m.token index
    | none => .nothing
  ret := s.returnNeed m.token
  this := if m.hasThis then s.thisNeed m.token else .nothing
  warning := s.warning? m.token

/-- The generic parameters that an owner declares. -/
def genericsOf (s : Store) : Owner → List GenericParam
  | .type t => ((s.type? t).map TypeDef.generics).getD []
  | .method t => ((s.methodDef? t).map MethodDef.generics).getD []

/-- What each generic parameter of an owner needs. -/
def genericNeedsOf (s : Store) (owner : Owner) : List Categories :=
  (s.genericsOf owner).map fun p =>
    s.genericNeed owner p.index ∪
      (if p.needsConstructor then .publicParameterlessConstructor else .nothing)

/-- A method has one need for each declared parameter. -/
theorem length_params_needs (s : Store) (m : MethodDef) :
    (s.needs m).params.length = m.paramCount := by
  simp [needs]

end Store

end ReflectionFlow

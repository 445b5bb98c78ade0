/-
  File:      ReflectionFlow/Reflection/Handle.lean
  Subject:   The rules of the whole catalogue in one place.

  A call of a catalogued method is handled twice.  While the calling method is iterated only
  the returned values matter, and the reporter is not live; afterwards the same rule runs
  once more with a live one.
-/
import ReflectionFlow.Reflection.Activation
import ReflectionFlow.Reflection.MakeGeneric
import ReflectionFlow.Reflection.MemberQuery
import ReflectionFlow.Reflection.TypeQuery

namespace ReflectionFlow

namespace CallSite

/-- An expression that creates an instance requires a constructor if it is given a type. -/
def expressionNew? (c : CallSite) (r : Reporter) : Option (Act ValueSet) :=
  if c.shapes = [.type] then
    (c.parameter? 0).map fun types => do
      r.require types .publicParameterlessConstructor (.ofParameter c.method 0)
      c.defaultReturn
  else some c.defaultReturn

/-- An empty array, allocated by the call. -/
def emptyArray (c : CallSite) : ValueSet :=
  .single (.array (.fresh ⟨c.context.method.token, c.offset⟩ (.single (.int 0))))

/-- What a call of a catalogued method returns, with its marks and reports; none for an
    overload that is not understood. -/
def handle? (c : CallSite) (r : Reporter) : Intrinsic → Option (Act ValueSet)
  | .getType => c.getType? r
  | .typeFromHandle => c.typeFromHandle?
  | .typeHandle => c.typeHandle?
  | .objectGetType => c.objectType?
  | .baseType => c.baseType?
  | .lookup kind named => c.lookupMembers? r kind named
  | .makeGenericType => c.makeGeneric? r .makeGenericType
  | .makeGenericMethod => c.makeGeneric? r .makeGenericMethod
  | .methodFromHandle => c.methodFromHandle?
  | .createInstance => c.createInstance? r
  | .createInstanceByName => c.createInstanceByName? r
  | .createInstanceGeneric => c.createGeneric? r
  | .createInstanceFromAssembly => some do
    r.report (.createFromAssembly c.method.name)
    c.defaultReturn
  | .runClassConstructor => c.runClassConstructor? r
  | .expression member => c.expressionMember? r member
  | .expressionNew => c.expressionNew? r
  | .layout _ => c.layout? r
  | .emptyArray => some (pure c.emptyArray)

end CallSite

end ReflectionFlow

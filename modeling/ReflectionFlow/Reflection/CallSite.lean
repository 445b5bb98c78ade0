/-
  File:      ReflectionFlow/Reflection/CallSite.lean
  Subject:   A call of a known method with the values of its arguments.

  Main definitions:
  * `CallSite.receiver?`, `CallSite.parameter?`    the arguments by their role
  * `CallSite.shapes`                              what tells overloads apart
  * `CallSite.defaultReturn`                       what a call returns when nothing more is known
-/
import ReflectionFlow.Session.Context

namespace ReflectionFlow

/-- A call. -/
structure CallSite where
  /-- The calling method. -/
  context : Context
  /-- Where the call stands in it. -/
  offset : Nat
  callee : MethodRef
  /-- Values of the arguments, an instance first. -/
  arguments : List ValueSet

namespace CallSite

/-- The called method. -/
def method (c : CallSite) : MethodDef := c.callee.method

/-- The return type with the generic arguments in place. -/
def returnType (c : CallSite) : TypeSig := c.callee.instantiated.ret

/-- The instance on which the method is called. -/
def receiver? (c : CallSite) : Option ValueSet :=
  if c.method.hasThis then c.arguments.head? else none

/-- The argument for a declared parameter. -/
def parameter? (c : CallSite) (index : Nat) : Option ValueSet :=
  c.arguments[index + if c.method.hasThis then 1 else 0]?

/-- The shapes of the declared parameters. -/
def shapes (c : CallSite) : List ParamShape := c.method.sig.params.map (ParamShape.of c.context.store)

/-- The result of the call as a symbol that promises what is given. -/
def returning (c : CallSite) (need : Categories) : ValueSet :=
  .single (.symbol (.ret c.method.token) need c.returnType)

/-- What the call returns when nothing more is known: nothing, the returned location, or a
    symbol with the promise of the annotation. -/
def defaultReturn (c : CallSite) : Act ValueSet :=
  if c.returnType.isVoid then pure .empty
  else if c.returnType.isByRef then pure (.single (.address (.returnSlot c.method.token)))
  else do return c.returning (← c.context.store.askNeeds c.method).ret

/-- The given result, or the default one if it is empty. -/
def orDefault (c : CallSite) (result : ValueSet) : Act ValueSet :=
  if result.isEmpty then c.defaultReturn else pure result

end CallSite

/-- The texts of a set that holds nothing else. -/
def SetOf.constantTexts? (s : ValueSet) : Option (List String) :=
  s.members.mapM fun
    | .string text => some text
    | _ => none

/-- May the set hold something other than false? -/
def SetOf.maybeTrue (s : ValueSet) : Bool := s.members.any fun v => v.constant? != some 0

end ReflectionFlow

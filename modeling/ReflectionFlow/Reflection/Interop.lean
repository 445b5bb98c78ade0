/-
  File:      ReflectionFlow/Reflection/Interop.lean
  Subject:   Native methods that pass COM objects.

  A value that is passed as a COM interface needs members that no reference names.  Whether a
  parameter is passed that way follows from how it is declared to be passed, and without such
  a declaration from its type: an object, or a class that is not passed in another way.
-/
import ReflectionFlow.Session.Reporter

namespace ReflectionFlow

namespace Store

/-- Classes that are passed as text. -/
def passedAsText : List String := ["System.String", "System.Text.StringBuilder"]

/-- Base classes of what is passed as a handle, as a function or by value. -/
def passedByHandle : List String :=
  ["System.Runtime.InteropServices.SafeHandle", "System.Runtime.InteropServices.CriticalHandle",
   "System.Delegate", "System.MulticastDelegate", "System.ValueType", "System.Enum"]

/-- How many base types are looked at. -/
def interopDepth : Nat := 65

/-- Are objects of a class passed as COM objects? -/
def isComClass (s : Store) (d : TypeDef) : Bool :=
  if d.fullName == "System.Array" || d.isInterface then true
  else if passedAsText.contains d.fullName || d.hasLayout then false
  else
    !((s.baseChainWithin interopDepth d).drop 1).any fun b => passedByHandle.contains b.fullName

/-- Is a value passed as a COM object? -/
def isCom (s : Store) (form : Option NativeForm) (t : TypeSig) : Bool :=
  match form with
  | some f => f.isComInterface
  | none => match t.stripByRef with
    | .prim .object => true
    | .classType t => match s.type? t with
      | some d => s.isComClass d
      | none => false
    | _ => false

/-- Does a native method return or take COM objects? -/
def passesCom (s : Store) (m : MethodDef) : Bool :=
  (!m.sig.ret.isVoid && s.isCom m.returnForm m.sig.ret) ||
    m.sig.params.zipIdx.any fun (t, i) => s.isCom (m.paramForms[i]?.getD none) t

end Store

/-- Reports a native method that passes COM objects. -/
def Reporter.checkInterop (r : Reporter) (m : MethodDef) : Act Unit :=
  if m.isNative && r.store.passesCom m then r.report (.comInterop m.name) else pure ()

end ReflectionFlow

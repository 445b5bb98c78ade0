/-
  File:      ReflectionFlow/Metadata/Marshal.lean
  Subject:   How a parameter or a return value is passed to native code.

  Only one question is asked of a descriptor: does it pass a COM interface pointer?
-/

namespace ReflectionFlow

/-- The native form of a value. -/
inductive NativeForm where
  | boolean
  | integer (bytes : Nat) (signed : Bool)
  | float (bytes : Nat)
  | nativeInt
  | bstr
  | ansiString
  | wideString
  | utf8String
  | iUnknown
  | iDispatch
  | iInspectable
  /-- A COM interface; the index of the parameter that names it may be given. -/
  | comInterface (iidParameter : Option Nat)
  | struct
  | array (element : NativeForm) (countParameter : Option Nat)
  | safeArray
  | functionPointer
  | asAny
  | custom (marshaller : String)
  deriving DecidableEq, Repr

/-- Is the value passed as a COM interface pointer? -/
def NativeForm.isComInterface : NativeForm → Bool
  | .iUnknown | .iDispatch | .comInterface _ => true
  | _ => false

end ReflectionFlow

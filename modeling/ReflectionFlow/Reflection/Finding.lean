/-
  File:      ReflectionFlow/Reflection/Finding.lean
  Subject:   Findings: every kind of observation that is reported, with its code and text.

  A finding is a cause with its data.  Its code and its message are functions of it, so all
  wording stands in this file.

  Main definitions:
  * `Place`            an annotated place that a value flows into
  * `CodeFault`        what can be wrong with code
  * `Finding`, `Finding.code`, `Finding.message`
-/
import ReflectionFlow.Code.Instruction
import ReflectionFlow.Reflection.Intrinsic
import ReflectionFlow.Report.Diagnostic

namespace ReflectionFlow

/-! ## 1. Places -/

/-- An annotated place that a value flows into. -/
inductive Place where
  /-- A parameter of a method, by name if it has one. -/
  | parameter (method : String) (index : Nat) (name : Option String)
  | ret (method : String)
  | this (method : String)
  | field (name : String)
  | generic (owner : Owner) (index : Nat)
  deriving DecidableEq, Repr

namespace Place

/-- A declared parameter of a method. -/
def ofParameter (m : MethodDef) (index : Nat) : Place := .parameter m.name index m.paramNames[index]?

/-- The kind of a place. -/
def kind : Place → SourceKind
  | .parameter .. => .parameter
  | .ret _ => .ret
  | .this _ => .this
  | .field _ => .field
  | .generic .. => .generic

/-- A place in words. -/
def render : Place → String
  | .parameter method index name =>
    "parameter " ++ (match name with
      | some n => "'" ++ n ++ "'"
      | none => "#" ++ toString index) ++ " of '" ++ method ++ "'"
  | .ret method => "return value of '" ++ method ++ "'"
  | .this method => "implicit 'this' of '" ++ method ++ "'"
  | .field name => "field '" ++ name ++ "'"
  | .generic (.type t) index => "generic parameter !" ++ toString index ++ " of type " ++ t.render
  | .generic (.method t) index =>
    "generic parameter !!" ++ toString index ++ " of method " ++ t.render

end Place

/-! ## 2. Faults in code -/

/-- What can be wrong with an instruction. -/
inductive CodeFault where
  | stackUnderflow
  | stackNotEmpty
  | missingArgument
  | missingLocal
  /-- A call whose target is not known. -/
  | unresolvedCall (i : Instruction)
  deriving DecidableEq, Repr

/-- A fault in words. -/
def CodeFault.message : CodeFault → String
  | .stackUnderflow => "evaluation stack underflow"
  | .stackNotEmpty => "evaluation stack is not empty at return"
  | .missingArgument => "missing argument operand"
  | .missingLocal => "missing local operand"
  | .unresolvedCall i => "call target of " ++ i.render ++ " cannot be resolved"

/-! ## 3. Findings -/

/-- What is reported. -/
inductive Finding where
  /-- A method that requires unreferenced code is used. -/
  | requiresUnreferencedCode (method message : String)
  /-- A type is looked up by something that is not a constant. -/
  | unknownTypeName (value : Value)
  /-- A text that flows into a place names no type. -/
  | unresolvedName (text : String) (place : Place)
  /-- An assembly has no type of that name. -/
  | absentFromAssembly (name assembly : String)
  /-- An annotated value promises less than a place needs. -/
  | mismatch (value : Value) (source : SourceKind) (available required : Categories) (place : Place)
  /-- A value of which nothing is promised flows into a place. -/
  | unrecognizedValue (value : Value) (place : Place)
  /-- An instance is created by names that are not constants. -/
  | createByUnknownName (assembly name : Value)
  /-- An instance is created from an assembly. -/
  | createFromAssembly (method : String)
  /-- A generic type or method is made from something unknown. -/
  | makeGenericOfUnknown (what : Intrinsic) (value : Value)
  /-- The arguments of a generic type or method are unknown. -/
  | unknownGenericArguments (what : Intrinsic) (value : Value)
  /-- One argument of a generic type or method is unknown. -/
  | unknownGenericArgument (what : Intrinsic) (index : Nat)
  /-- The class constructor of something unknown is run. -/
  | unknownTypeHandle (value : Value)
  /-- An overload is not understood. -/
  | unanalyzedOverload (what : Intrinsic)
  /-- A native method passes COM objects. -/
  | comInterop (method : String)
  /-- An instruction makes no sense. -/
  | invalidCode (fault : CodeFault)
  deriving DecidableEq, Repr

namespace Finding

/-- The code of findings about generic types or methods. -/
def genericCode : Intrinsic → Code
  | .makeGenericType => .unrecognizedMakeGenericType
  | _ => .unrecognizedMakeGenericMethod

/-- The code of a finding. -/
def code : Finding → Code
  | .requiresUnreferencedCode .. => .requiresUnreferencedCode
  | .unknownTypeName _ => .unrecognizedTypeName
  | .unresolvedName .. | .absentFromAssembly .. => .unresolvedTypeName
  | .mismatch _ source _ _ place => .requirementMismatch source place.kind
  | .unrecognizedValue _ place => .unrecognizedValue place.kind
  | .createByUnknownName .. => .unrecognizedCreateInstanceName
  | .createFromAssembly _ => .assemblyCreateInstance
  | .makeGenericOfUnknown what _ | .unknownGenericArguments what _
  | .unknownGenericArgument what _ => genericCode what
  | .unknownTypeHandle _ => .unrecognizedClassConstructor
  | .unanalyzedOverload _ => .unanalyzableCall
  | .comInterop _ => .comInterop
  | .invalidCode _ => .invalidCode

/-- A finding in words. -/
def message : Finding → String
  | .requiresUnreferencedCode method message =>
    "using '" ++ method ++ "' may break functionality when trimming: " ++ message
  | .unknownTypeName value =>
    "type name " ++ value.render ++ " passed to 'Type.GetType' is not a constant"
  | .unresolvedName text place =>
    "type '" ++ text ++ "' flowing into " ++ place.render ++ " could not be resolved"
  | .absentFromAssembly name assembly =>
    "type '" ++ name ++ "' was not found in assembly '" ++ assembly ++ "'"
  | .mismatch value _ available required place =>
    value.render ++ " with requirement " ++ available.render ++ " does not satisfy " ++
      required.render ++ " of " ++ place.render
  | .unrecognizedValue value place =>
    "value " ++ value.render ++ " passed to " ++ place.render ++ " cannot be statically analyzed"
  | .createByUnknownName assembly name =>
    "'Activator.CreateInstance' with assembly " ++ assembly.render ++ " and type " ++ name.render ++
      " cannot be statically analyzed"
  | .createFromAssembly method =>
    "'" ++ method ++ "' creates instances of types that cannot be statically determined"
  | .makeGenericOfUnknown what value =>
    "'" ++ what.name ++ "' on " ++ value.render ++ " cannot be statically analyzed"
  | .unknownGenericArguments what value =>
    "type arguments " ++ value.render ++ " of '" ++ what.name ++ "' are not statically known"
  | .unknownGenericArgument what index =>
    "type argument " ++ toString index ++ " of '" ++ what.name ++ "' is not statically known"
  | .unknownTypeHandle value =>
    "type handle " ++ value.render ++ " passed to 'RunClassConstructor' is not statically known"
  | .unanalyzedOverload what => "overload of '" ++ what.name ++ "' called from here is not analyzed"
  | .comInterop method =>
    "p/invoke method '" ++ method ++ "' uses built-in COM interop, which may need members that " ++
      "are not statically referenced"
  | .invalidCode fault => fault.message

/-- The diagnostic that reports a finding at an origin. -/
def diagnostic (f : Finding) (origin : Origin) : Diagnostic := ⟨origin, f.code, f.message⟩

end Finding

end ReflectionFlow

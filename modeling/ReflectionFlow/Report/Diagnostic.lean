/-
  File:      ReflectionFlow/Report/Diagnostic.lean
  Subject:   Diagnostics: what the analysis could not prove safe, and where.

  Each diagnostic has a code with a number.  Codes about values that flow into annotated
  places are numbered by the kinds of the places involved.  Diagnostics are kept in the
  order in which they arrive and can be listed in the order of origin, code and message.

  Main definitions:
  * `Origin`, `Code`, `Severity`, `Diagnostic`
  * `Code.number`, `Code.severity`
  * `Diagnostic.render`
-/
import ReflectionFlow.Order.Sorted
import ReflectionFlow.Value.Basic

namespace ReflectionFlow

/-! ## 1. Origins -/

/-- A method, or an instruction of it. -/
structure Origin where
  method : Token
  offset : Option Nat
  deriving DecidableEq, Repr

instance : Ranked Origin := Ranked.via (fun o => (o.method, o.offset)) fun {a b} h => by
  cases a; cases b; simpa using h

/-- The text of an origin. -/
def Origin.render (o : Origin) : String :=
  match o.offset with
  | some offset => o.method.render ++ "+" ++ Text.offset offset
  | none => o.method.render

/-! ## 2. Codes -/

/-- What a diagnostic is about. -/
inductive Code where
  /-- A call to a method marked as requiring unreferenced code. -/
  | requiresUnreferencedCode
  /-- Creation of an instance by unknown names. -/
  | unrecognizedCreateInstanceName
  /-- A native signature that may pass a COM interface. -/
  | comInterop
  /-- A generic type made from something unknown. -/
  | unrecognizedMakeGenericType
  /-- A type looked up by an unknown name. -/
  | unrecognizedTypeName
  /-- Creation of an instance from an assembly. -/
  | assemblyCreateInstance
  /-- A class constructor run on an unknown type. -/
  | unrecognizedClassConstructor
  /-- A generic method made from something unknown. -/
  | unrecognizedMakeGenericMethod
  /-- Something unknown flows into an annotated place. -/
  | unrecognizedValue (target : SourceKind)
  /-- An annotated value promises less than the place it flows into needs. -/
  | requirementMismatch (source target : SourceKind)
  /-- A type name that names no type. -/
  | unresolvedTypeName
  /-- Code that is not well-formed. -/
  | invalidCode
  /-- A reflection call whose form is not understood. -/
  | unanalyzableCall
  deriving DecidableEq, Repr

/-- The place of a kind of source in the numbering. -/
def SourceKind.index : SourceKind → Nat
  | .parameter => 0
  | .ret => 1
  | .field => 2
  | .this => 3
  | .generic => 4

/-- The number of a code. -/
def Code.number : Code → Nat
  | .requiresUnreferencedCode => 2026
  | .unrecognizedCreateInstanceName => 2032
  | .comInterop => 2050
  | .unrecognizedMakeGenericType => 2055
  | .unrecognizedTypeName => 2057
  | .assemblyCreateInstance => 2058
  | .unrecognizedClassConstructor => 2059
  | .unrecognizedMakeGenericMethod => 2060
  | .unrecognizedValue target => 2062 + target.index
  | .requirementMismatch source target => 2067 + 5 * source.index + target.index
  | .unresolvedTypeName => 2105
  | .invalidCode => 9001
  | .unanalyzableCall => 9002

/-- The kind of source at a place in the numbering. -/
def SourceKind.ofIndex : Nat → SourceKind
  | 0 => .parameter
  | 1 => .ret
  | 2 => .field
  | 3 => .this
  | _ => .generic

/-- The code with a given number. -/
def Code.ofNumber : Nat → Code
  | 2026 => .requiresUnreferencedCode
  | 2032 => .unrecognizedCreateInstanceName
  | 2050 => .comInterop
  | 2055 => .unrecognizedMakeGenericType
  | 2057 => .unrecognizedTypeName
  | 2058 => .assemblyCreateInstance
  | 2059 => .unrecognizedClassConstructor
  | 2060 => .unrecognizedMakeGenericMethod
  | 2105 => .unresolvedTypeName
  | 9001 => .invalidCode
  | 9002 => .unanalyzableCall
  | n =>
    if n < 2067 then .unrecognizedValue (.ofIndex (n - 2062))
    else .requirementMismatch (.ofIndex ((n - 2067) / 5)) (.ofIndex ((n - 2067) % 5))

/-- A code can be told from its number. -/
theorem Code.ofNumber_number (c : Code) : Code.ofNumber c.number = c := by
  cases c with
  | unrecognizedValue k => cases k <;> rfl
  | requirementMismatch j k => cases j <;> cases k <;> rfl
  | _ => rfl

/-- A number belongs to one code. -/
theorem Code.number_inj {a b : Code} (h : a.number = b.number) : a = b := by
  rw [← Code.ofNumber_number a, h, Code.ofNumber_number]

/-- Codes are ordered by their numbers. -/
instance : Ranked Code := Ranked.via Code.number Code.number_inj

/-- The name of what a code is about; which kinds of places are involved is not part of it. -/
def Code.name : Code → String
  | .requiresUnreferencedCode => "RequiresUnreferencedCode"
  | .unrecognizedCreateInstanceName => "UnrecognizedCreateInstanceName"
  | .comInterop => "ComInterop"
  | .unrecognizedMakeGenericType => "UnrecognizedMakeGenericType"
  | .unrecognizedTypeName => "UnrecognizedTypeName"
  | .assemblyCreateInstance => "AssemblyCreateInstance"
  | .unrecognizedClassConstructor => "UnrecognizedClassConstructor"
  | .unrecognizedMakeGenericMethod => "UnrecognizedMakeGenericMethod"
  | .unrecognizedValue _ => "UnrecognizedValue"
  | .requirementMismatch .. => "RequirementMismatch"
  | .unresolvedTypeName => "UnresolvedTypeName"
  | .invalidCode => "InvalidIl"
  | .unanalyzableCall => "UnanalyzableCall"

/-- The text of a code. -/
def Code.render (c : Code) : String := "IL" ++ toString c.number

/-! ## 3. Diagnostics -/

/-- How serious a diagnostic is. -/
inductive Severity where
  | info
  | warning
  deriving DecidableEq, Repr

instance : Ranked Severity := Ranked.via Severity.ctorIdx fun {a b} h => by
  cases a <;> cases b <;> first | rfl | exact absurd h (by decide)

/-- The text of a severity. -/
def Severity.render : Severity → String
  | .info => "INFO"
  | .warning => "WARN"

/-- Only malformed code is reported for information; everything else is a warning. -/
def Code.severity : Code → Severity
  | .invalidCode => .info
  | _ => .warning

/-- A diagnostic; its severity is that of its code. -/
structure Diagnostic where
  origin : Origin
  code : Code
  message : String
  deriving DecidableEq, Repr

/-- Diagnostics are ordered by origin, code and message. -/
instance : Ranked Diagnostic := Ranked.via (fun d => (d.origin, d.code, d.message)) fun {a b} h => by
  cases a; cases b; simpa using h

/-- How serious a diagnostic is. -/
def Diagnostic.severity (d : Diagnostic) : Severity := d.code.severity

/-- The text of a diagnostic. -/
def Diagnostic.render (d : Diagnostic) : String :=
  "[" ++ d.severity.render ++ "] " ++ d.code.render ++ " " ++ d.origin.render ++ ": " ++ d.message

end ReflectionFlow

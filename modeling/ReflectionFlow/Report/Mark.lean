/-
  File:      ReflectionFlow/Report/Mark.lean
  Subject:   Marks: members that must be kept, why, and on whose behalf.

  A mark names a member, a reason and an origin.  Marks are noted in the order in which
  they are made, repetitions included; the set of marked members has each member once.
-/
import ReflectionFlow.Report.Diagnostic

namespace ReflectionFlow

/-- Kinds of members, in the order in which they are listed. -/
inductive MemberKind where
  | type
  | method
  | field
  | property
  | event
  deriving DecidableEq, Repr

instance : Ranked MemberKind := Ranked.via MemberKind.ctorIdx fun {a b} h => by
  cases a <;> cases b <;> first | rfl | exact absurd h (by decide)

/-- The name of a kind. -/
def MemberKind.name : MemberKind → String
  | .type => "Type"
  | .method => "Method"
  | .field => "Field"
  | .property => "Property"
  | .event => "Event"

/-- A member, by kind and token. -/
structure Member where
  kind : MemberKind
  token : Token
  deriving DecidableEq, Repr

instance : Ranked Member := Ranked.via (fun m => (m.kind, m.token)) fun {a b} h => by
  cases a; cases b; simpa using h

/-- Why a member is marked. -/
inductive MarkReason where
  /-- An annotation or an equivalent requirement asks for it. -/
  | accessedMembers
  /-- A text names it. -/
  | typeName
  /-- A reflection call looks it up. -/
  | reflectionLookup
  /-- An instance of it is created. -/
  | activation
  /-- Its class constructor is run. -/
  | classConstructor
  /-- Its layout is needed by native code. -/
  | interopLayout
  /-- A created object is cast to it. -/
  | castTarget
  deriving DecidableEq, Repr

/-- The reason in words. -/
def MarkReason.render : MarkReason → String
  | .accessedMembers => "accessed members"
  | .typeName => "type name"
  | .reflectionLookup => "reflection lookup"
  | .activation => "activation"
  | .classConstructor => "class constructor"
  | .interopLayout => "interop layout"
  | .castTarget => "cast target"

/-- A mark as it is made. -/
structure Mark where
  member : Member
  /-- The member is an instance or class constructor. -/
  isConstructor : Bool
  reason : MarkReason
  origin : Origin
  deriving DecidableEq, Repr

/-- What kind of mark it is, in one word. -/
def Mark.kindName (m : Mark) : String :=
  if m.isConstructor then "Constructor" else m.member.kind.name

/-- Everything that was marked and reported, in order. -/
structure Ledger where
  marks : List Mark := []
  diagnostics : List Diagnostic := []
  deriving DecidableEq, Repr

namespace Ledger

/-- The marked members, each once and in order. -/
def members (l : Ledger) : List Member := sortedOf (l.marks.map Mark.member)

/-- The diagnostics in order. -/
def sortedDiagnostics (l : Ledger) : List Diagnostic := sortedByRank l.diagnostics

/-- The diagnostics with a given code, in order of arrival. -/
def withCode (l : Ledger) (code : Code) : List Diagnostic :=
  l.diagnostics.filter fun d => d.code == code

end Ledger

end ReflectionFlow

/-
  File:      ReflectionFlow/Session/Reporter.lean
  Subject:   Marking and reporting on behalf of one instruction.

  Every mark and every diagnostic goes through a reporter.  A reporter that is not live
  drops them: while a method is still being iterated the same rules run to find out what
  calls return, and must leave no trace.

  A requirement on a value is met in one of four ways.  Nothing is needed of null.  A known
  type, or the type a constant text names, gets the required members marked.  An annotated
  value must promise at least what is required.  Anything else is reported.

  Main definitions:
  * `Reporter.report`, `Reporter.mark`
  * `Reporter.markMembers`      a type and the members that a set of categories reaches
  * `Reporter.require`          a requirement on the values that flow into a place
-/
import ReflectionFlow.Members.Selection
import ReflectionFlow.Reflection.Finding
import ReflectionFlow.Session.Memo

namespace ReflectionFlow

/-- Marks and reports for an origin, as long as it is live. -/
structure Reporter where
  store : Store
  origin : Origin
  live : Bool

namespace Reporter

/-! ## 1. Single entries -/

/-- Adds a diagnostic to the ledger. -/
def note (d : Diagnostic) : Act Unit :=
  modify fun s => { s with ledger.diagnostics := s.ledger.diagnostics ++ [d] }

/-- Adds a mark to the ledger. -/
def enter (m : Mark) : Act Unit :=
  modify fun s => { s with ledger.marks := s.ledger.marks ++ [m] }

/-- Reports a finding. -/
def report (r : Reporter) (f : Finding) : Act Unit :=
  if r.live then note (f.diagnostic r.origin) else pure ()

/-- Is the member a constructor of some type? -/
def isConstructor (s : Store) (m : Member) : Bool :=
  m.kind == .method && match s.methodDef? m.token with
    | some d => d.isAnyConstructor
    | none => false

/-- The mark that a reporter makes of a member. -/
def markOf (r : Reporter) (m : Member) (reason : MarkReason) : Mark :=
  ⟨m, isConstructor r.store m, reason, r.origin⟩

/-- Marks a member. -/
def mark (r : Reporter) (m : Member) (reason : MarkReason) : Act Unit :=
  if r.live then enter (r.markOf m reason) else pure ()

/-- Marks a type. -/
def markType (r : Reporter) (t : Token) (reason : MarkReason) : Act Unit :=
  r.mark ⟨.type, t⟩ reason

/-- Marks members in order. -/
def markAll (r : Reporter) (members : List Member) (reason : MarkReason) : Act Unit :=
  members.forM fun m => r.mark m reason

/-! ## 2. Members of types -/

/-- Marks a type and the members that a set of categories reaches. -/
def markMembers (r : Reporter) (t : Token) (c : Categories) (f : NameFilter)
    (reason : MarkReason) : Act Unit :=
  if r.live then
    match r.store.type? t with
    | some d => do
      r.markType d.token reason
      r.markAll (r.store.select d c f) reason
    | none => pure ()
  else pure ()

/-- Marks the types that a text names. -/
def markNamed (r : Reporter) (tokens : List Token) : Act Unit :=
  tokens.forM fun t => r.markType t .typeName

/-! ## 3. Requirements -/

/-- Requires members of the type that a text names. -/
def requireNamed (r : Reporter) (text : String) (required : Categories) (place : Place) :
    Act Unit := do
  match ← r.store.askTypeName text with
  | some (named :: args) =>
    r.markType named .typeName
    r.markMembers named required .any .accessedMembers
    r.markNamed args
  | some [] => pure ()
  | none => r.report (.unresolvedName text place)

/-- Requires members of what a value denotes. -/
def requireOne (r : Reporter) (required : Categories) (place : Place) (v : Value) : Act Unit :=
  match v with
  | .null => pure ()
  | .type t => r.markMembers t required .any .accessedMembers
  | .string text => r.requireNamed text required place
  | v =>
    match v.annotation? with
    | some (source, available) =>
      if available.covers required then pure ()
      else r.report (.mismatch v source available required place)
    | none => r.report (.unrecognizedValue v place)

/-- Requires members of whatever flows into a place. -/
def require (r : Reporter) (values : ValueSet) (required : Categories) (place : Place) :
    Act Unit :=
  if required.isEmpty || !r.live then pure ()
  else values.members.forM (r.requireOne required place)

/-! ## 4. Small facts -/

/-- A reporter that is not live reports nothing. -/
theorem report_of_not_live {r : Reporter} (h : r.live = false) (f : Finding) :
    r.report f = pure () := by
  simp [report, h]

/-- A reporter that is not live marks nothing. -/
theorem mark_of_not_live {r : Reporter} (h : r.live = false) (m : Member) (reason : MarkReason) :
    r.mark m reason = pure () := by
  simp [mark, h]

/-- A reporter that is not live requires nothing. -/
theorem require_of_not_live {r : Reporter} (h : r.live = false) (values : ValueSet)
    (required : Categories) (place : Place) : r.require values required place = pure () := by
  simp [require, h]

end Reporter

end ReflectionFlow

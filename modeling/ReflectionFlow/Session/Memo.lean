/-
  File:      ReflectionFlow/Session/Memo.lean
  Subject:   What a session remembers: answers about the program, marks and diagnostics.

  The same questions are asked again and again while methods are analyzed: the annotations
  of a method, the needs of generic parameters, whether a method is in the catalogue, what a
  type name names.  A session keeps the answers.  They depend on the store alone, so an
  answer that is remembered is the answer that would be found again.

  Main definitions:
  * `Memo`, `Memo.Faithful`      remembered answers, and that each of them is right
  * `Session`, `Act`             the state of a session and the actions on it
  * `Store.askNeeds`, `Store.askGenericNeeds`, `Store.askIntrinsic`, `Store.askTypeName`
-/
import ReflectionFlow.Metadata.Needs
import ReflectionFlow.Metadata.TypeName
import ReflectionFlow.Reflection.Intrinsic
import ReflectionFlow.Report.Mark

namespace ReflectionFlow

/-! ## 1. Type names -/

namespace Store

/-- The type that a full name names, in an assembly or anywhere. -/
def typeCalled? (s : Store) (assembly : Option String) (name : String) : Option TypeDef :=
  match assembly with
  | some a => s.typeIn? a name
  | none => s.typeNamed? name

mutual

/-- The types that a name and its arguments name, the named type first; none if one of them
    does not exist. -/
def tokensOf? (s : Store) : TypeName → Option (List Token)
  | ⟨name, assembly, args⟩ =>
    match s.typeCalled? assembly name with
    | some d => (s.allTokensOf? args).map (d.token :: ·)
    | none => none

/-- The types that a list of names names, in order. -/
def allTokensOf? (s : Store) : List TypeName → Option (List Token)
  | [] => some []
  | n :: r =>
    match s.tokensOf? n with
    | some tokens => (s.allTokensOf? r).map (tokens ++ ·)
    | none => none

end

/-- The types that a text names, the named type first. -/
def resolveName? (s : Store) (text : String) : Option (List Token) :=
  (TypeName.parse? text).bind s.tokensOf?

/-- The catalogue entry of a method token. -/
def intrinsicOf? (s : Store) (method : Token) : Option Intrinsic :=
  (s.methodDef? method).bind (Intrinsic.classify? s)

end Store

/-! ## 2. Sessions -/

/-- Remembered answers. -/
structure Memo where
  needs : Assoc Token Needs := []
  generics : Assoc Owner (List Categories) := []
  intrinsics : Assoc Token (Option Intrinsic) := []
  typeNames : Assoc String (Option (List Token)) := []
  deriving DecidableEq, Repr

/-- Every remembered answer is the one the store gives. -/
structure Memo.Faithful (s : Store) (m : Memo) : Prop where
  needs : ∀ t n, m.needs.get? t = some n → ∃ d, s.methodDef? t = some d ∧ n = s.needs d
  generics : ∀ o n, m.generics.get? o = some n → n = s.genericNeedsOf o
  intrinsics : ∀ t i, m.intrinsics.get? t = some i → i = s.intrinsicOf? t
  typeNames : ∀ x n, m.typeNames.get? x = some n → n = s.resolveName? x

/-- The state of a session. -/
structure Session where
  memo : Memo := {}
  ledger : Ledger := {}
  deriving DecidableEq, Repr

/-- An action of a session. -/
abbrev Act := StateM Session

/-! ## 3. Questions -/

/-- A table of a memo: how to read it and how to replace it. -/
structure MemoTable (κ ν : Type) where
  read : Memo → Assoc κ ν
  replace : Memo → Assoc κ ν → Memo

/-- The remembered answer to a question, or else the right one, which is remembered. -/
def MemoTable.recall {κ ν : Type} [Ranked κ] (table : MemoTable κ ν) (key : κ)
    (answer : Unit → ν) : Act ν := do
  let session ← get
  match (table.read session.memo).get? key with
  | some found => return found
  | none =>
    let found := answer ()
    let entries := (table.read session.memo).insert key found
    set { session with memo := table.replace session.memo entries }
    return found

namespace Store

/-- Asks for the annotations of a method. -/
def askNeeds (s : Store) (m : MethodDef) : Act Needs :=
  MemoTable.recall ⟨Memo.needs, fun m t => { m with needs := t }⟩ m.token fun _ => s.needs m

/-- Asks for the needs of the generic parameters of an owner. -/
def askGenericNeeds (s : Store) (owner : Owner) : Act (List Categories) :=
  MemoTable.recall ⟨Memo.generics, fun m t => { m with generics := t }⟩ owner
    fun _ => s.genericNeedsOf owner

/-- Asks whether a method is in the catalogue. -/
def askIntrinsic (s : Store) (method : Token) : Act (Option Intrinsic) :=
  MemoTable.recall ⟨Memo.intrinsics, fun m t => { m with intrinsics := t }⟩ method
    fun _ => s.intrinsicOf? method

/-- Asks what a text names. -/
def askTypeName (s : Store) (text : String) : Act (Option (List Token)) :=
  MemoTable.recall ⟨Memo.typeNames, fun m t => { m with typeNames := t }⟩ text
    fun _ => s.resolveName? text

end Store

end ReflectionFlow

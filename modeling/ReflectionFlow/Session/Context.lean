/-
  File:      ReflectionFlow/Session/Context.lean
  Subject:   The method under analysis and its surroundings.

  A method is analyzed with arguments for the generic parameters of its type and of itself,
  or without.  Signatures found in its body are read with these arguments in place.  What is
  left of generic parameters stands for types that are not known here.

  Main definitions:
  * `Config`                        limits and optional checks
  * `Context`                       a method under one instantiation
  * `Context.callee?`               what a call refers to
  * `Context.typeValue`, `Context.handleValue`
-/
import ReflectionFlow.Session.Reporter

namespace ReflectionFlow

/-- Limits and optional checks of a session. -/
structure Config where
  /-- How many indices of an array are tracked. -/
  maxTracked : Nat := 32
  /-- How many block visits a method may take. -/
  maxVisits : Nat := 100000
  /-- Are faults in code reported? -/
  reportsInvalidCode : Bool := true
  /-- Are calls of native methods checked for COM interfaces? -/
  checksInterop : Bool := true
  deriving DecidableEq, Repr

/-- A method under one instantiation. -/
structure Context where
  store : Store
  config : Config
  method : MethodDef
  typeArgs : List TypeSig := []
  methodArgs : List TypeSig := []

namespace Context

/-! ## 1. Signatures -/

/-- A reporter for an instruction of the method. -/
def reporter (c : Context) (offset : Nat) (live : Bool) : Reporter :=
  ⟨c.store, ⟨c.method.token, some offset⟩, live⟩

/-- A signature with the generic arguments in place. -/
def substitute (c : Context) (t : TypeSig) : TypeSig := t.substitute c.typeArgs c.methodArgs

/-- The method that a token of the body refers to, with the generic arguments in place in the
    arguments of the reference. -/
def callee? (c : Context) (t : Token) : Option MethodRef :=
  (c.store.method? t).map fun r =>
    { r with
      typeArgs := r.typeArgs.map c.substitute
      methodArgs := r.methodArgs.map c.substitute }

/-- The type that a signature names: by its token, or by the name of a primitive type. -/
def definition? (c : Context) (t : TypeSig) : Option Token :=
  t.definition?.or ((t.wellKnownName?.bind c.store.typeNamed?).map TypeDef.token)

/-- The type that a signature names with the generic arguments in place. -/
def typeOf? (c : Context) (t : TypeSig) : Option Token := c.definition? (c.substitute t)

/-- The generic parameter that a signature consists of. -/
def openParameter? (c : Context) : TypeSig → Option (Owner × Nat)
  | .typeVar n => some (.type c.method.declaring, n)
  | .methodVar n => some (.method c.method.token, n)
  | _ => none

/-! ## 2. Values of types -/

/-- A generic parameter with what its annotation promises. -/
def genericParameter (c : Context) (owner : Owner) (index : Nat) : Act GenericParameter := do
  let needs ← c.store.askGenericNeeds owner
  return ⟨owner, UInt16.ofNat index, needs[index]?.getD .nothing⟩

/-- What a signature denotes: a generic parameter in one form, a type in another; anything
    else is unknown. -/
def denote (c : Context) (ofVariable : GenericParameter → Value) (ofType : Token → Value)
    (t : TypeSig) : Act Value :=
  match c.openParameter? t with
  | some (owner, index) => do return ofVariable (← c.genericParameter owner index)
  | none => pure (match c.definition? t with
    | some token => ofType token
    | none => .unknown)

/-- The reflected type that a signature denotes. -/
def typeValue (c : Context) (t : TypeSig) : Act Value :=
  c.denote .generic .type (c.substitute t)

/-- The handle that a type token denotes. -/
def handleValue (c : Context) (t : Token) : Act Value :=
  match c.store.typeSig? t with
  | some sig => c.denote .genericHandle .typeHandle (c.substitute sig)
  | none => pure (match c.store.type? t with
    | some d => .typeHandle d.token
    | none => .unknown)

end Context

end ReflectionFlow

/-
  File:      ReflectionFlow/Reflection/MakeGeneric.lean
  Subject:   Calls that give arguments to a generic type or method.

  The arguments come in an array.  Each argument must meet what the generic parameter at its
  place needs; where nothing is needed, nothing has to be known.
-/
import ReflectionFlow.Reflection.CallSite

namespace ReflectionFlow

namespace CallSite

/-- The declaration whose parameters get arguments: a type or a method, as the call has it. -/
def genericOwner? (s : Store) (what : Intrinsic) : Value → Option Owner
  | .type t =>
    if what = .makeGenericType then
      some (.type (match s.type? t with
        | some d => d.token
        | none => t))
    else none
  | .method t => if what = .makeGenericMethod then some (.method t) else none
  | _ => none

/-- Checks one argument against what its parameter needs. -/
def checkArgument (r : Reporter) (what : Intrinsic) (owner : Owner) (a : ArrayValue)
    (need : Categories) (index : Nat) : Act Unit :=
  if need.isEmpty || (wordIndex? index).isNone then pure ()
  else
    let argument := a.element (Int32.ofNat index)
    if argument.isUnknown then r.report (.unknownGenericArgument what index)
    else r.require argument need (.generic owner index)

/-- Checks an array of arguments. -/
def checkArguments (r : Reporter) (what : Intrinsic) (owner : Owner) (needs : List Categories) :
    Value → Act Unit
  | .null => pure ()
  | .array a => needs.zipIdx.forM fun (need, index) => checkArgument r what owner a need index
  | v => r.report (.unknownGenericArguments what v)

/-- Gives arguments to one generic type or method. -/
def instantiate (r : Reporter) (what : Intrinsic) (arguments : ValueSet) (v : Value) : Act Unit :=
  match v, genericOwner? r.store what v with
  | .null, _ => pure ()
  | _, some owner => do
    let needs ← r.store.askGenericNeeds owner
    if needs.all Categories.isEmpty then pure ()
    else arguments.members.forM (checkArguments r what owner needs)
  | v, none => r.report (.makeGenericOfUnknown what v)

/-- Gives arguments to a generic type or method. -/
def makeGeneric? (c : CallSite) (r : Reporter) (what : Intrinsic) : Option (Act ValueSet) := do
  let arguments ← c.parameter? 0
  let receivers ← c.receiver?
  return do
    receivers.members.forM (instantiate r what arguments)
    c.defaultReturn

end CallSite

end ReflectionFlow

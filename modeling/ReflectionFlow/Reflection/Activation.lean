/-
  File:      ReflectionFlow/Reflection/Activation.lean
  Subject:   Calls that create instances or run class constructors.

  Which constructors a creation may run depends on the overload: on a flag for non-public
  ones, on binding flags, and on the number of arguments when that is known.  Creating an
  instance of the run-time type of an object is left open: the result carries what is
  required, and a cast may still name the type.

  Main definitions:
  * `Activation`, `Activation.requirement`, `Activation.runs`
  * `CallSite.createInstance?`, `CallSite.createInstanceByName?`
  * `CallSite.runClassConstructor?`
-/
import ReflectionFlow.Reflection.CallSite

namespace ReflectionFlow

/-! ## 1. Which constructors are run -/

/-- Which constructors a creation may run. -/
structure Activation where
  reachesPublic : Bool
  reachesNonPublic : Bool
  /-- Number of constructor arguments, if it is known. -/
  arity : Option Nat
  deriving DecidableEq, Repr

namespace Activation

/-- The public constructor without parameters. -/
def parameterless : Activation := ⟨true, false, some 0⟩

/-- What binding flags select; without a choice public constructors are meant. -/
def ofLookup (l : Lookup) (arity : Option Nat) : Activation :=
  ⟨l.reachesPublic || !l.reachesNonPublic, l.reachesNonPublic, arity⟩

/-- The activation as a requirement on a type. -/
def requirement (a : Activation) : Categories :=
  (if a.reachesPublic then
    if a.arity = some 0 then .publicParameterlessConstructor else .publicConstructors
  else .nothing) ∪ (if a.reachesNonPublic then .nonPublicConstructors else .nothing)

/-- May a method be run? -/
def runs (a : Activation) (m : MethodDef) : Bool :=
  m.isConstructor && (if m.isPublic then a.reachesPublic else a.reachesNonPublic) &&
    match a.arity with
    | some n => n == m.paramCount
    | none => true

/-- The number of arguments that a value passes. -/
def sizeOf? : Value → Option Nat
  | .null => some 0
  | .array a => a.constantSize?.bind fun n => if 0 ≤ n then some n.toInt.toNat else none
  | _ => none

/-- The number of arguments passed, if all possible values agree on it. -/
def arityOf? (arguments : ValueSet) : Option Nat :=
  match arguments.members.map sizeOf? with
  | some n :: rest => if rest.all (· == some n) then some n else none
  | _ => none

end Activation

namespace CallSite

/-- The methods of a type that satisfy a condition. -/
def methodsWhere (s : Store) (d : TypeDef) (p : MethodDef → Bool) : List Member :=
  (d.methods.filter fun t => match s.methodDef? t with
    | some m => p m
    | none => false).map (⟨.method, ·⟩)

/-- Marks a type and the constructors that an activation may run. -/
def markActivated (r : Reporter) (t : Token) (a : Activation) : Act Unit :=
  match r.store.type? t with
  | some d => do
    r.markType d.token .activation
    r.markAll (methodsWhere r.store d a.runs) .activation
  | none => pure ()

/-! ## 2. Instances of types -/

/-- The activation of an overload that takes a type. -/
def activation? (c : CallSite) : Option Activation :=
  match c.shapes with
  | [.type] => some .parameterless
  | [.type, .bool] => (c.parameter? 1).map fun flag =>
    { Activation.parameterless with reachesNonPublic := flag.maybeTrue }
  | [.type, .objectArray] | [.type, .objectArray, .objectArray] =>
    (c.parameter? 1).map fun arguments => ⟨true, false, Activation.arityOf? arguments⟩
  | [.type, .bindingFlags, .other, .objectArray, .other]
  | [.type, .bindingFlags, .other, .objectArray, .other, .objectArray] => do
    let flags ← c.parameter? 1
    let arguments ← c.parameter? 3
    return .ofLookup (.ofFlags .constructors flags) (Activation.arityOf? arguments)
  | _ => none

/-- How the creation of an instance ended for one value. -/
inductive Created where
  /-- There is nothing to create. -/
  | nothing
  /-- All that is needed is marked, promised or reported. -/
  | settled
  /-- A cast of the result may still name the type. -/
  | deferred
  deriving DecidableEq, Repr

/-- Is the value the run-time type of some object? -/
def isRuntimeType (s : Store) : Value → Act Bool
  | .symbol (.ret method) _ _ => do return (← s.askIntrinsic method) == some .objectGetType
  | _ => pure false

/-- Creates an instance of what a value denotes. -/
def create (c : CallSite) (r : Reporter) (a : Activation) (v : Value) : Act Created :=
  match v with
  | .null => pure .nothing
  | .type t => do
    markActivated r t a
    return .settled
  | .generic _ => required .settled
  | v => do
    match v.annotation? with
    | some (_, available) =>
      if available.covers a.requirement then return .settled
      else if ← isRuntimeType r.store v then return .deferred
      else required .settled
    | none => required .deferred
where
  required (result : Created) : Act Created := do
    r.require (.single v) a.requirement (.ofParameter c.method 0)
    return result

/-- Creates an instance of a type. -/
def createInstance? (c : CallSite) (r : Reporter) : Option (Act ValueSet) := do
  let a ← c.activation?
  let types ← c.parameter? 0
  return do
    let created ← types.members.mapM (c.create r a)
    let settled ← if created.contains .settled then c.defaultReturn else pure .empty
    let deferred := if created.contains .deferred then c.returning a.requirement else .empty
    c.orDefault (settled.merge deferred)

/-- Creates an instance of a generic argument. -/
def createGeneric? (c : CallSite) (r : Reporter) : Option (Act ValueSet) :=
  c.callee.methodArgs.head?.map fun arg => do
    let v ← c.context.typeValue arg
    r.require (.single v) .publicParameterlessConstructor (.generic (.method c.method.token) 0)
    c.defaultReturn

/-! ## 3. Instances by name -/

/-- The activation of an overload that takes names. -/
def activationByName? (c : CallSite) : Option Activation :=
  match c.shapes with
  | [.string, .string] | [.string, .string, .objectArray] => some .parameterless
  | [.string, .string, .bool, .bindingFlags, .other, .objectArray, .other, .objectArray] => do
    let flags ← c.parameter? 3
    let arguments ← c.parameter? 5
    return .ofLookup (.ofFlags .constructors flags) (Activation.arityOf? arguments)
  | _ => none

/-- Creates an instance of the type that an assembly and a name denote. -/
def createNamed (r : Reporter) (a : Activation) (assembly name : Value) : Act Unit :=
  match assembly, name with
  | .string assembly, .string name =>
    match r.store.typeIn? assembly name with
    | some d => do
      r.markType d.token .typeName
      markActivated r d.token a
    | none => r.report (.absentFromAssembly name assembly)
  | assembly, name => r.report (.createByUnknownName assembly name)

/-- Creates an instance of a type given by assembly and name. -/
def createInstanceByName? (c : CallSite) (r : Reporter) : Option (Act ValueSet) := do
  let a ← c.activationByName?
  let assemblies ← c.parameter? 0
  let names ← c.parameter? 1
  return do
    assemblies.members.forM fun assembly => names.members.forM (createNamed r a assembly)
    c.defaultReturn

/-! ## 4. Class constructors -/

/-- Runs the class constructor of a type. -/
def classConstructorOf (r : Reporter) : Value → Act Unit
  | .null => pure ()
  | .typeHandle t =>
    match r.store.type? t with
    | some d => do
      r.markType d.token .classConstructor
      r.markAll (methodsWhere r.store d MethodDef.isClassConstructor) .classConstructor
    | none => pure ()
  | v => r.report (.unknownTypeHandle v)

/-- Runs the class constructor of the type of a handle. -/
def runClassConstructor? (c : CallSite) (r : Reporter) : Option (Act ValueSet) :=
  (c.parameter? 0).map fun handles => do
    handles.members.forM (classConstructorOf r)
    c.defaultReturn

end CallSite

end ReflectionFlow

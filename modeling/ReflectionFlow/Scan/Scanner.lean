/-
  File:      ReflectionFlow/Scan/Scanner.lean
  Subject:   Variables, fields, arrays and addresses of the method under analysis.

  Addresses may lie on the stack but are never kept in a variable: what is stored is what
  they refer to.  A store through an address with one possible target replaces what is
  there; a store through several adds to each of them.

  Main definitions:
  * `Scanner`                                the method with its annotations
  * `Scanner.entryState`                     what is known when the method is entered
  * `Scanner.read`, `Scanner.dereference`    what is at a location
  * `Scanner.write`, `Scanner.storeThrough`  stores to locations
-/
import ReflectionFlow.Scan.Trace
import ReflectionFlow.Session.Context

namespace ReflectionFlow

/-- The method under analysis with what is asked about it once. -/
structure Scanner where
  context : Context
  /-- Its annotations. -/
  needs : Needs
  /-- Its parameter types with the generic arguments in place. -/
  params : List TypeSig

namespace Scanner

/-- A scanner for the method of a context. -/
def ofContext (c : Context) (needs : Needs) : Scanner :=
  ⟨c, needs, c.method.sig.params.map c.substitute⟩

/-- The method under analysis. -/
def method (sc : Scanner) : MethodDef := sc.context.method

/-! ## 1. The method is entered -/

/-- A number as an index of sixteen bits; a greater one is the greatest index. -/
def clampIndex (n : Nat) : UInt16 := (wordIndex? n).getD 65535

/-- The declared parameter that an argument of the code is. -/
def parameterIndex? (sc : Scanner) (argument : UInt16) : Option Nat :=
  let index? : Option Nat :=
    if sc.method.hasThis then
      if argument = 0 then none else some (argument.toNat - 1)
    else some argument.toNat
  index?.filter (· < sc.params.length)

/-- The value of a declared parameter on entry. -/
def parameterValue (sc : Scanner) (index : Nat) : Value :=
  .symbol (.parameter sc.method.token (clampIndex index)) (sc.needs.param index)
    (match sc.params[index]? with
      | some t => t.stripByRef
      | none => .prim .object)

/-- The value of the instance on entry. -/
def thisValue (sc : Scanner) : Value :=
  .symbol (.this sc.method.token) sc.needs.this
    (match sc.context.store.typeSig? sc.method.declaring with
      | some t => sc.context.substitute t
      | none => .classType sc.method.declaring)

/-- The values of the arguments on entry, the instance first, as far as arguments can be
    numbered. -/
def entryArguments (sc : Scanner) : List (VarKey × Value) :=
  let values := (if sc.method.hasThis then [sc.thisValue] else []) ++
    (List.range sc.params.length).map sc.parameterValue
  values.zipIdx.filterMap fun (v, i) => (wordIndex? i).map fun i => (.arg i, v)

/-- What is known when the method is entered. -/
def entryState (sc : Scanner) : State :=
  { State.unknown with
    vars := sc.entryArguments.foldl (fun m e => m.set e.1 (.single e.2)) .unknown }

/-! ## 2. Reading -/

/-- What is read from a field: known contents, or a symbol with the promise of the field. -/
def loadField (sc : Scanner) (t : Token) : ValueSet :=
  match sc.context.store.field? t with
  | none => .unknown
  | some f => match sc.context.store.fieldValue? f.token with
    | some values => values
    | none => .single (.symbol (.field f.token) (sc.context.store.fieldNeed f.token)
        (sc.context.substitute f.sig))

/-- One array for all versions of an array that may be meant. -/
def mergeVersions? : List ArrayValue → Option ArrayValue
  | [] => none
  | a :: rest => some (rest.foldl ArrayOf.merge a)

/-- What is at a location. -/
def read (sc : Scanner) (s : State) : Location → ValueSet
  | .loc n => s.vars.get (.loc n)
  | .arg n => s.vars.get (.arg n)
  | .this => s.vars.get (.arg 0)
  | .field t => sc.loadField t
  | .element site index =>
    match mergeVersions? (s.versions site), index with
    | some a, some n => a.element n
    | _, _ => .unknown
  | .parameterTarget n => .single (sc.parameterValue n.toNat)
  | .returnSlot _ => .unknown

/-- Replaces addresses by what they refer to. -/
def dereference (sc : Scanner) (s : State) (v : ValueSet) : ValueSet :=
  if v.members.any Value.isAddress then
    v.flatMap fun
      | .address l => sc.read s l
      | v => .single v
  else v

/-- What is read through addresses; through anything else nothing is known. -/
def readThrough (sc : Scanner) (s : State) (address : ValueSet) : ValueSet :=
  address.flatMap fun
    | .address l => sc.read s l
    | _ => .unknown

/-- Takes an operand and replaces addresses by what they refer to. -/
def popValue (sc : Scanner) (t : Trace) (offset : Nat) : ValueSet × Trace :=
  let (v, t) := t.pop offset
  (sc.dereference t.state v, t)

/-- What an argument holds; a parameter that is passed by reference holds an address. -/
def loadArgument (sc : Scanner) (s : State) (argument : UInt16) : ValueSet :=
  let held := s.vars.get (.arg argument)
  match sc.parameterIndex? argument with
  | some index => match sc.params[index]? with
    | some (.byRef _) => .single (.address (.parameterTarget (clampIndex index)))
    | _ => held
  | none => held

/-- Is an argument of the code the instance? -/
def isThis (sc : Scanner) (argument : UInt16) : Bool := argument == 0 && sc.method.hasThis

/-- The address of an argument. -/
def argumentAddress (sc : Scanner) (argument : UInt16) : Value :=
  .address (if sc.isThis argument then .this else .arg argument)

/-! ## 3. Writing -/

/-- Observes what flows into an argument. -/
def observeArgument (sc : Scanner) (offset : Nat) (argument : UInt16) (v : ValueSet) (t : Trace) :
    Trace :=
  if sc.isThis argument then t.observeFlow offset v sc.needs.this (.this sc.method.name)
  else match sc.parameterIndex? argument with
  | some index =>
    t.observeFlow offset v (sc.needs.param index) (.ofParameter sc.method index)
  | none => t

/-- Stores into an argument. -/
def storeArgument (sc : Scanner) (offset : Nat) (argument : UInt16) (v : ValueSet) (certain : Bool)
    (t : Trace) : Trace :=
  (sc.observeArgument offset argument v t).assign (.arg argument) v certain

/-- Stores into a field: only the annotation of the field matters. -/
def storeField (sc : Scanner) (offset : Nat) (token : Token) (v : ValueSet) (t : Trace) : Trace :=
  match sc.context.store.field? token with
  | some f => t.observeFlow offset v (sc.context.store.fieldNeed f.token) (.field f.name)
  | none => t

/-- Stores into an array of which several versions may be meant.  They become one first, so
    that the store keeps what each of them holds. -/
def storeVersions (sc : Scanner) (block : Nat) (versions : List ArrayValue) (index : Option Int32)
    (v : ValueSet) (t : Trace) : Trace :=
  match mergeVersions? versions with
  | none => t
  | some a =>
    let updated := match index with
      | some n => a.store n v block sc.context.config.maxTracked
      | none => a.cleared
    { t with state := t.state.replaceArray versions updated }

/-- The arrays of a set. -/
def arraysOf (v : ValueSet) : List ArrayValue :=
  v.members.filterMap fun
    | .array a => some a
    | _ => none

/-- Stores into every array that may be meant, allocation by allocation. -/
def storeElement (sc : Scanner) (block : Nat) (array index v : ValueSet) (t : Trace) : Trace :=
  let arrays := arraysOf array
  (sortedOf (arrays.map ArrayOf.site)).foldl
    (fun t site =>
      sc.storeVersions block (arrays.filter (·.site = site)) index.constant? v t) t

/-- Stores to a location. -/
def write (sc : Scanner) (block offset : Nat) (v : ValueSet) (certain : Bool) (t : Trace) :
    Location → Trace
  | .loc n => t.assign (.loc n) v certain
  | .arg n => sc.storeArgument offset n v certain t
  | .this => sc.storeArgument offset 0 v certain t
  | .field f => sc.storeField offset f v t
  | .element site index => sc.storeVersions block (t.state.versions site) index v t
  | .parameterTarget n =>
    t.observeFlow offset v (sc.needs.param n.toNat) (.ofParameter sc.method n.toNat)
  | .returnSlot _ => t

/-- Stores through addresses. -/
def storeThrough (sc : Scanner) (block offset : Nat) (address v : ValueSet) (t : Trace) : Trace :=
  address.members.foldl
    (fun t target => match target with
      | .address l => sc.write block offset v (address.size == 1) t l
      | _ => t) t

end Scanner

end ReflectionFlow

/-
  File:      ReflectionFlow/Metadata/Store.lean
  Subject:   The closed world: every definition, reference, body and annotation.

  A store grows by declarations.  Each definition gets the next row of its table, so the
  same declarations always give the same tokens.  Of several types with one full name the
  first one keeps it.

  Main definitions:
  * `Store`               the tables
  * `Declaration`         what can be declared
  * `Store.declare`       the store with one more declaration, and the new token
-/
import ReflectionFlow.Code.Body
import ReflectionFlow.Members.Categories
import ReflectionFlow.Metadata.Definition
import ReflectionFlow.Order.Sorted
import ReflectionFlow.Value.Set

namespace ReflectionFlow

/-! ## 1. Tables -/

/-- A reference to a member, through a generic type with the given arguments. -/
structure MemberReference where
  target : Token
  typeArgs : List TypeSig
  deriving DecidableEq, Repr

/-- A generic method with the given arguments. -/
structure MethodInstance where
  method : Token
  methodArgs : List TypeSig
  deriving DecidableEq, Repr

/-- Everything that is known about the program. -/
structure Store where
  /-- Number of rows handed out, by table byte. -/
  rows : Assoc Nat Nat := []
  types : Assoc Token TypeDef := []
  methods : Assoc Token MethodDef := []
  fields : Assoc Token FieldDef := []
  properties : Assoc Token PropertyDef := []
  events : Assoc Token EventDef := []
  typeRefs : Assoc Token Token := []
  typeSpecs : Assoc Token TypeSig := []
  memberRefs : Assoc Token MemberReference := []
  methodSpecs : Assoc Token MethodInstance := []
  callSites : Assoc Token MethodSig := []
  bodies : Assoc Token Body := []
  /-- The first type of each full name. -/
  names : Assoc String Token := []
  /-- The first type of each full name in each assembly. -/
  assemblyNames : Assoc (String × String) Token := []
  parameterNeeds : Assoc (Token × UInt16) Categories := []
  returnNeeds : Assoc Token Categories := []
  thisNeeds : Assoc Token Categories := []
  fieldNeeds : Assoc Token Categories := []
  genericNeeds : Assoc (Owner × UInt16) Categories := []
  /-- Why a method requires unreferenced code. -/
  warnings : Assoc Token String := []
  fieldValues : Assoc Token ValueSet := []
  deriving DecidableEq, Repr

/-- Sets a key that has no entry yet. -/
def Assoc.insertNew {κ ν : Type} [Ranked κ] (m : Assoc κ ν) (k : κ) (x : ν) : Assoc κ ν :=
  if (m.get? k).isSome then m else m.insert k x

/-- Changes the entry of a key that has one. -/
def Assoc.modify {κ ν : Type} [Ranked κ] (m : Assoc κ ν) (k : κ) (f : ν → ν) : Assoc κ ν :=
  match m.get? k with
  | some x => m.insert k (f x)
  | none => m

namespace Store

/-- The next free token of a table. -/
def nextToken (s : Store) (table : Table) : Token :=
  Token.ofParts table.id ((s.rows.get? table.id).getD 0 + 1)

/-- Takes the next row of a table. -/
def takeRow (s : Store) (table : Table) : Store :=
  { s with rows := s.rows.insert table.id ((s.rows.get? table.id).getD 0 + 1) }

/-! ## 2. Definitions -/

/-- Changes a type that is defined. -/
def modifyType (s : Store) (t : Token) (f : TypeDef → TypeDef) : Store :=
  { s with types := s.types.modify t f }

/-- Changes a method that is defined. -/
def modifyMethod (s : Store) (t : Token) (f : MethodDef → MethodDef) : Store :=
  { s with methods := s.methods.modify t f }

/-- Defines a type under its token. -/
def putType (s : Store) (d : TypeDef) : Store :=
  { s.takeRow .typeDef with
    types := s.types.insert d.token d
    names := s.names.insertNew d.fullName d.token
    assemblyNames := s.assemblyNames.insertNew (d.assembly, d.fullName) d.token }

/-- Defines a top-level type. -/
def addType (s : Store) (assembly space name : String) (flags : UInt32) (base : Option Token) :
    Store :=
  let fullName := if space.isEmpty then name else space ++ "." ++ name
  s.putType { token := s.nextToken .typeDef, assembly, space, name, fullName, flags, base, enclosing := none }

/-- Defines a nested type; it belongs to the assembly of the enclosing type. -/
def addNestedType (s : Store) (enclosing : Token) (name : String) (flags : UInt32)
    (base : Option Token) : Store :=
  let token := s.nextToken .typeDef
  let (assembly, fullName) := match s.types.get? enclosing with
    | some outer => (outer.assembly, outer.fullName ++ "+" ++ name)
    | none => ("", name)
  (s.putType { token, assembly, space := "", name, fullName, flags, base, enclosing := some enclosing }).modifyType
    enclosing fun outer => { outer with nested := outer.nested ++ [token] }

/-- Defines a method.  Whether it takes an instance follows from its flags. -/
def addMethod (s : Store) (declaring : Token) (name : String) (flags : UInt16) (sig : MethodSig) :
    Store :=
  let token := s.nextToken .methodDef
  let paramNames := (List.range sig.params.length).map fun i => "arg" ++ toString i
  let d : MethodDef :=
    { token, declaring, name, flags, sig := { sig with hasThis := flags &&& 0x10 == 0 }, paramNames }
  { s.takeRow .methodDef with methods := s.methods.insert token d }.modifyType declaring
    fun t => { t with methods := t.methods ++ [token] }

/-- Defines a field. -/
def addField (s : Store) (declaring : Token) (name : String) (flags : UInt16) (sig : TypeSig) :
    Store :=
  let token := s.nextToken .field
  { s.takeRow .field with fields := s.fields.insert token ⟨token, declaring, name, flags, sig⟩ }.modifyType
    declaring fun t => { t with fields := t.fields ++ [token] }

/-- Defines a property. -/
def addProperty (s : Store) (declaring : Token) (name : String) (getter setter : Option Token) :
    Store :=
  let token := s.nextToken .property
  { s.takeRow .property with
    properties := s.properties.insert token ⟨token, declaring, name, getter, setter⟩ }.modifyType
    declaring fun t => { t with properties := t.properties ++ [token] }

/-- Defines an event. -/
def addEvent (s : Store) (declaring : Token) (name : String)
    (adder remover raiser : Option Token) : Store :=
  let token := s.nextToken .event
  { s.takeRow .event with
    events := s.events.insert token ⟨token, declaring, name, adder, remover, raiser⟩ }.modifyType
    declaring fun t => { t with events := t.events ++ [token] }

/-- Declares generic parameters of a type or a method; a method counts them in its signature. -/
def setGenerics (s : Store) (owner : Owner) (params : List GenericParam) : Store :=
  match owner with
  | .type t => s.modifyType t fun d => { d with generics := params }
  | .method t => s.modifyMethod t fun d =>
    { d with
      sig := { d.sig with genericArity := min params.length (UInt16.size - 1) }
      generics := params }

/-! ## 3. Declarations -/

/-- What can be added to a store. -/
inductive Declaration where
  | type (assembly space name : String) (flags : UInt32) (base : Option Token)
  | nestedType (enclosing : Token) (name : String) (flags : UInt32) (base : Option Token)
  | method (declaring : Token) (name : String) (flags : UInt16) (sig : MethodSig)
  | field (declaring : Token) (name : String) (flags : UInt16) (sig : TypeSig)
  | property (declaring : Token) (name : String) (getter setter : Option Token)
  | event (declaring : Token) (name : String) (adder remover raiser : Option Token)
  | typeRef (target : Token)
  | typeSpec (sig : TypeSig)
  | memberRef (target : Token) (typeArgs : List TypeSig)
  | methodSpec (method : Token) (methodArgs : List TypeSig)
  | callSite (sig : MethodSig)
  | interfaceOf (type interface : Token)
  | generics (owner : Owner) (params : List GenericParam)
  | body (method : Token) (body : Body)
  | marshal (method : Token) (returnForm : Option NativeForm) (paramForms : List (Option NativeForm))
  | parameterNeed (method : Token) (index : UInt16) (need : Categories)
  | returnNeed (method : Token) (need : Categories)
  | thisNeed (method : Token) (need : Categories)
  | fieldNeed (field : Token) (need : Categories)
  | genericNeed (owner : Owner) (index : UInt16) (need : Categories)
  | warning (method : Token) (message : String)
  | fieldValue (field : Token) (values : ValueSet)

/-- The table in which a declaration takes a row. -/
def Declaration.table? : Declaration → Option Table
  | .type .. | .nestedType .. => some .typeDef
  | .method .. => some .methodDef
  | .field .. => some .field
  | .property .. => some .property
  | .event .. => some .event
  | .typeRef _ => some .typeRef
  | .typeSpec _ => some .typeSpec
  | .memberRef .. => some .memberRef
  | .methodSpec .. => some .methodSpec
  | .callSite _ => some .standAloneSig
  | _ => none

/-- The store with one more declaration. -/
def add (s : Store) : Declaration → Store
  | .type assembly space name flags base => s.addType assembly space name flags base
  | .nestedType enclosing name flags base => s.addNestedType enclosing name flags base
  | .method declaring name flags sig => s.addMethod declaring name flags sig
  | .field declaring name flags sig => s.addField declaring name flags sig
  | .property declaring name getter setter => s.addProperty declaring name getter setter
  | .event declaring name adder remover raiser => s.addEvent declaring name adder remover raiser
  | .typeRef target =>
    { s.takeRow .typeRef with typeRefs := s.typeRefs.insert (s.nextToken .typeRef) target }
  | .typeSpec sig =>
    { s.takeRow .typeSpec with typeSpecs := s.typeSpecs.insert (s.nextToken .typeSpec) sig }
  | .memberRef target typeArgs =>
    { s.takeRow .memberRef with
      memberRefs := s.memberRefs.insert (s.nextToken .memberRef) ⟨target, typeArgs⟩ }
  | .methodSpec method methodArgs =>
    { s.takeRow .methodSpec with
      methodSpecs := s.methodSpecs.insert (s.nextToken .methodSpec) ⟨method, methodArgs⟩ }
  | .callSite sig =>
    { s.takeRow .standAloneSig with
      callSites := s.callSites.insert (s.nextToken .standAloneSig) sig }
  | .interfaceOf type interface =>
    s.modifyType type fun t => { t with interfaces := t.interfaces ++ [interface] }
  | .generics owner params => s.setGenerics owner params
  | .body method body => { s with bodies := s.bodies.insert method body }
  | .marshal method returnForm paramForms =>
    s.modifyMethod method fun m => { m with returnForm, paramForms }
  | .parameterNeed method index need =>
    { s with parameterNeeds := s.parameterNeeds.insert (method, index) need }
  | .returnNeed method need => { s with returnNeeds := s.returnNeeds.insert method need }
  | .thisNeed method need => { s with thisNeeds := s.thisNeeds.insert method need }
  | .fieldNeed field need => { s with fieldNeeds := s.fieldNeeds.insert field need }
  | .genericNeed owner index need =>
    { s with genericNeeds := s.genericNeeds.insert (owner, index) need }
  | .warning method message => { s with warnings := s.warnings.insert method message }
  | .fieldValue field values => { s with fieldValues := s.fieldValues.insert field values }

/-- The store with one more declaration, and the token of what was defined. -/
def declare (s : Store) (d : Declaration) : Store × Option Token :=
  (s.add d, d.table?.map s.nextToken)

/-- The store of a list of declarations. -/
def ofList (ds : List Declaration) : Store := ds.foldl add {}

end Store

end ReflectionFlow

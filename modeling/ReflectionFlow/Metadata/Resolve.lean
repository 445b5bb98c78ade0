/-
  File:      ReflectionFlow/Metadata/Resolve.lean
  Subject:   Finding definitions: by token, through references, and by name.

  A definition token finds its row.  A reference finds the row of what it refers to.  A type
  specification and a method instance refer to another token that may be of the same kind,
  so finding their definition follows a chain.  A chain that does not repeat a row is no
  longer than its table; one that does goes round in a circle, and the search never ends.

  A search that never ends finds nothing, and nothing can be built on it: whatever asks for one
  has no outcome.  `type?` and `method?` only say what is found and do not tell such a search from
  one that ends without a definition; `typeSearch?` and `methodSearch?` do.  What is said of
  selections and analyses in terms of what is found is said of those that have an outcome.

  Main definitions:
  * `Hop`, `Hop.search`      one step of a search, and a search within a number of them
  * `Store.typeSearch?`, `Store.methodSearch?`     the outcome of a search that ends
  * `Store.type?`, `Store.method?`, `Store.field?`, `Store.property?`, `Store.event?`
  * `Store.typeNamed?`, `Store.typeIn?`
  * `Store.typeSig?`         the signature a type token denotes
  * `Store.fieldValue?`      what is known about the contents of a field
-/
import ReflectionFlow.Metadata.Store
import ReflectionFlow.Value.Array

namespace ReflectionFlow

/-! ## 1. Searches -/

/-- What a token says about the search for a definition: the search is over, or it goes on at
    another token and what is found there is completed. -/
inductive Hop (α : Type) where
  | ended (found : Option α)
  | onward (t : Token) (complete : α → α)

/-- The outcome of a search that is over within a number of hops; none if it is not. -/
def Hop.search {α : Type} (hop : Token → Hop α) (hops : Nat) (t : Token) : Option (Option α) :=
  match hop t with
  | .ended found => some found
  | .onward u complete =>
    match hops with
    | 0 => none
    | hops + 1 => (search hop hops u).map (Option.map complete)

namespace Store

/-! ## 2. Types -/

/-- Where the definition of a type token is. -/
def typeHop (s : Store) (t : Token) : Hop TypeDef :=
  if t.isIn .typeDef then .ended (s.types.get? t)
  else if t.isIn .typeRef then .ended ((s.typeRefs.get? t).bind s.types.get?)
  else if t.isIn .typeSpec then
    match (s.typeSpecs.get? t).bind TypeSig.definition? with
    | some u => .onward u id
    | none => .ended none
  else .ended none

/-- The outcome of the search for the definition of a type token, if the search ends: it takes
    no more hops than there are specifications. -/
def typeSearch? (s : Store) (t : Token) : Option (Option TypeDef) :=
  Hop.search s.typeHop s.typeSpecs.length t

/-- The definition of a type token.  None also for a search that never ends. -/
def type? (s : Store) (t : Token) : Option TypeDef := (s.typeSearch? t).join

/-- The first type with a full name. -/
def typeNamed? (s : Store) (fullName : String) : Option TypeDef :=
  (s.names.get? fullName).bind s.types.get?

/-- The first type with a full name in an assembly. -/
def typeIn? (s : Store) (assembly fullName : String) : Option TypeDef :=
  (s.assemblyNames.get? (assembly, fullName)).bind s.types.get?

/-- Is the type a value type, going by its direct base type? -/
def isValueType (s : Store) (d : TypeDef) : Bool :=
  match d.base.bind s.types.get? with
  | some base =>
    (base.fullName == "System.ValueType" || base.fullName == "System.Enum") &&
      d.fullName != "System.Enum"
  | none => false

/-- The signature a type token denotes. -/
def typeSig? (s : Store) (t : Token) : Option TypeSig :=
  if t.isIn .typeSpec then s.typeSpecs.get? t
  else if t.isIn .typeDef || t.isIn .typeRef then
    (s.type? t).map fun d => if s.isValueType d then .valueType d.token else .classType d.token
  else none

/-! ## 3. Methods -/

/-- Where the definition of a method token is.  A member reference gives the arguments of the
    type, and of nested method instances the outermost one gives those of the method. -/
def methodHop (s : Store) (t : Token) : Hop MethodRef :=
  if t.isIn .methodDef then .ended ((s.methods.get? t).map fun m => { method := m })
  else if t.isIn .memberRef then
    .ended ((s.memberRefs.get? t).bind fun r =>
      (s.methods.get? r.target).map fun m => { method := m, typeArgs := r.typeArgs })
  else if t.isIn .methodSpec then
    match s.methodSpecs.get? t with
    | some spec => .onward spec.method fun r => { r with methodArgs := spec.methodArgs }
    | none => .ended none
  else .ended none

/-- The outcome of the search for the definition of a method token, if the search ends. -/
def methodSearch? (s : Store) (t : Token) : Option (Option MethodRef) :=
  Hop.search s.methodHop s.methodSpecs.length t

/-- The definition of a method token with its generic arguments.  None also for a search that
    never ends. -/
def method? (s : Store) (t : Token) : Option MethodRef := (s.methodSearch? t).join

/-- The definition of a method token, without arguments. -/
def methodDef? (s : Store) (t : Token) : Option MethodDef := (s.method? t).map MethodRef.method

/-- The method of a type with a name. -/
def findMethod? (s : Store) (declaring : Token) (name : String) : Option Token :=
  (s.types.get? declaring).bind fun d => d.methods.find? fun t =>
    match s.methods.get? t with
    | some m => m.name == name
    | none => false

/-! ## 4. Fields, properties, events -/

/-- The definition of a field token. -/
def field? (s : Store) (t : Token) : Option FieldDef :=
  if t.isIn .field then s.fields.get? t
  else if t.isIn .memberRef then (s.memberRefs.get? t).bind fun r => s.fields.get? r.target
  else none

/-- The field of a type with a name. -/
def findField? (s : Store) (declaring : Token) (name : String) : Option Token :=
  (s.types.get? declaring).bind fun d => d.fields.find? fun t =>
    match s.fields.get? t with
    | some f => f.name == name
    | none => false

/-- The definition of a property. -/
def property? (s : Store) (t : Token) : Option PropertyDef := s.properties.get? t

/-- The definition of an event. -/
def event? (s : Store) (t : Token) : Option EventDef := s.events.get? t

/-- The contents of the two fields of the base library that are always known: the empty
    string and the empty array of types. -/
def wellKnownValue? (s : Store) (f : FieldDef) : Option ValueSet :=
  (s.types.get? f.declaring).bind fun d =>
    if d.fullName == "System.String" && f.name == "Empty" then some (.single (.string ""))
    else if d.fullName == "System.Type" && f.name == "EmptyTypes" then
      some (.single (.array (.fresh ⟨f.token, 0⟩ (.single (.int 0)))))
    else none

/-- What is known about the contents of a field. -/
def fieldValue? (s : Store) (t : Token) : Option ValueSet :=
  (s.field? t).bind fun f => (s.fieldValues.get? f.token).or (s.wellKnownValue? f)

/-! ## 5. Bodies and annotations -/

/-- The body of a method. -/
def body? (s : Store) (method : Token) : Option Body := s.bodies.get? method

/-- The signature of an indirect call. -/
def callSite? (s : Store) (t : Token) : Option MethodSig := s.callSites.get? t

/-- What a declared parameter needs. -/
def parameterNeed (s : Store) (method : Token) (index : UInt16) : Categories :=
  (s.parameterNeeds.get? (method, index)).getD .nothing

/-- What a return value promises. -/
def returnNeed (s : Store) (method : Token) : Categories := (s.returnNeeds.get? method).getD .nothing

/-- What the instance needs. -/
def thisNeed (s : Store) (method : Token) : Categories := (s.thisNeeds.get? method).getD .nothing

/-- What a field needs. -/
def fieldNeed (s : Store) (field : Token) : Categories := (s.fieldNeeds.get? field).getD .nothing

/-- What a generic parameter needs. -/
def genericNeed (s : Store) (owner : Owner) (index : UInt16) : Categories :=
  (s.genericNeeds.get? (owner, index)).getD .nothing

/-- The message of a method that requires unreferenced code. -/
def warning? (s : Store) (method : Token) : Option String := s.warnings.get? method

end Store

end ReflectionFlow

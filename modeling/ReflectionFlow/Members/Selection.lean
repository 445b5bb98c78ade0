/-
  File:      ReflectionFlow/Members/Selection.lean
  Subject:   Which members of a type a set of categories reaches.

  Public methods, fields, properties and events count also when they are inherited;
  non-public ones only when the type itself declares them.  Constructors and nested types
  are never inherited.  A property or an event is public when one of its accessors is, and
  brings its accessors along.  Interfaces count with those of the base types and with the
  interfaces they extend in turn.  Everything means every member of every type that can be
  reached through nested types, interfaces and base types.

  Main definitions:
  * `NameFilter`            restriction to a name
  * `Store.baseChain`       a type and its base types
  * `Store.reach`           types reachable in any number of steps
  * `Store.select`          the selected members, in order
  * `Store.select?`         the outcome of a selection, which asks only for searches that end
-/
import ReflectionFlow.Metadata.Resolve
import ReflectionFlow.Report.Mark

namespace ReflectionFlow

/-! ## 1. Names -/

/-- Restricts a selection to members of one name. -/
structure NameFilter where
  name : Option String
  ignoreCase : Bool
  deriving DecidableEq, Repr

namespace NameFilter

/-- No restriction. -/
def any : NameFilter := ⟨none, false⟩

/-- Members of the given name. -/
def named (name : String) (ignoreCase : Bool) : NameFilter := ⟨some name, ignoreCase⟩

/-- Does a name pass?  Only the letters from A to Z have two cases here. -/
def accepts (f : NameFilter) (candidate : String) : Bool :=
  match f.name with
  | none => true
  | some name => if f.ignoreCase then name.toLower == candidate.toLower else name == candidate

/-- Without a restriction every name passes. -/
theorem accepts_any (candidate : String) : any.accepts candidate = true := rfl

end NameFilter

/-- Is a member reached?  Public ones through their category, others only if the type itself
    declares them. -/
def Categories.wants (c : Categories) (isPublic declared : Bool)
    (publicCategory nonPublicCategory : Categories) : Bool :=
  if isPublic then c.covers publicCategory else declared && c.covers nonPublicCategory

namespace Store

open Categories

/-! ## 2. Related types -/

/-- A type and its base types, at most the given number of them.  When base types repeat,
    so does the list. -/
def baseChainWithin (s : Store) : Nat → TypeDef → List TypeDef
  | 0, d => [d]
  | steps + 1, d =>
    d :: match d.base.bind s.type? with
      | some base => s.baseChainWithin steps base
      | none => []

/-- A type and all its base types. -/
def baseChain (s : Store) (d : TypeDef) : List TypeDef := s.baseChainWithin s.types.length d

/-- Adds the types one step away from those already found. -/
def grow (s : Store) (next : TypeDef → List Token) (found : List TypeDef) : List TypeDef :=
  ((found.flatMap next).filterMap s.type?).foldl
    (fun acc d => if acc.any fun e => e.token == d.token then acc else acc ++ [d]) found

/-- Adds types until nothing new is found or the number of steps is used up. -/
def reachWithin (s : Store) (next : TypeDef → List Token) : Nat → List TypeDef → List TypeDef
  | 0, found => found
  | steps + 1, found =>
    let more := s.grow next found
    if more.length = found.length then found else s.reachWithin next steps more

/-- The types reachable from the given ones in any number of steps: no more steps are needed
    than there are types. -/
def reach (s : Store) (next : TypeDef → List Token) (start : List TypeDef) : List TypeDef :=
  s.reachWithin next s.types.length start

/-! ## 3. Members by category -/

/-- Is a constructor reached? -/
def wantsConstructor (c : Categories) (m : MethodDef) : Bool :=
  if m.isClassConstructor then c.covers nonPublicConstructors
  else if !m.isConstructor then false
  else if m.isPublic then
    c.covers publicConstructors || (m.paramCount == 0 && c.covers publicParameterlessConstructor)
  else c.covers nonPublicConstructors

/-- The constructors of a type that are reached. -/
def constructors (s : Store) (d : TypeDef) (c : Categories) : List Member :=
  (d.methods.filter fun t => match s.methodDef? t with
    | some m => wantsConstructor c m
    | none => false).map (⟨.method, ·⟩)

/-- The methods of a type that are reached, constructors apart. -/
def methodsOf (s : Store) (d : TypeDef) (c : Categories) (f : NameFilter) (declared : Bool) :
    List Member :=
  (d.methods.filter fun t => match s.methodDef? t with
    | some m => !m.isAnyConstructor && f.accepts m.name &&
        c.wants m.isPublic declared publicMethods nonPublicMethods
    | none => false).map (⟨.method, ·⟩)

/-- The fields of a type that are reached. -/
def fieldsOf (s : Store) (d : TypeDef) (c : Categories) (f : NameFilter) (declared : Bool) :
    List Member :=
  (d.fields.filter fun t => match s.field? t with
    | some x => f.accepts x.name && c.wants x.isPublic declared publicFields nonPublicFields
    | none => false).map (⟨.field, ·⟩)

/-- Is one of the accessors a public method? -/
def anyPublic (s : Store) (accessors : List Token) : Bool :=
  accessors.any fun t => match s.methodDef? t with
    | some m => m.isPublic
    | none => false

/-- A member together with its accessors. -/
def withAccessors (m : Member) (accessors : List Token) : List Member :=
  m :: accessors.map (⟨.method, ·⟩)

/-- The properties of a type that are reached, with their accessors. -/
def propertiesOf (s : Store) (d : TypeDef) (c : Categories) (f : NameFilter) (declared : Bool) :
    List Member :=
  d.properties.flatMap fun t => match s.property? t with
    | some p =>
      if f.accepts p.name &&
          c.wants (s.anyPublic p.accessors) declared publicProperties nonPublicProperties then
        withAccessors ⟨.property, t⟩ p.accessors
      else []
    | none => []

/-- The events of a type that are reached, with their accessors. -/
def eventsOf (s : Store) (d : TypeDef) (c : Categories) (f : NameFilter) (declared : Bool) :
    List Member :=
  d.events.flatMap fun t => match s.event? t with
    | some e =>
      if f.accepts e.name &&
          c.wants (s.anyPublic e.accessors) declared publicEvents nonPublicEvents then
        withAccessors ⟨.event, t⟩ e.accessors
      else []
    | none => []

/-- The nested types of a type that are reached. -/
def nestedOf (s : Store) (d : TypeDef) (c : Categories) (f : NameFilter) : List Member :=
  (d.nested.filter fun t => match s.type? t with
    | some n => f.accepts n.name && c.wants n.isPublic true publicNestedTypes nonPublicNestedTypes
    | none => false).map (⟨.type, ·⟩)

/-- Methods, fields, properties and events of one type of the base chain. -/
def membersOf (s : Store) (d : TypeDef) (c : Categories) (f : NameFilter) (declared : Bool) :
    List Member :=
  s.methodsOf d c f declared ++ s.fieldsOf d c f declared ++ s.propertiesOf d c f declared ++
    s.eventsOf d c f declared

/-- The members of a type and of its base types that are reached. -/
def hierarchy (s : Store) (d : TypeDef) (c : Categories) (f : NameFilter) : List Member :=
  s.membersOf d c f true ++ s.nestedOf d c f ++
    ((s.baseChain d).drop 1).flatMap fun b => s.membersOf b c f false

/-- The interfaces of a type and of its base types, with the interfaces they extend. -/
def interfacesOf (s : Store) (d : TypeDef) (f : NameFilter) : List Member :=
  let direct := ((s.baseChain d).flatMap TypeDef.interfaces).filterMap s.type?
  let all := s.reach TypeDef.interfaces direct
  (all.filter fun i => f.accepts i.name || f.accepts i.fullName).map fun i => ⟨.type, i.token⟩

/-! ## 4. Everything -/

/-- Nested types, interfaces and base type of a type. -/
def related (d : TypeDef) : List Token :=
  d.nested ++ d.interfaces ++ d.base.toList

/-- Every member a type lists, with the accessors of properties and events. -/
def listed (s : Store) (d : TypeDef) : List Member :=
  d.methods.map (⟨.method, ·⟩) ++ d.fields.map (⟨.field, ·⟩) ++
    (d.properties.flatMap fun t =>
      withAccessors ⟨.property, t⟩ (match s.property? t with
        | some p => p.accessors
        | none => [])) ++
    d.events.flatMap fun t =>
      withAccessors ⟨.event, t⟩ (match s.event? t with
        | some e => e.accessors
        | none => [])

/-- Every member of every related type, and the related types themselves. -/
def everything (s : Store) (d : TypeDef) : List Member :=
  (s.reach related [d]).flatMap fun e =>
    s.listed e ++ ((related e).filterMap s.type?).map fun r => ⟨.type, r.token⟩

/-! ## 5. Selection -/

/-- The members of a type that a set of categories reaches, ordered by kind and token. -/
def select (s : Store) (d : TypeDef) (c : Categories) (f : NameFilter) : List Member :=
  sortedOf <|
    if c = all then s.everything d
    else if c.isEmpty then []
    else
      s.constructors d c ++ s.hierarchy d c f ++
        if c.covers Categories.interfaces then s.interfacesOf d f else []

/-! ## 6. Outcomes -/

/-- Do the searches for accessors end?  Accessors are looked up until a public one is found. -/
def accessorsEnd (s : Store) : List Token → Bool
  | [] => true
  | t :: rest =>
    match s.methodSearch? t with
    | none => false
    | some found => (found.any fun r => r.method.isPublic) || s.accessorsEnd rest

/-- Do the searches for the methods of one type of the base chain end?  The accessors of a
    property or an event are looked up if its name passes. -/
def membersEnd (s : Store) (f : NameFilter) (d : TypeDef) : Bool :=
  (d.methods.all fun t => (s.methodSearch? t).isSome) &&
  (d.properties.all fun t => (s.property? t).all fun x =>
    !f.accepts x.name || s.accessorsEnd x.accessors) &&
  d.events.all fun t => (s.event? t).all fun x =>
    !f.accepts x.name || s.accessorsEnd x.accessors

/-- Do the searches for the types that some types refer to end? -/
def referencesEnd (s : Store) (next : TypeDef → List Token) (types : List TypeDef) : Bool :=
  types.all fun d => (next d).all fun t => (s.typeSearch? t).isSome

/-- Do all searches end that a selection asks for? -/
def selectionEnds (s : Store) (d : TypeDef) (c : Categories) (f : NameFilter) : Bool :=
  if c = all then s.referencesEnd related (s.reach related [d])
  else if c.isEmpty then true
  else
    let chain := s.baseChain d
    let interfaces := s.reach TypeDef.interfaces ((chain.flatMap TypeDef.interfaces).filterMap s.type?)
    chain.all (s.membersEnd f) && s.referencesEnd (fun e => e.base.toList) chain &&
      s.referencesEnd TypeDef.nested [d] &&
      (!c.covers Categories.interfaces || s.referencesEnd TypeDef.interfaces (chain ++ interfaces))

/-- The outcome of a selection; none if it asks for a search that never ends. -/
def select? (s : Store) (d : TypeDef) (c : Categories) (f : NameFilter) : Option (List Member) :=
  if s.selectionEnds d c f then some (s.select d c f) else none

/-- An outcome is the selection. -/
theorem eq_select_of_select? {s : Store} {d : TypeDef} {c : Categories} {f : NameFilter}
    {selected : List Member} (h : s.select? d c f = some selected) : selected = s.select d c f := by
  unfold select? at h
  split at h
  · exact (Option.some.inj h).symm
  · cases h

end Store

end ReflectionFlow

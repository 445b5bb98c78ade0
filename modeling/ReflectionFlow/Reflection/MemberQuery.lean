/-
  File:      ReflectionFlow/Reflection/MemberQuery.lean
  Subject:   Calls that look members up, and calls that need the layout of a type.

  A lookup by constant names marks the members of these names, any other lookup all members
  it may reach.  On something that is not a known type it becomes a requirement.
-/
import ReflectionFlow.Reflection.CallSite

namespace ReflectionFlow

namespace CallSite

/-! ## 1. Lookups on a type -/

/-- The names that a lookup is restricted to, as far as they are constants. -/
structure LookupNames where
  names : Option (List String)

/-- Does a lookup take the name of a member? -/
def takesName (kind : LookupKind) (named : Bool) : Bool := named && kind != .constructors

/-- The names a lookup asks for; none if the overload is not understood. -/
def lookupNames? (c : CallSite) (kind : LookupKind) (named : Bool) : Option LookupNames :=
  if takesName kind named then
    if c.shapes.head? = some .string then (c.parameter? 0).map fun s => ⟨s.constantTexts?⟩ else none
  else some ⟨none⟩

/-- What the binding flags of a lookup select. -/
def lookupFlags? (c : CallSite) (kind : LookupKind) : Option Lookup :=
  match c.shapes.findIdx? (· == .bindingFlags) with
  | some index => (c.parameter? index).map (Lookup.ofFlags kind)
  | none => some (.byDefault kind)

/-- The lookup of a call.  A lookup of interfaces takes the case of names as a flag. -/
def lookup? (c : CallSite) (kind : LookupKind) : Option Lookup :=
  (c.lookupFlags? kind).bind fun l =>
    if kind = .interfaces && c.shapes[1]? = some .bool then
      (c.parameter? 1).map fun flag => { l with ignoreCase := l.ignoreCase || flag.maybeTrue }
    else some l

/-- The kind of member of which a single match can be followed further. -/
def followed? : LookupKind → Option MemberKind
  | .methods => some .method
  | .nestedTypes | .interfaces => some .type
  | _ => none

/-- The only member of the right kind among those found. -/
def uniqueMatch? (kind : LookupKind) (found : List Member) : Option Value :=
  (followed? kind).bind fun k =>
    match found.filter (·.kind == k) with
    | [m] => some (if k = .method then .method m.token else .type m.token)
    | _ => none

/-- The members of a type that have one of the given names. -/
def membersNamed (s : Store) (d : TypeDef) (l : Lookup) (names : List String) : List Member :=
  sortedOf (names.flatMap fun n => s.select d l.categories (.named n l.ignoreCase))

/-- Looks members up on a known type. -/
def lookupOn (c : CallSite) (r : Reporter) (kind : LookupKind) (names : LookupNames) (l : Lookup)
    (d : TypeDef) : Act ValueSet :=
  match names.names with
  | some names => do
    names.forM fun n =>
      r.markMembers d.token l.categories (.named n l.ignoreCase) .reflectionLookup
    match uniqueMatch? kind (membersNamed r.store d l names) with
    | some v => return .single v
    | none => c.defaultReturn
  | none => do
    r.markMembers d.token l.categories .any .reflectionLookup
    c.defaultReturn

/-- Looks members up on a value. -/
def lookupIn (c : CallSite) (r : Reporter) (kind : LookupKind) (names : LookupNames) (l : Lookup) :
    Value → Act ValueSet
  | .null => pure .empty
  | .type t =>
    match r.store.type? t with
    | some d => c.lookupOn r kind names l d
    | none => c.defaultReturn
  | v => do
    r.require (.single v) l.categories (.this c.method.name)
    c.defaultReturn

/-- Looks members up on the receiver of a call. -/
def lookupMembers? (c : CallSite) (r : Reporter) (kind : LookupKind) (named : Bool) :
    Option (Act ValueSet) := do
  let names ← c.lookupNames? kind named
  let l ← c.lookup? kind
  let types ← c.receiver?
  return do c.orDefault (← types.collectM (c.lookupIn r kind names l))

/-! ## 2. Expressions -/

/-- The categories that an expression factory looks in. -/
def expressionCategories : ExpressionMember → Categories
  | .call => .publicMethods ∪ .nonPublicMethods
  | .field => .publicFields ∪ .nonPublicFields
  | .property => .publicProperties ∪ .nonPublicProperties

/-- Where a type is followed by a name among the parameters. -/
def typeAndName? : List ParamShape → Option Nat
  | .type :: .string :: _ => some 0
  | _ :: rest => (typeAndName? rest).map (· + 1)
  | [] => none

/-- Names a member of a value in an expression. -/
def nameMember (c : CallSite) (r : Reporter) (categories : Categories) (index : Nat)
    (names : Option (List String)) : Value → Act Unit
  | .null => pure ()
  | .type t =>
    match names with
    | some names =>
      names.forM fun n => r.markMembers t categories (.named n false) .reflectionLookup
    | none => r.markMembers t categories .any .reflectionLookup
  | v => r.require (.single v) categories (.ofParameter c.method index)

/-- An expression that names a member of a type. -/
def expressionMember? (c : CallSite) (r : Reporter) (member : ExpressionMember) :
    Option (Act ValueSet) :=
  match typeAndName? c.shapes with
  | none => some c.defaultReturn
  | some index => do
    let names ← c.parameter? (index + 1)
    let types ← c.parameter? index
    return do
      types.members.forM
        (c.nameMember r (expressionCategories member) index names.constantTexts?)
      c.defaultReturn

/-! ## 3. Layouts -/

/-- Marks the fields of a known type. -/
def markLayout (r : Reporter) : Value → Act Unit
  | .type t => r.markMembers t (.publicFields ∪ .nonPublicFields) .any .interopLayout
  | _ => pure ()

/-- An operation on the layout of a type, given as an argument or as a generic argument. -/
def layout? (c : CallSite) (r : Reporter) : Option (Act ValueSet) :=
  match c.shapes.findIdx? (· == .type) with
  | some index => (c.parameter? index).map fun types => do
    types.members.forM (markLayout r)
    c.defaultReturn
  | none => some <| match c.callee.methodArgs with
    | arg :: _ => do
      markLayout r (← c.context.typeValue arg)
      c.defaultReturn
    | [] => c.defaultReturn

end CallSite

end ReflectionFlow

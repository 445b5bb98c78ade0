/-
  File:      ReflectionFlow/Reflection/TypeQuery.lean
  Subject:   Calls that yield a type or a handle: by name, by handle, of an object, of a base.

  Each rule gives the values a call returns, or nothing when the overload is not understood.
  Whether a rule applies depends only on the shape of the call, never on marks or reports.
-/
import ReflectionFlow.Reflection.CallSite

namespace ReflectionFlow

namespace CallSite

/-! ## 1. Types by name -/

/-- The types that a value names. -/
def namedBy (c : CallSite) (r : Reporter) : Value → Act ValueSet
  | .null => pure .empty
  | .string text => do
    match ← r.store.askTypeName text with
    | some tokens =>
      r.markNamed tokens
      return match tokens with
        | named :: _ => .single (.type named)
        | [] => .empty
    | none => return .empty
  | v =>
    match v.annotation? with
    | some (_, need) =>
      if need.isEmpty then unrecognized v else pure (c.returning need)
    | none => unrecognized v
where
  unrecognized (v : Value) : Act ValueSet := do
    r.report (.unknownTypeName v)
    return .unknown

/-- A type by its name: null if no text names one. -/
def getType? (c : CallSite) (r : Reporter) : Option (Act ValueSet) :=
  if c.shapes.head? = some .string then
    (c.parameter? 0).map fun names => do
      let found ← names.collectM (c.namedBy r)
      return if found.isEmpty then .single .null else found
  else none

/-! ## 2. Types and handles -/

/-- The type of a handle. -/
def typeFromHandle? (c : CallSite) : Option (Act ValueSet) :=
  (c.parameter? 0).map fun handles => handles.flatMapM fun
    | .typeHandle t => pure (.single (.type t))
    | .genericHandle p => pure (.single (.generic p))
    | _ => c.defaultReturn

/-- The handle of a type. -/
def typeHandle? (c : CallSite) : Option (Act ValueSet) :=
  c.receiver?.map fun types => types.flatMapM fun
    | .type t => pure (.single (.typeHandle t))
    | .generic p => pure (.single (.genericHandle p))
    | _ => c.defaultReturn

/-- The method of a handle. -/
def methodFromHandle? (c : CallSite) : Option (Act ValueSet) :=
  (c.parameter? 0).map fun handles => handles.flatMapM fun
    | .methodHandle t => pure (.single (.method t))
    | _ => c.defaultReturn

/-! ## 3. Types of objects -/

/-- The exact type of a value: that of a text, or the declared type if it is sealed. -/
def exactType? (c : CallSite) : Value → Option TypeDef
  | .string _ => c.context.store.typeNamed? "System.String"
  | v =>
    ((v.declared?.bind fun t => c.context.typeOf? t.stripByRef).bind c.context.store.type?).filter
      TypeDef.isSealed

/-- The type of an object. -/
def objectType? (c : CallSite) : Option (Act ValueSet) :=
  c.receiver?.map fun objects => do
    let found ← objects.flatMapM fun v =>
      match v with
      | .null => pure .empty
      | v => match c.exactType? v with
        | some d => pure (.single (.type d.token))
        | none => c.defaultReturn
    c.orDefault found

/-- The base type of a value, null for a type without one. -/
def baseOf (c : CallSite) : Value → Act ValueSet
  | .type t =>
    match c.context.store.type? t with
    | some d => match d.base with
      | none => pure (.single .null)
      | some b => match c.context.store.type? b with
        | some base => pure (.single (.type base.token))
        | none => c.defaultReturn
    | none => c.defaultReturn
  | v =>
    match v.annotation? with
    | some (_, need) =>
      if need.inherited.isEmpty then c.defaultReturn else pure (c.returning need.inherited)
    | none => c.defaultReturn

/-- The base type of a type. -/
def baseType? (c : CallSite) : Option (Act ValueSet) := c.receiver?.map fun types => types.flatMapM c.baseOf

end CallSite

end ReflectionFlow

/-
  File:      ReflectionFlow/Reflection/Intrinsic.lean
  Subject:   The library methods whose effect on reachability is modelled.

  A call to one of these methods is not taken as an opaque call.  A method is recognized by
  the full name of its declaring type, its own name and whether it is static; overloads are
  told apart by the coarse shapes of their parameters.

  Main definitions:
  * `Intrinsic`, `Intrinsic.name`
  * `Intrinsic.classify?`       is a method one of them?
  * `ParamShape`, `ParamShape.of`
-/
import ReflectionFlow.Members.Lookup
import ReflectionFlow.Metadata.Resolve

namespace ReflectionFlow

/-! ## 1. The catalogue -/

/-- Operations that need the layout of a type. -/
inductive LayoutOperation where
  | sizeOf
  | offsetOf
  | readStructure
  | destroyStructure
  deriving DecidableEq, Repr

/-- Expression factories that look up a member by name. -/
inductive ExpressionMember where
  | call
  | field
  | property
  deriving DecidableEq, Repr

/-- A library method whose effect is modelled. -/
inductive Intrinsic where
  /-- A type by its name. -/
  | getType
  /-- The type of a handle. -/
  | typeFromHandle
  /-- The handle of a type. -/
  | typeHandle
  /-- The type of an object. -/
  | objectGetType
  /-- The base type of a type. -/
  | baseType
  /-- Members of a type, by name or all of a kind. -/
  | lookup (kind : LookupKind) (named : Bool)
  /-- A generic type with arguments. -/
  | makeGenericType
  /-- A generic method with arguments. -/
  | makeGenericMethod
  /-- The method of a handle. -/
  | methodFromHandle
  /-- An instance of a type. -/
  | createInstance
  /-- An instance of a type given by assembly and name. -/
  | createInstanceByName
  /-- An instance of a generic argument. -/
  | createInstanceGeneric
  /-- An instance of a type found in an assembly at run time. -/
  | createInstanceFromAssembly
  /-- The class constructor of a type. -/
  | runClassConstructor
  /-- An expression that names a member of a type. -/
  | expression (member : ExpressionMember)
  /-- An expression that creates an instance. -/
  | expressionNew
  /-- An operation on the layout of a type. -/
  | layout (operation : LayoutOperation)
  /-- An empty array. -/
  | emptyArray
  deriving DecidableEq, Repr

/-- The name under which a member lookup is reported. -/
def LookupKind.lookupName (kind : LookupKind) (named : Bool) : String :=
  match kind with
  | .constructors => if named then "TypeGetConstructor" else "TypeGetConstructors"
  | .methods => if named then "TypeGetMethod" else "TypeGetMethods"
  | .fields => if named then "TypeGetField" else "TypeGetFields"
  | .properties => if named then "TypeGetProperty" else "TypeGetProperties"
  | .events => if named then "TypeGetEvent" else "TypeGetEvents"
  | .nestedTypes => if named then "TypeGetNestedType" else "TypeGetNestedTypes"
  | .members => if named then "TypeGetMember" else "TypeGetMembers"
  | .interfaces => if named then "TypeGetInterface" else "TypeGetInterfaces"

namespace Intrinsic

/-- The name under which a method is reported. -/
def name : Intrinsic → String
  | .getType => "TypeGetType"
  | .typeFromHandle => "TypeGetTypeFromHandle"
  | .typeHandle => "TypeGetTypeHandle"
  | .objectGetType => "ObjectGetType"
  | .baseType => "TypeGetBaseType"
  | .lookup kind named => kind.lookupName named
  | .makeGenericType => "TypeMakeGenericType"
  | .makeGenericMethod => "MethodInfoMakeGenericMethod"
  | .methodFromHandle => "MethodBaseGetMethodFromHandle"
  | .createInstance => "ActivatorCreateInstanceType"
  | .createInstanceByName => "ActivatorCreateInstanceName"
  | .createInstanceGeneric => "ActivatorCreateInstanceGeneric"
  | .createInstanceFromAssembly => "AssemblyCreateInstance"
  | .runClassConstructor => "RuntimeHelpersRunClassConstructor"
  | .expression .call => "ExpressionCall"
  | .expression .field => "ExpressionField"
  | .expression .property => "ExpressionProperty"
  | .expressionNew => "ExpressionNew"
  | .layout .sizeOf => "MarshalSizeOf"
  | .layout .offsetOf => "MarshalOffsetOf"
  | .layout .readStructure => "MarshalPtrToStructure"
  | .layout .destroyStructure => "MarshalDestroyStructure"
  | .emptyArray => "ArrayEmpty"

/-- The member lookup of an intrinsic, and whether it takes a member's name. -/
def lookup? : Intrinsic → Option (LookupKind × Bool)
  | .lookup kind named => some (kind, named)
  | _ => none

/-- Does the intrinsic create an instance of a type that a cast may name? -/
def isActivation : Intrinsic → Bool
  | .createInstance | .createInstanceByName | .createInstanceGeneric => true
  | _ => false

/-! ## 2. Recognition -/

/-- The instance methods of types, by name. -/
def ofTypeMethod? : String → Option Intrinsic
  | "get_TypeHandle" => some .typeHandle
  | "get_BaseType" => some .baseType
  | "GetConstructor" => some (.lookup .constructors true)
  | "GetConstructors" => some (.lookup .constructors false)
  | "GetMethod" => some (.lookup .methods true)
  | "GetMethods" => some (.lookup .methods false)
  | "GetField" => some (.lookup .fields true)
  | "GetFields" => some (.lookup .fields false)
  | "GetProperty" => some (.lookup .properties true)
  | "GetProperties" => some (.lookup .properties false)
  | "GetEvent" => some (.lookup .events true)
  | "GetEvents" => some (.lookup .events false)
  | "GetNestedType" => some (.lookup .nestedTypes true)
  | "GetNestedTypes" => some (.lookup .nestedTypes false)
  | "GetMember" => some (.lookup .members true)
  | "GetMembers" => some (.lookup .members false)
  | "GetInterface" => some (.lookup .interfaces true)
  | "GetInterfaces" => some (.lookup .interfaces false)
  | "MakeGenericType" => some .makeGenericType
  | _ => none

/-- The creation of an instance is generic, takes a type's name first, or takes a type. -/
def ofCreateInstance (sig : MethodSig) : Intrinsic :=
  if 0 < sig.genericArity then .createInstanceGeneric
  else match sig.params with
  | .prim .string :: _ => .createInstanceByName
  | _ => .createInstance

/-- The instance methods, by declaring type and name. -/
def ofInstanceMethod? (declaring name : String) : Option Intrinsic :=
  match declaring with
  | "System.Type" => ofTypeMethod? name
  | "System.Object" => if name == "GetType" then some .objectGetType else none
  | "System.Reflection.MethodInfo" =>
    if name == "MakeGenericMethod" then some .makeGenericMethod else none
  | "System.Reflection.Assembly" =>
    if name == "CreateInstance" then some .createInstanceFromAssembly else none
  | "System.AppDomain" =>
    if ["CreateInstance", "CreateInstanceAndUnwrap", "CreateInstanceFrom",
        "CreateInstanceFromAndUnwrap"].contains name then some .createInstanceFromAssembly
    else none
  | _ => none

/-- The static methods, by declaring type and name. -/
def ofStaticMethod? (declaring name : String) (sig : MethodSig) : Option Intrinsic :=
  match declaring, name with
  | "System.Type", "GetType" => some .getType
  | "System.Type", "GetTypeFromHandle" => some .typeFromHandle
  | "System.Reflection.MethodBase", "GetMethodFromHandle" => some .methodFromHandle
  | "System.Activator", "CreateInstance" => some (ofCreateInstance sig)
  | "System.Activator", "CreateInstanceFrom" => some .createInstanceFromAssembly
  | "System.Runtime.CompilerServices.RuntimeHelpers", "RunClassConstructor" =>
    some .runClassConstructor
  | "System.Linq.Expressions.Expression", "Call" => some (.expression .call)
  | "System.Linq.Expressions.Expression", "Field" => some (.expression .field)
  | "System.Linq.Expressions.Expression", "Property" => some (.expression .property)
  | "System.Linq.Expressions.Expression", "New" => some .expressionNew
  | "System.Runtime.InteropServices.Marshal", "SizeOf" => some (.layout .sizeOf)
  | "System.Runtime.InteropServices.Marshal", "OffsetOf" => some (.layout .offsetOf)
  | "System.Runtime.InteropServices.Marshal", "PtrToStructure" => some (.layout .readStructure)
  | "System.Runtime.InteropServices.Marshal", "DestroyStructure" =>
    some (.layout .destroyStructure)
  | "System.Array", "Empty" => if 0 < sig.genericArity then some .emptyArray else none
  | _, _ => none

/-- Is a method one of the catalogue? -/
def classify? (s : Store) (m : MethodDef) : Option Intrinsic :=
  (s.type? m.declaring).bind fun d =>
    if m.isStatic then ofStaticMethod? d.fullName m.name m.sig
    else ofInstanceMethod? d.fullName m.name

end Intrinsic

/-! ## 3. Shapes of parameters -/

/-- The coarse shape of a parameter. -/
inductive ParamShape where
  | string
  | bool
  | int
  | type
  | typeArray
  | objectArray
  | bindingFlags
  | other
  deriving DecidableEq, Repr

namespace ParamShape

/-- Does a token name the type with the given full name? -/
def isNamed (s : Store) (t : Token) (fullName : String) : Bool :=
  match s.type? t with
  | some d => d.fullName == fullName
  | none => false

/-- The shape of a parameter type. -/
def of (s : Store) : TypeSig → ParamShape
  | .prim .string => .string
  | .prim .boolean => .bool
  | .prim .int32 => .int
  | .classType t => if isNamed s t "System.Type" then .type else .other
  | .valueType t => if isNamed s t "System.Reflection.BindingFlags" then .bindingFlags else .other
  | .vector (.prim .object) => .objectArray
  | .vector (.classType t) => if isNamed s t "System.Type" then .typeArray else .other
  | _ => .other

/-- The name of a shape. -/
def name : ParamShape → String
  | .string => "String"
  | .bool => "Bool"
  | .int => "Int"
  | .type => "Type"
  | .typeArray => "TypeArray"
  | .objectArray => "ObjectArray"
  | .bindingFlags => "BindingFlags"
  | .other => "Other"

end ParamShape

end ReflectionFlow

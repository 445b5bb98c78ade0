/-
  File:      ReflectionFlow/Metadata/TypeSig.lean
  Subject:   Types and methods as signatures describe them.

  A type signature is a tree over primitive types, named types and generic variables.  It
  is enough to count the operands of a call, to find by-reference parameters, to find the
  declared type of a value, and to put generic arguments in place of variables.

  Main definitions:
  * `TypeSig`, `MethodSig`     the two kinds of signature
  * `TypeSig.substitute`       generic arguments in place of variables
  * `TypeSig.rank`             the order of signatures; it also decides equality
  * `TypeSig.render`           the text of a signature
-/
import ReflectionFlow.Metadata.Token

namespace ReflectionFlow

/-! ## 1. Signatures -/

/-- The built-in types, in the order in which signatures are sorted. -/
inductive Primitive where
  | void
  | boolean
  | char
  | int8
  | uint8
  | int16
  | uint16
  | int32
  | uint32
  | int64
  | uint64
  | float32
  | float64
  | nativeInt
  | nativeUInt
  | string
  | object
  | typedReference
  deriving DecidableEq, Repr

/-- A method signature over some notion of type. -/
structure MethodSigOf (α : Type) where
  /-- The method takes an instance. -/
  hasThis : Bool
  /-- The instance is listed as the first parameter. -/
  explicitThis : Bool
  /-- Number of generic parameters of the method itself. -/
  genericArity : Nat
  /-- Return type. -/
  ret : α
  /-- Parameter types, an implicit instance excluded. -/
  params : List α
  deriving Repr

/-- A type as it appears in a signature. -/
inductive TypeSig where
  | prim (p : Primitive)
  /-- A reference type by its token. -/
  | classType (t : Token)
  /-- A value type by its token. -/
  | valueType (t : Token)
  /-- A generic type with its arguments. -/
  | inst (definition : Token) (isValueType : Bool) (args : List TypeSig)
  /-- A generic variable of the enclosing type. -/
  | typeVar (n : Nat)
  /-- A generic variable of the enclosing method. -/
  | methodVar (n : Nat)
  /-- An array of one dimension that starts at zero. -/
  | vector (element : TypeSig)
  /-- An array of the given number of dimensions. -/
  | array (element : TypeSig) (dimensions : Nat)
  | pointer (target : TypeSig)
  | byRef (target : TypeSig)
  | function (sig : MethodSigOf TypeSig)
  deriving Repr

/-- A method signature. -/
abbrev MethodSig := MethodSigOf TypeSig

/-! ## 2. Order and equality -/

instance : Ranked Primitive := Ranked.via Primitive.ctorIdx fun {a b} h => by
  cases a <;> cases b <;> first | rfl | exact absurd h (by decide)

namespace TypeSig

mutual

/-- The rank of a signature: which form it has, then its parts in order. -/
def rank : TypeSig → List Nat
  | .prim p => 0 :: Ranked.rank p
  | .classType t => 1 :: Ranked.rank t
  | .valueType t => 2 :: Ranked.rank t
  | .inst d v args => 3 :: (Ranked.rank (d, v) ++ rankAll args)
  | .typeVar n => 4 :: Ranked.rank n
  | .methodVar n => 5 :: Ranked.rank n
  | .vector e => 6 :: rank e
  | .array e n => 7 :: (rank e ++ Ranked.rank n)
  | .pointer t => 8 :: rank t
  | .byRef t => 9 :: rank t
  | .function sig => 10 :: rankMethod sig

/-- The rank of a list of signatures. -/
def rankAll : List TypeSig → List Nat
  | [] => [0]
  | t :: r => 1 :: (rank t ++ rankAll r)

/-- The rank of a method signature: its fields in order. -/
def rankMethod : MethodSigOf TypeSig → List Nat
  | ⟨h, e, n, r, ps⟩ => Ranked.rank (h, e, n) ++ (rank r ++ rankAll ps)

end

mutual

/-- A signature can be read off the front of its rank. -/
theorem rank_cancel {a b : TypeSig} {s t : List Nat} (h : a.rank ++ s = b.rank ++ t) :
    a = b ∧ s = t := by
  cases a <;> cases b <;>
    simp only [rank, List.cons_append, List.append_assoc, List.cons.injEq, true_and] at h <;>
    try exact absurd h.1 (by decide)
  case prim => exact (Ranked.rank_cancel h).imp (congrArg _) id
  case classType => exact (Ranked.rank_cancel h).imp (congrArg _) id
  case valueType => exact (Ranked.rank_cancel h).imp (congrArg _) id
  case inst =>
    obtain ⟨h₁, h'⟩ := Ranked.rank_cancel h
    obtain ⟨h₂, h₃⟩ := rankAll_cancel h'
    simp only [Prod.mk.injEq] at h₁
    exact ⟨by rw [h₁.1, h₁.2, h₂], h₃⟩
  case typeVar => exact (Ranked.rank_cancel h).imp (congrArg _) id
  case methodVar => exact (Ranked.rank_cancel h).imp (congrArg _) id
  case vector => exact (rank_cancel h).imp (congrArg _) id
  case array =>
    obtain ⟨h₁, h'⟩ := rank_cancel h
    obtain ⟨h₂, h₃⟩ := Ranked.rank_cancel h'
    exact ⟨by rw [h₁, h₂], h₃⟩
  case pointer => exact (rank_cancel h).imp (congrArg _) id
  case byRef => exact (rank_cancel h).imp (congrArg _) id
  case function => exact (rankMethod_cancel h).imp (congrArg _) id

/-- A list of signatures can be read off the front of its rank. -/
theorem rankAll_cancel {a b : List TypeSig} {s t : List Nat}
    (h : rankAll a ++ s = rankAll b ++ t) : a = b ∧ s = t := by
  match a, b with
  | [], [] => exact ⟨rfl, by simpa [rankAll] using h⟩
  | [], _ :: _ => simp [rankAll] at h
  | _ :: _, [] => simp [rankAll] at h
  | x :: a, y :: b =>
    simp only [rankAll, List.cons_append, List.append_assoc, List.cons.injEq, true_and] at h
    obtain ⟨h₁, h'⟩ := rank_cancel h
    obtain ⟨h₂, h₃⟩ := rankAll_cancel h'
    exact ⟨by rw [h₁, h₂], h₃⟩

/-- A method signature can be read off the front of its rank. -/
theorem rankMethod_cancel {a b : MethodSigOf TypeSig} {s t : List Nat}
    (h : rankMethod a ++ s = rankMethod b ++ t) : a = b ∧ s = t := by
  match a, b with
  | ⟨_, _, _, r, ps⟩, ⟨_, _, _, r', ps'⟩ =>
    simp only [rankMethod, List.append_assoc] at h
    obtain ⟨h₁, h'⟩ := Ranked.rank_cancel h
    obtain ⟨h₂, h''⟩ := rank_cancel h'
    obtain ⟨h₃, h₄⟩ := rankAll_cancel h''
    simp only [Prod.mk.injEq] at h₁
    exact ⟨by rw [h₁.1, h₁.2.1, h₁.2.2, h₂, h₃], h₄⟩

end

instance : Ranked TypeSig := ⟨rank, rank_cancel⟩

instance : DecidableEq TypeSig := decEqOfRank

end TypeSig

instance : Ranked MethodSig := ⟨TypeSig.rankMethod, TypeSig.rankMethod_cancel⟩

instance : DecidableEq MethodSig := decEqOfRank

instance : Inhabited TypeSig := ⟨.prim .void⟩

/-! ## 3. Shape -/

namespace TypeSig

/-- Is the signature `void`? -/
def isVoid : TypeSig → Bool
  | .prim .void => true
  | _ => false

/-- Is the signature a managed reference? -/
def isByRef : TypeSig → Bool
  | .byRef _ => true
  | _ => false

/-- Strips one managed reference. -/
def stripByRef : TypeSig → TypeSig
  | .byRef t => t
  | t => t

/-- Is the signature itself a generic variable? -/
def isVariable : TypeSig → Bool
  | .typeVar _ | .methodVar _ => true
  | _ => false

mutual

/-- Does a generic variable occur anywhere in the signature? -/
def isOpen : TypeSig → Bool
  | .typeVar _ | .methodVar _ => true
  | .inst _ _ args => anyOpen args
  | .vector t | .array t _ | .pointer t | .byRef t => isOpen t
  | .function sig => isOpenMethod sig
  | .prim _ | .classType _ | .valueType _ => false

/-- Does a generic variable occur in one of the signatures? -/
def anyOpen : List TypeSig → Bool
  | [] => false
  | t :: r => isOpen t || anyOpen r

/-- Does a generic variable occur in the method signature? -/
def isOpenMethod : MethodSigOf TypeSig → Bool
  | ⟨_, _, _, r, ps⟩ => isOpen r || anyOpen ps

end

/-- The token of a named type, with or without arguments. -/
def definition? : TypeSig → Option Token
  | .classType t | .valueType t => some t
  | .inst d _ _ => some d
  | _ => none

end TypeSig

/-- The full name of the library type behind a primitive. -/
def Primitive.fullName : Primitive → String
  | .void => "System.Void"
  | .boolean => "System.Boolean"
  | .char => "System.Char"
  | .int8 => "System.SByte"
  | .uint8 => "System.Byte"
  | .int16 => "System.Int16"
  | .uint16 => "System.UInt16"
  | .int32 => "System.Int32"
  | .uint32 => "System.UInt32"
  | .int64 => "System.Int64"
  | .uint64 => "System.UInt64"
  | .float32 => "System.Single"
  | .float64 => "System.Double"
  | .nativeInt => "System.IntPtr"
  | .nativeUInt => "System.UIntPtr"
  | .string => "System.String"
  | .object => "System.Object"
  | .typedReference => "System.TypedReference"

namespace TypeSig

/-- The full name of the library type behind a primitive signature. -/
def wellKnownName? : TypeSig → Option String
  | .prim p => some p.fullName
  | _ => none

/-! ## 4. Substitution -/

mutual

/-- Puts the given arguments in place of the generic variables.  A variable without an
    argument stays, so without any arguments nothing changes. -/
def substitute (typeArgs methodArgs : List TypeSig) : TypeSig → TypeSig
  | .typeVar n => typeArgs[n]?.getD (.typeVar n)
  | .methodVar n => methodArgs[n]?.getD (.methodVar n)
  | .inst d v args => .inst d v (substituteAll typeArgs methodArgs args)
  | .vector t => .vector (substitute typeArgs methodArgs t)
  | .array t n => .array (substitute typeArgs methodArgs t) n
  | .pointer t => .pointer (substitute typeArgs methodArgs t)
  | .byRef t => .byRef (substitute typeArgs methodArgs t)
  | .function sig => .function (substituteMethod typeArgs methodArgs sig)
  | .prim p => .prim p
  | .classType t => .classType t
  | .valueType t => .valueType t

/-- Substitution in each signature of a list. -/
def substituteAll (typeArgs methodArgs : List TypeSig) : List TypeSig → List TypeSig
  | [] => []
  | t :: r => substitute typeArgs methodArgs t :: substituteAll typeArgs methodArgs r

/-- Substitution in the return type and the parameter types. -/
def substituteMethod (typeArgs methodArgs : List TypeSig) :
    MethodSigOf TypeSig → MethodSigOf TypeSig
  | ⟨h, e, n, r, ps⟩ =>
    ⟨h, e, n, substitute typeArgs methodArgs r, substituteAll typeArgs methodArgs ps⟩

end

/-- Substitution in a list is substitution in each member. -/
theorem substituteAll_eq_map (typeArgs methodArgs l : List TypeSig) :
    substituteAll typeArgs methodArgs l = l.map (substitute typeArgs methodArgs) := by
  induction l with
  | nil => rfl
  | cons t r ih => simp [substituteAll, ih]

/-! ## 5. Text -/

mutual

/-- The text of a signature: tokens in brackets, arguments in angle brackets, variables
    with one or two exclamation marks, and suffixes for arrays, pointers and references. -/
def render : TypeSig → String
  | .classType t | .valueType t => "[" ++ t.render ++ "]"
  | .inst d _ args => "[" ++ d.render ++ "]<" ++ Text.joined "," (renderAll args) ++ ">"
  | .typeVar n => "!" ++ toString n
  | .methodVar n => "!!" ++ toString n
  | .vector t => render t ++ "[]"
  | .array t n => render t ++ "[" ++ "".pushn ',' (n - 1) ++ "]"
  | .pointer t => render t ++ "*"
  | .byRef t => render t ++ "&"
  | .function _ => "method*"
  | .prim p => p.fullName

/-- The texts of the signatures of a list. -/
def renderAll : List TypeSig → List String
  | [] => []
  | t :: r => render t :: renderAll r

end

end TypeSig

namespace MethodSigOf

/-- Number of operands a call takes from the stack. -/
def stackArguments (sig : MethodSig) : Nat :=
  sig.params.length + (sig.hasThis && !sig.explicitThis).toNat

/-- Generic arguments in place of variables. -/
def substitute (typeArgs methodArgs : List TypeSig) (sig : MethodSig) : MethodSig :=
  TypeSig.substituteMethod typeArgs methodArgs sig

end MethodSigOf

end ReflectionFlow

/-
  File:      ReflectionFlow/Value/Basic.lean
  Subject:   Abstract values: what the analysis can know about one runtime value.

  A value is a constant, a reflected type or method, a symbol that stands for something
  the method was given, a generic parameter, an array allocated by the method, or the
  address of a storage location.  Arrays hold sets of values and sets hold arrays, so the
  three notions are defined together.

  Main definitions:
  * `Value`, `SetOf`, `ArrayOf`          values, sets of them, arrays of sets
  * `Value.rank`                         the order of values; it also decides equality
  * `Value.annotation?`                  what an annotated value promises
  * `Value.render`                       the text of a value
-/
import ReflectionFlow.Members.Categories
import ReflectionFlow.Metadata.TypeSig
import ReflectionFlow.Text.Quoted

namespace ReflectionFlow

/-! ## 1. Parts of values -/

/-- Kinds of places that can carry an annotation. -/
inductive SourceKind where
  | parameter
  | ret
  | field
  | this
  | generic
  deriving DecidableEq, Repr

/-- The name of a kind. -/
def SourceKind.name : SourceKind → String
  | .parameter => "Parameter"
  | .ret => "Return"
  | .field => "Field"
  | .this => "This"
  | .generic => "GenericParameter"

/-- The kind in words. -/
def SourceKind.render : SourceKind → String
  | .parameter => "parameter"
  | .ret => "return value"
  | .field => "field"
  | .this => "implicit 'this'"
  | .generic => "generic parameter"

/-- What a symbol stands for. -/
inductive Source where
  /-- The value of a declared parameter on entry; the instance is not counted. -/
  | parameter (method : Token) (index : UInt16)
  /-- The value a call returns. -/
  | ret (method : Token)
  /-- The instance of an instance method. -/
  | this (method : Token)
  /-- The contents of a field. -/
  | field (field : Token)
  deriving DecidableEq, Repr

/-- The kind of place a symbol comes from. -/
def Source.kind : Source → SourceKind
  | .parameter _ _ => .parameter
  | .ret _ => .ret
  | .this _ => .this
  | .field _ => .field

/-- Who declares a generic parameter. -/
inductive Owner where
  | type (t : Token)
  | method (t : Token)
  deriving DecidableEq, Repr

/-- A generic parameter and what its annotation promises. -/
structure GenericParameter where
  owner : Owner
  index : UInt16
  need : Categories
  deriving DecidableEq, Repr

/-- Where an array is allocated. -/
structure Site where
  method : Token
  offset : Nat
  deriving DecidableEq, Repr

/-- A storage location whose address is taken. -/
inductive Location where
  | loc (index : UInt16)
  /-- An argument, numbered as in the code. -/
  | arg (index : UInt16)
  /-- The instance argument. -/
  | this
  | field (t : Token)
  /-- An array element, at a known index or at some index. -/
  | element (site : Site) (index : Option Int32)
  /-- What a by-reference parameter of the method refers to. -/
  | parameterTarget (index : UInt16)
  /-- The location a method returns by reference. -/
  | returnSlot (method : Token)
  deriving DecidableEq, Repr

/-! ## 2. Values -/

/-- A set, as the list of its members in ascending order. -/
structure SetOf (α : Type) where
  members : List α
  deriving Repr

/-- What was stored at an index, and which block stored there last. -/
structure Slot (α : Type) where
  values : SetOf α
  block : Nat
  deriving Repr

/-- An array: where it was allocated, its length, and the tracked indices in ascending order. -/
structure ArrayOf (α : Type) where
  site : Site
  size : SetOf α
  slots : List (Int32 × Slot α)
  deriving Repr

/-- A single abstract value. -/
inductive Value where
  /-- Nothing is known. -/
  | unknown
  | null
  | int (n : Int32)
  | string (s : String)
  /-- Exactly this type. -/
  | type (t : Token)
  /-- The handle of this type. -/
  | typeHandle (t : Token)
  /-- Exactly this method. -/
  | method (t : Token)
  /-- The handle of this method. -/
  | methodHandle (t : Token)
  /-- Something the method was given, with the promise of its annotation and its type. -/
  | symbol (source : Source) (need : Categories) (declared : TypeSig)
  /-- The type that a generic parameter stands for. -/
  | generic (p : GenericParameter)
  /-- The handle of the type that a generic parameter stands for. -/
  | genericHandle (p : GenericParameter)
  | array (a : ArrayOf Value)
  | address (l : Location)
  deriving Repr

/-- A set of values. -/
abbrev ValueSet := SetOf Value

/-- An array of value sets. -/
abbrev ArrayValue := ArrayOf Value

/-! ## 3. Order and equality of the parts -/

instance : Ranked SourceKind := Ranked.via SourceKind.ctorIdx fun {a b} h => by
  cases a <;> cases b <;> first | rfl | exact absurd h (by decide)

instance : Ranked Source where
  rank
    | .parameter m i => 0 :: Ranked.rank (m, i)
    | .ret m => 1 :: Ranked.rank m
    | .this m => 2 :: Ranked.rank m
    | .field f => 3 :: Ranked.rank f
  rank_cancel {a b s t} h := by
    cases a <;> cases b <;>
      simp only [List.cons_append, List.cons.injEq, true_and] at h <;>
      try exact absurd h.1 (by decide)
    case parameter =>
      obtain ⟨h₁, h₂⟩ := Ranked.rank_cancel h
      simp only [Prod.mk.injEq] at h₁
      exact ⟨by rw [h₁.1, h₁.2], h₂⟩
    all_goals exact (Ranked.rank_cancel h).imp (congrArg _) id

instance : Ranked Owner where
  rank
    | .type t => 0 :: Ranked.rank t
    | .method t => 1 :: Ranked.rank t
  rank_cancel {a b s t} h := by
    cases a <;> cases b <;>
      simp only [List.cons_append, List.cons.injEq, true_and] at h <;>
      try exact absurd h.1 (by decide)
    all_goals exact (Ranked.rank_cancel h).imp (congrArg _) id

instance : Ranked GenericParameter :=
  Ranked.via (fun p => (p.owner, p.index, p.need)) fun {a b} h => by
    cases a; cases b; simpa using h

instance : Ranked Site := Ranked.via (fun s => (s.method, s.offset)) fun {a b} h => by
  cases a; cases b; simpa using h

instance : Ranked Location where
  rank
    | .loc n => 0 :: Ranked.rank n
    | .arg n => 1 :: Ranked.rank n
    | .this => [2]
    | .field t => 3 :: Ranked.rank t
    | .element s i => 4 :: Ranked.rank (s, i)
    | .parameterTarget n => 5 :: Ranked.rank n
    | .returnSlot t => 6 :: Ranked.rank t
  rank_cancel {a b s t} h := by
    cases a <;> cases b <;>
      simp only [List.cons_append, List.nil_append, List.cons.injEq, true_and] at h <;>
      try exact absurd h.1 (by decide)
    case this => exact ⟨rfl, h⟩
    case element =>
      obtain ⟨h₁, h₂⟩ := Ranked.rank_cancel h
      simp only [Prod.mk.injEq] at h₁
      exact ⟨by rw [h₁.1, h₁.2], h₂⟩
    all_goals exact (Ranked.rank_cancel h).imp (congrArg _) id

/-! ## 4. Order and equality of values -/

namespace Value

mutual

/-- The rank of a value: which form it has, then its parts in order. -/
def rank : Value → List Nat
  | .unknown => [0]
  | .null => [1]
  | .int n => 2 :: Ranked.rank n
  | .string s => 3 :: Ranked.rank s
  | .type t => 4 :: Ranked.rank t
  | .typeHandle t => 5 :: Ranked.rank t
  | .method t => 6 :: Ranked.rank t
  | .methodHandle t => 7 :: Ranked.rank t
  | .symbol s n d => 8 :: Ranked.rank (s, n, d)
  | .generic p => 9 :: Ranked.rank p
  | .genericHandle p => 10 :: Ranked.rank p
  | .array a => 11 :: rankArray a
  | .address l => 12 :: Ranked.rank l

/-- The rank of a list of values. -/
def rankAll : List Value → List Nat
  | [] => [0]
  | v :: r => 1 :: (rank v ++ rankAll r)

/-- The rank of a set: its members in order. -/
def rankSet : SetOf Value → List Nat
  | ⟨members⟩ => rankAll members

/-- The rank of a tracked entry: the values, then the block. -/
def rankSlot : Slot Value → List Nat
  | ⟨values, block⟩ => rankSet values ++ Ranked.rank block

/-- The rank of the tracked entries: each index with its entry. -/
def rankSlots : List (Int32 × Slot Value) → List Nat
  | [] => [0]
  | e :: r => 1 :: (rankEntry e ++ rankSlots r)

/-- The rank of an index with its entry. -/
def rankEntry : Int32 × Slot Value → List Nat
  | (i, s) => Ranked.rank i ++ rankSlot s

/-- The rank of an array: its site, its size, its entries. -/
def rankArray : ArrayOf Value → List Nat
  | ⟨site, size, slots⟩ => Ranked.rank site ++ (rankSet size ++ rankSlots slots)

end

mutual

/-- A value can be read off the front of its rank. -/
theorem rank_cancel {a b : Value} {s t : List Nat} (h : a.rank ++ s = b.rank ++ t) :
    a = b ∧ s = t := by
  cases a <;> cases b <;>
    simp only [rank, List.cons_append, List.nil_append, List.cons.injEq, true_and] at h <;>
    try exact absurd h.1 (by decide)
  case unknown => exact ⟨rfl, h⟩
  case null => exact ⟨rfl, h⟩
  case int => exact (Ranked.rank_cancel h).imp (congrArg _) id
  case string => exact (Ranked.rank_cancel h).imp (congrArg _) id
  case type => exact (Ranked.rank_cancel h).imp (congrArg _) id
  case typeHandle => exact (Ranked.rank_cancel h).imp (congrArg _) id
  case method => exact (Ranked.rank_cancel h).imp (congrArg _) id
  case methodHandle => exact (Ranked.rank_cancel h).imp (congrArg _) id
  case symbol =>
    obtain ⟨h₁, h₂⟩ := Ranked.rank_cancel h
    simp only [Prod.mk.injEq] at h₁
    exact ⟨by rw [h₁.1, h₁.2.1, h₁.2.2], h₂⟩
  case generic => exact (Ranked.rank_cancel h).imp (congrArg _) id
  case genericHandle => exact (Ranked.rank_cancel h).imp (congrArg _) id
  case array => exact (rankArray_cancel h).imp (congrArg _) id
  case address => exact (Ranked.rank_cancel h).imp (congrArg _) id

/-- A list of values can be read off the front of its rank. -/
theorem rankAll_cancel {a b : List Value} {s t : List Nat}
    (h : rankAll a ++ s = rankAll b ++ t) : a = b ∧ s = t := by
  match a, b with
  | [], [] => exact ⟨rfl, by simpa [rankAll] using h⟩
  | [], _ :: _ => simp [rankAll] at h
  | _ :: _, [] => simp [rankAll] at h
  | x :: a, y :: b =>
    simp only [rankAll, List.cons_append, List.append_assoc, List.cons.injEq, true_and] at h
    obtain ⟨h₁, h'⟩ := rank_cancel h
    obtain ⟨h₂, h₃⟩ := rankAll_cancel h'
    exact ⟨by rw [h₁, h₂], h₃⟩

/-- A set can be read off the front of its rank. -/
theorem rankSet_cancel {a b : SetOf Value} {s t : List Nat}
    (h : rankSet a ++ s = rankSet b ++ t) : a = b ∧ s = t := by
  match a, b with
  | ⟨_⟩, ⟨_⟩ =>
    simp only [rankSet] at h
    exact (rankAll_cancel h).imp (congrArg _) id

/-- A tracked entry can be read off the front of its rank. -/
theorem rankSlot_cancel {a b : Slot Value} {s t : List Nat}
    (h : rankSlot a ++ s = rankSlot b ++ t) : a = b ∧ s = t := by
  match a, b with
  | ⟨_, _⟩, ⟨_, _⟩ =>
    simp only [rankSlot, List.append_assoc] at h
    obtain ⟨h₁, h'⟩ := rankSet_cancel h
    obtain ⟨h₂, h₃⟩ := Ranked.rank_cancel h'
    exact ⟨by rw [h₁, h₂], h₃⟩

/-- The tracked entries can be read off the front of their rank. -/
theorem rankSlots_cancel {a b : List (Int32 × Slot Value)} {s t : List Nat}
    (h : rankSlots a ++ s = rankSlots b ++ t) : a = b ∧ s = t := by
  match a, b with
  | [], [] => exact ⟨rfl, by simpa [rankSlots] using h⟩
  | [], _ :: _ => simp [rankSlots] at h
  | _ :: _, [] => simp [rankSlots] at h
  | x :: a, y :: b =>
    simp only [rankSlots, List.cons_append, List.append_assoc, List.cons.injEq, true_and] at h
    obtain ⟨h₁, h'⟩ := rankEntry_cancel h
    obtain ⟨h₂, h₃⟩ := rankSlots_cancel h'
    exact ⟨by rw [h₁, h₂], h₃⟩

/-- An index with its entry can be read off the front of its rank. -/
theorem rankEntry_cancel {a b : Int32 × Slot Value} {s t : List Nat}
    (h : rankEntry a ++ s = rankEntry b ++ t) : a = b ∧ s = t := by
  match a, b with
  | (_, _), (_, _) =>
    simp only [rankEntry, List.append_assoc] at h
    obtain ⟨h₁, h'⟩ := Ranked.rank_cancel h
    obtain ⟨h₂, h₃⟩ := rankSlot_cancel h'
    exact ⟨by rw [h₁, h₂], h₃⟩

/-- An array can be read off the front of its rank. -/
theorem rankArray_cancel {a b : ArrayOf Value} {s t : List Nat}
    (h : rankArray a ++ s = rankArray b ++ t) : a = b ∧ s = t := by
  match a, b with
  | ⟨_, _, _⟩, ⟨_, _, _⟩ =>
    simp only [rankArray, List.append_assoc] at h
    obtain ⟨h₁, h'⟩ := Ranked.rank_cancel h
    obtain ⟨h₂, h''⟩ := rankSet_cancel h'
    obtain ⟨h₃, h₄⟩ := rankSlots_cancel h''
    exact ⟨by rw [h₁, h₂, h₃], h₄⟩

end

instance : Ranked Value := ⟨rank, rank_cancel⟩

instance : DecidableEq Value := decEqOfRank

end Value

instance : Ranked ValueSet := ⟨Value.rankSet, Value.rankSet_cancel⟩

instance : DecidableEq ValueSet := decEqOfRank

instance : Ranked ArrayValue := ⟨Value.rankArray, Value.rankArray_cancel⟩

instance : DecidableEq ArrayValue := decEqOfRank

/-! ## 5. Reading a value -/

namespace Value

/-- Is nothing known about the value? -/
def isUnknown : Value → Bool
  | .unknown => true
  | _ => false

/-- Is the value an address? -/
def isAddress : Value → Bool
  | .address _ => true
  | _ => false

/-- The integer constant, if the value is one. -/
def constant? : Value → Option Int32
  | .int n => some n
  | _ => none

/-- What an annotated value promises, and the kind of place it comes from. -/
def annotation? : Value → Option (SourceKind × Categories)
  | .symbol source need _ => some (source.kind, need)
  | .generic p => some (.generic, p.need)
  | _ => none

/-- The declared type of a symbol. -/
def declared? : Value → Option TypeSig
  | .symbol _ _ declared => some declared
  | _ => none

/-- The value without the contents of an array. -/
def withoutContents : Value → Value
  | .array a => .array { a with slots := [] }
  | v => v

end Value

/-! ## 6. Text -/

/-- The text of a site inside the text of an address. -/
def Site.render (s : Site) : String :=
  "ArraySite \x7b method: " ++ s.method.renderTagged ++ ", offset: " ++ toString s.offset ++ " \x7d"

/-- The text of a location. -/
def Location.render : Location → String
  | .loc n => "Local(" ++ toString n.toNat ++ ")"
  | .arg n => "Argument(" ++ toString n.toNat ++ ")"
  | .this => "This"
  | .field t => "Field(" ++ t.renderTagged ++ ")"
  | .element s i =>
    "ArrayElement \x7b site: " ++ s.render ++ ", index: " ++
      (match i with
        | some n => "Some(" ++ toString n.toInt ++ ")"
        | none => "None") ++ " \x7d"
  | .parameterTarget n => "ParameterTarget(" ++ toString n.toNat ++ ")"
  | .returnSlot t => "ReturnSlot(" ++ t.renderTagged ++ ")"

/-- The text of a generic parameter. -/
def GenericParameter.render (p : GenericParameter) : String :=
  match p.owner with
  | .type t => "!" ++ toString p.index.toNat ++ " of " ++ t.render
  | .method t => "!!" ++ toString p.index.toNat ++ " of " ++ t.render

/-- The text of a symbol. -/
def Source.render : Source → String
  | .parameter m i => "parameter #" ++ toString i.toNat ++ " of " ++ m.render
  | .ret m => "return value of " ++ m.render
  | .this m => "'this' of " ++ m.render
  | .field f => "field " ++ f.render

/-- The text of a value. -/
def Value.render : Value → String
  | .unknown => "<unknown>"
  | .null => "null"
  | .int n => toString n.toInt
  | .string s => Text.quoted s
  | .type t => "typeof(" ++ t.render ++ ")"
  | .typeHandle t => "typeof(" ++ t.render ++ ").TypeHandle"
  | .method t => "method " ++ t.render
  | .methodHandle t => "methodof(" ++ t.render ++ ").MethodHandle"
  | .symbol source _ _ => source.render
  | .generic p | .genericHandle p => p.render
  | .array a => "array allocated at " ++ Text.offset a.site.offset
  | .address l => "&" ++ l.render

end ReflectionFlow

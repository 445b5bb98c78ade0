/-
  File:      ReflectionFlow/Value/Set.lean
  Subject:   Sets of values: what a variable or a stack slot may hold.

  The empty set says that no value has arrived yet.  A set that contains the unknown value
  contains nothing else: the unknown value absorbs all others.

  Main definitions:
  * `ValueSet.insert`, `ValueSet.merge`     one more value, the union of two sets
  * `ValueSet.map`, `ValueSet.flatMap`      the image under a function
  * `ValueSet.flatMapM`, `ValueSet.collectM`   the same with effects
  * `ValueSet.render`                       the text of a set
-/
import ReflectionFlow.Flow.Fixpoint
import ReflectionFlow.Value.Basic

namespace ReflectionFlow

/-- Membership is membership in the list. -/
instance : Membership Value ValueSet := ⟨fun s v => v ∈ s.members⟩

namespace SetOf

/-! ## 1. Building sets -/

/-- The set without values. -/
def empty : ValueSet := ⟨[]⟩

/-- The set of one value. -/
def single (v : Value) : ValueSet := ⟨[v]⟩

/-- The set that says nothing. -/
def unknown : ValueSet := single .unknown

instance : Inhabited ValueSet := ⟨empty⟩

/-- Is the set empty? -/
def isEmpty (s : ValueSet) : Bool := s.members.isEmpty

/-- Number of values. -/
def size (s : ValueSet) : Nat := s.members.length

/-- Does the set contain the unknown value? -/
def isUnknown (s : ValueSet) : Bool := s.members.any Value.isUnknown

/-- Is the value a member? -/
def contains (s : ValueSet) (v : Value) : Bool := s.members.contains v

/-- The only value of a set that has just one. -/
def single? (s : ValueSet) : Option Value :=
  match s.members with
  | [v] => some v
  | _ => none

/-- The integer of a set that has just one constant. -/
def constant? (s : ValueSet) : Option Int32 := s.single?.bind Value.constant?

/-- Adds a value; the unknown value drives out all others and lets none in. -/
def insert (s : ValueSet) (v : Value) : ValueSet :=
  if s.isUnknown then s
  else if v.isUnknown then unknown
  else ⟨insertSorted v s.members⟩

/-- The set of the values of a list. -/
def ofList (l : List Value) : ValueSet := l.foldl insert empty

/-- The union of two sets. -/
def merge (s t : ValueSet) : ValueSet :=
  if s.isUnknown || t.isEmpty then s
  else if t.isUnknown || s.isEmpty then t
  else t.members.foldl insert s

/-! ## 2. Images -/

/-- The set of the images of all values. -/
def map (s : ValueSet) (f : Value → Value) : ValueSet := ofList (s.members.map f)

/-- The union of the images of the listed values, as far as it is not unknown. -/
def flatMapFrom (f : Value → ValueSet) : List Value → ValueSet → ValueSet
  | [], acc => acc
  | v :: r, acc =>
    let acc := acc.merge (f v)
    if acc.isUnknown then acc else flatMapFrom f r acc

/-- The union of the images of all values. -/
def flatMap (s : ValueSet) (f : Value → ValueSet) : ValueSet := flatMapFrom f s.members empty

/-- `flatMapFrom` for images that are computed with effects; those after an unknown result
    are not computed. -/
def flatMapFromM {m : Type → Type} [Monad m] (f : Value → m ValueSet) :
    List Value → ValueSet → m ValueSet
  | [], acc => pure acc
  | v :: r, acc => do
    let acc := acc.merge (← f v)
    if acc.isUnknown then pure acc else flatMapFromM f r acc

/-- `flatMap` for images that are computed with effects. -/
def flatMapM {m : Type → Type} [Monad m] (s : ValueSet) (f : Value → m ValueSet) : m ValueSet :=
  flatMapFromM f s.members empty

/-- The union of the images of all values, computed with effects; every image is computed. -/
def collectM {m : Type → Type} [Monad m] (s : ValueSet) (f : Value → m ValueSet) : m ValueSet :=
  s.members.foldlM (fun acc v => do return acc.merge (← f v)) empty

/-! ## 3. Sets as states -/

/-- Sets are met by union; the empty set is the top. -/
instance : MeetLattice ValueSet where
  top := empty
  meet := merge
  isTop := isEmpty

/-! ## 4. Text -/

/-- One value as itself, any other number of values in braces. -/
def render (s : ValueSet) : String :=
  match s.single? with
  | some v => v.render
  | none => "\x7b" ++ Text.joined ", " (s.members.map Value.render) ++ "\x7d"

/-! ## 5. Small facts -/

/-- A set with the unknown value keeps out everything. -/
theorem insert_of_isUnknown {s : ValueSet} (h : s.isUnknown = true) (v : Value) :
    s.insert v = s := by
  simp [insert, h]

/-- The unknown value leaves only itself. -/
theorem insert_unknown {s : ValueSet} (h : s.isUnknown = false) : s.insert .unknown = unknown := by
  simp [insert, h, Value.isUnknown]

/-- The empty set is neutral on the right. -/
theorem merge_empty (s : ValueSet) : s.merge empty = s := by
  simp [merge, empty, isEmpty]

/-- The members of a set after an insertion that the unknown value does not prevent. -/
theorem mem_insert {s : ValueSet} {v w : Value} (hs : s.isUnknown = false)
    (hv : v.isUnknown = false) : w ∈ s.insert v ↔ w = v ∨ w ∈ s := by
  simp only [insert, hs, hv, Bool.false_eq_true, if_false]
  exact mem_insertSorted

end SetOf

end ReflectionFlow

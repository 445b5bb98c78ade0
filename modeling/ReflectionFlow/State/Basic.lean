/-
  File:      ReflectionFlow/State/Basic.lean
  Subject:   What is known at one point of a method: variables and evaluation stack.

  Variables are a total map with a default; entries equal to the default are not stored, so
  equal maps are equal as data.  The stack is either not there yet, because no path has
  reached the point, or a list of slots.  Stacks of different depths meet only in invalid
  code; they are then aligned at the top, and a slot that one side lacks is unknown.

  Main definitions:
  * `Variables`, `Variables.get`, `Variables.set`, `Variables.meet`
  * `Stack`, `Stack.meet`
  * `State`, `State.meet`
  * `State.versions`, `State.replaceArray`    arrays held anywhere in the state
-/
import ReflectionFlow.Value.Array

namespace ReflectionFlow

/-! ## 1. Variables -/

/-- The name of a variable. -/
inductive VarKey where
  /-- An argument, numbered as in the code. -/
  | arg (n : UInt16)
  | loc (n : UInt16)
  deriving DecidableEq, Repr

/-- Arguments precede local variables. -/
instance : Ranked VarKey where
  rank
    | .arg n => 0 :: Ranked.rank n
    | .loc n => 1 :: Ranked.rank n
  rank_cancel {a b s t} h := by
    cases a <;> cases b <;>
      simp only [List.cons_append, List.cons.injEq, true_and] at h <;>
      try exact absurd h.1 (by decide)
    all_goals exact (Ranked.rank_cancel h).imp (congrArg _) id

/-- The text of a variable. -/
def VarKey.render : VarKey → String
  | .arg n => "A_" ++ toString n.toNat
  | .loc n => "V_" ++ toString n.toNat

/-- A total map from variables to value sets. -/
structure Variables where
  default : ValueSet
  entries : Assoc VarKey ValueSet
  deriving DecidableEq, Repr

namespace Variables

/-- The map that sends every variable to the default. -/
def ofDefault (default : ValueSet) : Variables := ⟨default, []⟩

/-- The map that knows nothing. -/
def unknown : Variables := ofDefault .unknown

/-- The map before anything has arrived. -/
def top : Variables := ofDefault .empty

/-- The values of a variable. -/
def get (m : Variables) (k : VarKey) : ValueSet := (m.entries.get? k).getD m.default

/-- Sets a variable; an entry equal to the default is dropped. -/
def set (m : Variables) (k : VarKey) (s : ValueSet) : Variables :=
  { m with entries := if s = m.default then m.entries.erase k else m.entries.insert k s }

/-- Rewrites the stored entries; those that the function leaves alone stay. -/
def update (m : Variables) (f : ValueSet → Option ValueSet) : Variables :=
  m.entries.foldl (fun acc e => match f e.2 with
    | some s => acc.set e.1 s
    | none => acc) m

/-- Meets two maps variable by variable. -/
def meet (m n : Variables) : Variables :=
  if m = n then m
  else
    ((m.entries ++ n.entries).map Prod.fst).foldl
      (fun acc k => acc.set k ((m.get k).merge (n.get k)))
      (ofDefault (m.default.merge n.default))

/-- Has nothing arrived yet? -/
def isTop (m : Variables) : Bool := m.default.isEmpty && m.entries.isEmpty

end Variables

/-! ## 2. Stacks -/

/-- The evaluation stack, or none if no path has reached the point.  The head of the list is
    the top of the stack. -/
inductive Stack where
  | top
  | slots (fromTop : List ValueSet)
  deriving DecidableEq, Repr

namespace Stack

/-- The stack without slots. -/
def empty : Stack := .slots []

/-- The slots, the topmost first. -/
def fromTop : Stack → List ValueSet
  | .top => []
  | .slots l => l

/-- Number of slots. -/
def depth (s : Stack) : Nat := s.fromTop.length

/-- Puts a value set on top. -/
def push (s : Stack) (v : ValueSet) : Stack := .slots (v :: s.fromTop)

/-- Takes the topmost value set, if there is one. -/
def pop (s : Stack) : Option ValueSet × Stack :=
  match s with
  | .slots (v :: r) => (some v, .slots r)
  | s => (none, s)

/-- The topmost value set. -/
def peek? (s : Stack) : Option ValueSet := s.fromTop.head?

/-- Meets two lists of slots from the top; a missing slot is unknown. -/
def meetSlots : List ValueSet → List ValueSet → List ValueSet
  | [], q => q.map SetOf.unknown.merge
  | r, [] => r.map (·.merge .unknown)
  | a :: r, b :: q => a.merge b :: meetSlots r q

/-- Meets two stacks. -/
def meet : Stack → Stack → Stack
  | .top, s => s
  | s, .top => s
  | .slots a, .slots b => .slots (meetSlots a b)

/-- Has no path reached the point? -/
def isTop : Stack → Bool
  | .top => true
  | .slots _ => false

/-- Rewrites the slots; those that the function leaves alone stay. -/
def update (s : Stack) (f : ValueSet → Option ValueSet) : Stack :=
  match s with
  | .top => .top
  | .slots l => .slots (l.map fun v => (f v).getD v)

end Stack

/-! ## 3. States -/

/-- Variables and stack at one point of a method. -/
structure State where
  vars : Variables
  stack : Stack
  deriving DecidableEq, Repr

namespace State

/-- A reached point of which nothing is known. -/
def unknown : State := ⟨.unknown, .empty⟩

/-- A point that no path has reached. -/
def top : State := ⟨.top, .top⟩

/-- Has no path reached the point? -/
def isTop (s : State) : Bool := s.stack.isTop && s.vars.isTop

/-- Joins what is known on two paths that meet. -/
def meet (s t : State) : State :=
  if s.isTop then t
  else if t.isTop then s
  else ⟨s.vars.meet t.vars, s.stack.meet t.stack⟩

instance : MeetLattice State where
  top := top
  meet := meet
  isTop := isTop

/-- All value sets of the state: stack slots from the bottom up, then stored variables. -/
def sets (s : State) : List ValueSet := s.stack.fromTop.reverse ++ s.vars.entries.map Prod.snd

/-- The different versions of the array of a site, in the order in which they are held. -/
def versions (s : State) (site : Site) : List ArrayValue :=
  (s.sets.flatMap SetOf.members).foldl
    (fun found v => match v with
      | .array a => if a.site = site && !found.contains a then found ++ [a] else found
      | _ => found) []

/-- Is the value one of the given arrays? -/
def isVersion (versions : List ArrayValue) : Value → Bool
  | .array a => versions.contains a
  | _ => false

/-- A set in which the given arrays are replaced by another one; none if it holds none of them. -/
def replaceIn (versions : List ArrayValue) (updated : ArrayValue) (s : ValueSet) :
    Option ValueSet :=
  if s.members.any (isVersion versions) then
    some ((SetOf.ofList (s.members.filter fun v => !isVersion versions v)).insert (.array updated))
  else none

/-- Replaces the given arrays by another one wherever they are held. -/
def replaceArray (s : State) (versions : List ArrayValue) (updated : ArrayValue) : State :=
  ⟨s.vars.update (replaceIn versions updated), s.stack.update (replaceIn versions updated)⟩

end State

end ReflectionFlow

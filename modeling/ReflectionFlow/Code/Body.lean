/-
  File:      ReflectionFlow/Code/Body.lean
  Subject:   Method bodies and their exception clauses.

  A body is its instructions in offset order, the types of its local variables and a table
  of exception clauses.  Each clause has one or two entry points: the start of the handler
  and, for a filter clause, the start of the filter.

  Main definitions:
  * `HandlerKind`, `Clause`, `Clause.entryPoints`
  * `Body`, `Body.indexOf?`    the instruction at an offset, by halving
-/
import ReflectionFlow.Code.Instruction
import ReflectionFlow.Metadata.TypeSig

namespace ReflectionFlow

/-! ## 1. Exception clauses -/

/-- What kind of region starts at an entry point. -/
inductive HandlerKind where
  | catchTyped
  | filter
  | filteredCatch
  | finallyClause
  | fault
  deriving DecidableEq, Repr

/-- Is the region entered with the exception object on the stack? -/
def HandlerKind.receivesException : HandlerKind → Bool
  | .catchTyped | .filter | .filteredCatch => true
  | .finallyClause | .fault => false

/-- The name of the kind. -/
def HandlerKind.name : HandlerKind → String
  | .catchTyped => "Catch"
  | .filter => "Filter"
  | .filteredCatch => "FilteredCatch"
  | .finallyClause => "Finally"
  | .fault => "Fault"

/-- One clause of the exception table. -/
structure Clause where
  /-- Bit 1 marks a filter, bit 2 a finally and bit 4 a fault clause; none of them a typed catch. -/
  flags : UInt16
  tryOffset : Nat
  tryLength : Nat
  handlerOffset : Nat
  handlerLength : Nat
  catchType : Option Token
  filterOffset : Option Nat
  deriving DecidableEq, Repr

namespace Clause

/-- Is the clause flagged as a filter? -/
def isFilter (c : Clause) : Bool := c.flags &&& 1 != 0

/-- The kind of the handler; a filter flag wins over finally, and finally over fault. -/
def kind (c : Clause) : HandlerKind :=
  if c.isFilter then .filteredCatch
  else if c.flags &&& 2 != 0 then .finallyClause
  else if c.flags &&& 4 != 0 then .fault
  else .catchTyped

/-- Where control can enter because of the clause: the handler, then the filter. -/
def entryPoints (c : Clause) : List (Nat × HandlerKind) :=
  (c.handlerOffset, c.kind) ::
    match c.filterOffset with
    | some offset => if c.isFilter then [(offset, .filter)] else []
    | none => []

end Clause

/-! ## 2. Bodies -/

/-- A decoded method body. -/
structure Body where
  maxStack : Nat
  initLocals : Bool
  locals : List TypeSig
  instructions : List Instruction
  clauses : List Clause
  deriving DecidableEq, Repr

namespace Body

/-- Total size of the code in bytes. -/
def codeSize (b : Body) : Nat :=
  match b.instructions.getLast? with
  | some i => i.next
  | none => 0

/-- Instruction offsets ascend strictly. -/
def Increasing (b : Body) : Prop :=
  b.instructions.Pairwise fun i j => i.offset < j.offset

/-- Halves the window `[base, base + size)` until one place is left: the last one of the
    window whose offset is not beyond the wanted one, when the offsets ascend. -/
def settle (offsets : Array Nat) (wanted : Nat) (base size : Nat) : Nat :=
  if size ≤ 1 then base
  else
    let half := size / 2
    let middle := base + half
    settle offsets wanted (if wanted < offsets[middle]?.getD 0 then base else middle) (size - half)
termination_by size
decreasing_by omega

/-- The index of the instruction at an offset, found by halving. -/
def indexOf? (b : Body) (offset : Nat) : Option Nat :=
  let offsets := (b.instructions.map Instruction.offset).toArray
  let place := settle offsets offset 0 offsets.size
  if offsets[place]? = some offset then some place else none

end Body

end ReflectionFlow

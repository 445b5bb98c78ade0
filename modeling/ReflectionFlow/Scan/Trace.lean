/-
  File:      ReflectionFlow/Scan/Trace.lean
  Subject:   Observations, and the trace that interpreting instructions leaves.

  What has to be marked or reported is not acted on while a method is iterated.  It is
  observed, and the observations that belong to the final states are acted on afterwards.

  Main definitions:
  * `Observation`                    what an instruction asks for
  * `Trace`                          state, observations and returned values so far
  * `Trace.pop`, `Trace.popMany`     operands; a missing one is observed and unknown
-/
import ReflectionFlow.Reflection.Finding
import ReflectionFlow.Scan.Log
import ReflectionFlow.State.Basic

namespace ReflectionFlow

/-- What an instruction asks for. -/
inductive Observation where
  /-- A call with its arguments, an instance first. -/
  | call (callee : MethodRef) (arguments : List ValueSet) (intrinsic : Option Intrinsic)
      (constructs : Bool)
  /-- Values that flow into an annotated place. -/
  | assignment (values : ValueSet) (required : Categories) (place : Place)
  /-- A type named for a value. -/
  | cast (values : ValueSet) (target : Token)
  /-- An instruction that makes no sense. -/
  | fault (f : CodeFault)
  deriving DecidableEq, Repr

/-- The state after some instructions, with what was observed and returned on the way. -/
structure Trace where
  state : State
  /-- Observations with the offsets of their instructions, in order. -/
  observed : List (Nat × Observation) := []
  /-- Returned values with the offsets of their instructions, in order. -/
  returned : List (Nat × ValueSet) := []
  deriving DecidableEq, Repr

namespace Trace

/-! ## 1. Observing -/

/-- Adds an observation of the instruction at an offset. -/
def observe (t : Trace) (offset : Nat) (o : Observation) : Trace :=
  { t with observed := t.observed ++ [(offset, o)] }

/-- Observes values that flow into a place, if the place needs anything. -/
def observeFlow (t : Trace) (offset : Nat) (values : ValueSet) (required : Categories)
    (place : Place) : Trace :=
  if required.isEmpty then t else t.observe offset (.assignment values required place)

/-- Adds values that the instruction at an offset returns. -/
def yielding (t : Trace) (offset : Nat) (values : ValueSet) : Trace :=
  { t with returned := t.returned ++ [(offset, values)] }

/-! ## 2. The stack -/

/-- Leaves a value set on the stack. -/
def push (t : Trace) (v : ValueSet) : Trace := { t with state.stack := t.state.stack.push v }

/-- Empties the stack. -/
def clear (t : Trace) : Trace := { t with state.stack := .empty }

/-- Takes an operand; a missing one is unknown. -/
def pop (t : Trace) (offset : Nat) : ValueSet × Trace :=
  match t.state.stack.pop with
  | (some v, rest) => (v, { t with state.stack := rest })
  | (none, _) => (.unknown, t.observe offset (.fault .stackUnderflow))

/-- Takes a number of operands; the one taken last stands first. -/
def popMany (t : Trace) (offset : Nat) : Nat → List ValueSet × Trace
  | 0 => ([], t)
  | count + 1 =>
    let (v, t) := t.pop offset
    let (rest, t) := t.popMany offset count
    (rest ++ [v], t)

/-- Drops a number of operands. -/
def drop (t : Trace) (offset count : Nat) : Trace := (t.popMany offset count).2

/-! ## 3. Variables -/

/-- The values of a variable. -/
def get (t : Trace) (k : VarKey) : ValueSet := t.state.vars.get k

/-- Sets a variable. -/
def set (t : Trace) (k : VarKey) (v : ValueSet) : Trace :=
  { t with state.vars := t.state.vars.set k v }

/-- Sets a variable, or adds to it if the store may not happen. -/
def assign (t : Trace) (k : VarKey) (v : ValueSet) (certain : Bool) : Trace :=
  t.set k (if certain then v else (t.get k).merge v)

end Trace

end ReflectionFlow

/-
  File:      ReflectionFlow/Scan/Step.lean
  Subject:   Instructions that act on variables, stack, fields and arrays alone.

  These steps are functions of the state: they ask the session nothing.  Calls and type
  tokens are the only other instructions.
-/
import ReflectionFlow.Code.Role
import ReflectionFlow.Scan.Scanner

namespace ReflectionFlow

namespace Scanner

/-! ## 1. Results of loads -/

/-- A value set for a value that may be missing. -/
def orUnknown (v : Option Value) : ValueSet := .single (v.getD .unknown)

/-- The constant text of an instruction. -/
def textOf? (i : Instruction) : Option Value :=
  match i.operand with
  | .string s => some (.string s)
  | _ => none

/-- The length of the arrays of a set. -/
def lengthOf (array : ValueSet) : ValueSet :=
  array.flatMap fun
    | .array a => orUnknown (a.constantSize?.map .int)
    | _ => .unknown

/-- The address of an element of the arrays of a set. -/
def elementAddress (array : ValueSet) (index : Option Int32) : ValueSet :=
  array.flatMap fun
    | .array a => .single (.address (.element a.site index))
    | _ => .unknown

/-- What is read from the arrays of a set at an index. -/
def elementOf (array : ValueSet) (index : Option Int32) : ValueSet :=
  array.flatMap fun v =>
    match v, index with
    | .array a, some n => a.element n
    | _, _ => .unknown

/-! ## 2. Steps -/

/-- Leaves what an argument holds. -/
def stepLoadArgument (sc : Scanner) (i : Instruction) (t : Trace) : Trace :=
  match i.argumentIndex? with
  | some n => t.push (sc.loadArgument t.state n)
  | none => (t.observe i.offset (.fault .missingArgument)).push .unknown

/-- Stores the topmost operand into an argument. -/
def stepStoreArgument (sc : Scanner) (i : Instruction) (t : Trace) : Trace :=
  let (v, t) := sc.popValue t i.offset
  match i.argumentIndex? with
  | some n => sc.storeArgument i.offset n v true t
  | none => t.observe i.offset (.fault .missingArgument)

/-- Leaves what a local variable holds. -/
def stepLoadLocal (i : Instruction) (t : Trace) : Trace :=
  t.push (match i.localIndex? with
    | some n => t.get (.loc n)
    | none => .unknown)

/-- Stores the topmost operand into a local variable. -/
def stepStoreLocal (sc : Scanner) (i : Instruction) (t : Trace) : Trace :=
  let (v, t) := sc.popValue t i.offset
  match i.localIndex? with
  | some n => t.set (.loc n) v
  | none => t.observe i.offset (.fault .missingLocal)

/-- Returns from the method; the stack must be empty afterwards. -/
def stepReturn (sc : Scanner) (i : Instruction) (t : Trace) : Trace :=
  let t :=
    if sc.method.sig.ret.isVoid then t
    else
      let (v, t) := sc.popValue t i.offset
      (t.observeFlow i.offset v sc.needs.ret (.ret sc.method.name)).yielding i.offset v
  (if t.state.stack.fromTop.isEmpty then t else t.observe i.offset (.fault .stackNotEmpty)).clear

/-- Stores the topmost operand through the address below it. -/
def stepStoreIndirect (sc : Scanner) (block : Nat) (i : Instruction) (t : Trace) : Trace :=
  let (v, t) := sc.popValue t i.offset
  let (address, t) := t.pop i.offset
  sc.storeThrough block i.offset address v t

/-- Names a type for the topmost operand. -/
def stepCast (sc : Scanner) (i : Instruction) (t : Trace) : Trace :=
  let (v, t) := sc.popValue t i.offset
  (match i.token? with
    | some target => t.observe i.offset (.cast v target)
    | none => t).push v

/-- Reads a field. -/
def stepLoadField (sc : Scanner) (i : Instruction) (t : Trace) : Trace :=
  t.push (match i.token? with
    | some f => sc.loadField f
    | none => .unknown)

/-- Stores the topmost operand into a field. -/
def stepStoreField (sc : Scanner) (i : Instruction) (ofInstance : Bool) (t : Trace) : Trace :=
  let (v, t) := sc.popValue t i.offset
  let t := t.drop i.offset ofInstance.toNat
  match i.token? with
  | some f => sc.storeField i.offset f v t
  | none => t

/-- Takes an array and an index. -/
def popElement (sc : Scanner) (i : Instruction) (t : Trace) : ValueSet × ValueSet × Trace :=
  let (index, t) := sc.popValue t i.offset
  let (array, t) := sc.popValue t i.offset
  (array, index, t)

/-- Stores the topmost operand into an array. -/
def stepStoreElement (sc : Scanner) (block : Nat) (i : Instruction) (t : Trace) : Trace :=
  let (v, t) := sc.popValue t i.offset
  let (array, index, t) := sc.popElement i t
  sc.storeElement block array index v t

/-- Interprets an instruction that is neither a call nor loads a token. -/
def stepLocal (sc : Scanner) (block : Nat) (i : Instruction) (t : Trace) : Role → Trace
  | .consume pops leavesResult =>
    let t := t.drop i.offset pops
    if leavesResult then t.push .unknown else t
  | .unwind pops => (t.drop i.offset pops).clear
  | .duplicate => let (v, t) := t.pop i.offset; (t.push v).push v
  | .loadArgument => sc.stepLoadArgument i t
  | .argumentAddress => t.push (orUnknown (i.argumentIndex?.map sc.argumentAddress))
  | .storeArgument => sc.stepStoreArgument i t
  | .loadLocal => stepLoadLocal i t
  | .localAddress => t.push (orUnknown (i.localIndex?.map fun n => .address (.loc n)))
  | .storeLocal => sc.stepStoreLocal i t
  | .loadNull => t.push (.single .null)
  | .loadInt => t.push (orUnknown (i.constant?.map .int))
  | .loadString => t.push (orUnknown (textOf? i))
  | .ret => sc.stepReturn i t
  | .loadIndirect =>
    let (address, t) := t.pop i.offset
    t.push (sc.readThrough t.state address)
  | .storeIndirect => sc.stepStoreIndirect block i t
  | .clearIndirect =>
    let (address, t) := t.pop i.offset
    sc.storeThrough block i.offset address .unknown t
  | .box => let (v, t) := sc.popValue t i.offset; t.push v
  | .cast => sc.stepCast i t
  | .loadField ofInstance => sc.stepLoadField i (t.drop i.offset ofInstance.toNat)
  | .fieldAddress ofInstance =>
    (t.drop i.offset ofInstance.toNat).push
      (orUnknown (i.token?.map fun f => .address (.field f)))
  | .storeField ofInstance => sc.stepStoreField i ofInstance t
  | .newArray =>
    let (size, t) := sc.popValue t i.offset
    t.push (.single (.array (.fresh ⟨sc.method.token, i.offset⟩ size)))
  | .arrayLength => let (array, t) := sc.popValue t i.offset; t.push (lengthOf array)
  | .elementAddress =>
    let (array, index, t) := sc.popElement i t
    t.push (elementAddress array index.constant?)
  | .loadElement =>
    let (array, index, t) := sc.popElement i t
    t.push (elementOf array index.constant?)
  | .storeElement => sc.stepStoreElement block i t
  | .loadToken | .call | .construct | .callIndirect => t

end Scanner

end ReflectionFlow

/-
  File:      ReflectionFlow/Code/Assembler.lean
  Subject:   Method bodies from statements with named labels.

  A program for the assembler is a list of statements.  Each emitted instruction gets the
  next free offset; labels stand for the position at which they are placed and may be used
  before that.  Faults do not stop the assembler: they are collected, and the first one is
  the answer when the body is asked for.

  Main definitions:
  * `Statement`                   what can be written
  * `Assembler`, `Assembler.run`  the state after some statements
  * `Assembler.body`, `assemble`  the finished body or the first fault
  * `AssemblyFault.message`       the text of a fault
-/
import ReflectionFlow.Code.Body

namespace ReflectionFlow

/-! ## 1. Statements -/

/-- An exception clause whose bounds are labels; an end label stands after the region. -/
structure LabelledClause where
  flags : UInt16
  tryStart : String
  tryEnd : String
  handlerStart : String
  handlerEnd : String
  catchType : Option Token
  filterStart : Option String
  deriving DecidableEq, Repr

/-- One statement of an assembler program. -/
inductive Statement where
  /-- Emits an opcode with an operand. -/
  | emit (op : Opcode) (operand : Operand)
  /-- Emits a jump to a label. -/
  | branch (op : Opcode) (label : String)
  /-- Emits a jump table over labels. -/
  | switch (labels : List String)
  /-- Places a label at the current position. -/
  | label (name : String)
  /-- Adds an exception clause. -/
  | clause (c : LabelledClause)
  /-- Declares a local variable. -/
  | declare (sig : TypeSig)
  /-- Sets the declared depth of the stack. -/
  | maxStack (n : Nat)
  deriving DecidableEq, Repr

/-- A constant that fits into a signed byte. -/
def isByteSized (n : Int32) : Bool := -128 ≤ n.toInt && n.toInt ≤ 127

namespace Statement

/-- Emits an opcode without an operand. -/
def plain (op : Opcode) : Statement := .emit op .empty

/-- Emits an opcode with a token. -/
def token (op : Opcode) (t : Token) : Statement := .emit op (.token t)

/-- Pushes an integer constant in the shortest form. -/
def constant (n : Int32) : Statement :=
  if n = -1 then plain .ldcI4M1
  else if n = 0 then plain .ldcI40
  else if n = 1 then plain .ldcI41
  else if n = 2 then plain .ldcI42
  else if n = 3 then plain .ldcI43
  else if n = 4 then plain .ldcI44
  else if n = 5 then plain .ldcI45
  else if n = 6 then plain .ldcI46
  else if n = 7 then plain .ldcI47
  else if n = 8 then plain .ldcI48
  else if isByteSized n then .emit .ldcI4S (.int32 n)
  else .emit .ldcI4 (.int32 n)

/-- Pushes a text. -/
def text (s : String) : Statement := .emit .ldstr (.string s)

/-- Pushes an argument in the shortest form. -/
def loadArgument (n : UInt16) : Statement :=
  if n = 0 then plain .ldarg0
  else if n = 1 then plain .ldarg1
  else if n = 2 then plain .ldarg2
  else if n = 3 then plain .ldarg3
  else if n ≤ 0xFF then .emit .ldargS (.arg n)
  else .emit .ldarg (.arg n)

/-- Pushes a local variable in the shortest form. -/
def loadLocal (n : UInt16) : Statement :=
  if n = 0 then plain .ldloc0
  else if n = 1 then plain .ldloc1
  else if n = 2 then plain .ldloc2
  else if n = 3 then plain .ldloc3
  else if n ≤ 0xFF then .emit .ldlocS (.loc n)
  else .emit .ldloc (.loc n)

/-- Stores into a local variable in the shortest form. -/
def storeLocal (n : UInt16) : Statement :=
  if n = 0 then plain .stloc0
  else if n = 1 then plain .stloc1
  else if n = 2 then plain .stloc2
  else if n = 3 then plain .stloc3
  else if n ≤ 0xFF then .emit .stlocS (.loc n)
  else .emit .stloc (.loc n)

/-- Stores into an argument. -/
def storeArgument (n : UInt16) : Statement :=
  if n ≤ 0xFF then .emit .stargS (.arg n) else .emit .starg (.arg n)

/-- Pushes the address of an argument. -/
def argumentAddress (n : UInt16) : Statement :=
  if n ≤ 0xFF then .emit .ldargaS (.arg n) else .emit .ldarga (.arg n)

/-- Pushes the address of a local variable. -/
def localAddress (n : UInt16) : Statement :=
  if n ≤ 0xFF then .emit .ldlocaS (.loc n) else .emit .ldloca (.loc n)

end Statement

/-! ## 2. Faults -/

/-- Why a program cannot be assembled. -/
inductive AssemblyFault where
  /-- The operand is not of the kind the opcode takes. -/
  | operandMismatch (operand : Operand) (op : Opcode) (position : Nat)
  /-- A jump to a label with an opcode that does not jump. -/
  | notABranch (op : Opcode)
  | labelTwice (name : String)
  | labelMissing (name : String)
  deriving DecidableEq, Repr

/-- The text of a fault. -/
def AssemblyFault.message : AssemblyFault → String
  | .operandMismatch operand op position =>
    "operand " ++ operand.renderTagged ++ " does not fit " ++ op.mnemonic ++ " at " ++
      Text.offset position
  | .notABranch op => op.mnemonic ++ " is not a branch opcode"
  | .labelTwice name => "label '" ++ name ++ "' defined twice"
  | .labelMissing name => "label '" ++ name ++ "' is never defined"

/-- Can an operand follow an opcode of this kind? -/
def OperandKind.fits : OperandKind → Operand → Bool
  | .empty, .empty => true
  | .shortVar, .loc _ | .shortVar, .arg _ | .var, .loc _ | .var, .arg _ => true
  | .shortInt, .int32 n => isByteSized n
  | .int32, .int32 _ => true
  | .int64, .int64 _ => true
  | .shortFloat, .float _ | .float, .float _ => true
  | .shortBranch, .target _ | .branch, .target _ => true
  | .switch, .switch _ => true
  | .token, .token _ => true
  | .string, .string _ => true
  | _, _ => false

/-! ## 3. Assembling -/

/-- An operand that may still wait for labels. -/
inductive PendingOperand where
  | ready (operand : Operand)
  | label (name : String)
  | labels (names : List String)
  deriving DecidableEq, Repr

/-- An instruction whose operand may still wait for labels. -/
structure PendingInstruction where
  offset : Nat
  opcode : Opcode
  operand : PendingOperand
  deriving DecidableEq, Repr

/-- What the assembler knows after some statements. -/
structure Assembler where
  instructions : List PendingInstruction := []
  /-- Placed labels with their positions, the latest first. -/
  labels : List (String × Nat) := []
  clauses : List LabelledClause := []
  locals : List TypeSig := []
  position : Nat := 0
  maxStack : Nat := 8
  faults : List AssemblyFault := []
  deriving DecidableEq, Repr

namespace Assembler

/-- Puts an instruction at the current position.  Only a jump table over labels has room
    reserved for its entries. -/
def push (a : Assembler) (op : Opcode) (operand : PendingOperand) : Assembler :=
  let operandSize := match operand with
    | .labels names => 4 + names.length * 4
    | _ => op.operandKind.size
  { a with
    instructions := a.instructions ++ [⟨a.position, op, operand⟩]
    position := wrapOffset (a.position + (op.size + operandSize)) }

/-- Notes a fault when a condition fails. -/
def check (a : Assembler) (ok : Bool) (fault : AssemblyFault) : Assembler :=
  if ok then a else { a with faults := a.faults ++ [fault] }

/-- The effect of one statement. -/
def step (a : Assembler) : Statement → Assembler
  | .emit op operand =>
    (a.check (op.operandKind.fits operand) (.operandMismatch operand op a.position)).push op
      (.ready operand)
  | .branch op label => (a.check op.isBranch (.notABranch op)).push op (.label label)
  | .switch labels => a.push .switch (.labels labels)
  | .label name =>
    let a' := a.check (a.labels.lookup name).isNone (.labelTwice name)
    { a' with labels := (name, a.position) :: a.labels }
  | .clause c => { a with clauses := a.clauses ++ [c] }
  | .declare sig => { a with locals := a.locals ++ [sig] }
  | .maxStack n => { a with maxStack := n }

/-- The effect of a program. -/
def run (program : List Statement) : Assembler := program.foldl step {}

/-- The position of a label. -/
def resolve (a : Assembler) (label : String) : Except AssemblyFault Nat :=
  match a.labels.lookup label with
  | some position => .ok position
  | none => .error (.labelMissing label)

/-- An operand with its labels resolved. -/
def finishOperand (a : Assembler) : PendingOperand → Except AssemblyFault Operand
  | .ready operand => .ok operand
  | .label name => return .target (← a.resolve name)
  | .labels names => return .switch (← names.mapM a.resolve)

/-- An instruction with its labels resolved. -/
def finishInstruction (a : Assembler) (p : PendingInstruction) :
    Except AssemblyFault Instruction :=
  return ⟨p.offset, p.opcode, ← a.finishOperand p.operand⟩

/-- A clause with its labels resolved; a region that ends before it starts is empty. -/
def finishClause (a : Assembler) (c : LabelledClause) : Except AssemblyFault Clause := do
  let tryOffset ← a.resolve c.tryStart
  let handlerOffset ← a.resolve c.handlerStart
  let filterOffset ← c.filterStart.mapM a.resolve
  let tryEnd ← a.resolve c.tryEnd
  let handlerEnd ← a.resolve c.handlerEnd
  return ⟨c.flags, tryOffset, tryEnd - tryOffset, handlerOffset, handlerEnd - handlerOffset,
    c.catchType, filterOffset⟩

/-- The finished body, or the first fault: first those noted on the way, then labels that
    were never placed, in the order of instructions and then of clauses. -/
def body (a : Assembler) : Except AssemblyFault Body :=
  match a.faults with
  | fault :: _ => .error fault
  | [] => do
    let instructions ← a.instructions.mapM a.finishInstruction
    let clauses ← a.clauses.mapM a.finishClause
    return ⟨a.maxStack, true, a.locals, instructions, clauses⟩

end Assembler

/-- Assembles a whole program. -/
def assemble (program : List Statement) : Except AssemblyFault Body := (Assembler.run program).body

end ReflectionFlow

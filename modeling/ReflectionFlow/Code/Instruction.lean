/-
  File:      ReflectionFlow/Code/Instruction.lean
  Subject:   Decoded instructions and their operands.

  Jump targets are absolute offsets in the method body.  Short forms such as `ldloc.2` and
  `ldc.i4.3` keep their implicit operand; `localIndex?`, `argumentIndex?` and `constant?`
  read short and long forms alike.
-/
import ReflectionFlow.Code.Opcode
import ReflectionFlow.Metadata.Token
import ReflectionFlow.Text.Decimal
import ReflectionFlow.Text.Quoted

namespace ReflectionFlow

/-! ## 1. Operands -/

/-- The inline operand of an instruction. -/
inductive Operand where
  | empty
  | int32 (n : Int32)
  | int64 (n : Int64)
  /-- A floating-point constant by its 64 bits. -/
  | float (bits : UInt64)
  /-- The index of a local variable. -/
  | loc (index : UInt16)
  /-- The index of an argument; the instance of an instance method is argument zero. -/
  | arg (index : UInt16)
  /-- The offset of a jump target. -/
  | target (offset : Nat)
  /-- The offsets of a jump table. -/
  | switch (offsets : List Nat)
  | token (t : Token)
  | string (s : String)
  deriving DecidableEq, Repr

namespace Operand

/-- The operand as a listing shows it. -/
def render : Operand → String
  | .empty => ""
  | .int32 n => toString n.toInt
  | .int64 n => toString n.toInt
  | .float bits => Text.positional bits
  | .loc n => "V_" ++ toString n.toNat
  | .arg n => "A_" ++ toString n.toNat
  | .target t => Text.offset t
  | .switch ts => "(" ++ Text.joined ", " (ts.map Text.offset) ++ ")"
  | .token t => t.render
  | .string s => Text.quoted s

/-- The operand as a complaint about it shows it: the kind, then the value in brackets. -/
def renderTagged : Operand → String
  | .empty => "None"
  | .int32 n => "Int32(" ++ toString n.toInt ++ ")"
  | .int64 n => "Int64(" ++ toString n.toInt ++ ")"
  | .float bits => "Float64(" ++ Text.general bits ++ ")"
  | .loc n => "Local(" ++ toString n.toNat ++ ")"
  | .arg n => "Argument(" ++ toString n.toNat ++ ")"
  | .target t => "Target(" ++ toString t ++ ")"
  | .switch ts => "Switch(" ++ Text.numberList ts ++ ")"
  | .token t => "Token(" ++ t.renderTagged ++ ")"
  | .string s => "String(" ++ Text.quoted s ++ ")"

end Operand

/-! ## 2. Instructions -/

/-- An instruction at its place in the method body. -/
structure Instruction where
  offset : Nat
  opcode : Opcode
  operand : Operand
  deriving DecidableEq, Repr

/-- Code offsets are words of 32 bits. -/
def wrapOffset (n : Nat) : Nat := n % UInt32.size

namespace Instruction

/-- Encoded size in bytes; a jump table takes four bytes for its count and for each entry. -/
def size (i : Instruction) : Nat :=
  i.opcode.size + match i.operand with
    | .switch targets => 4 + targets.length * 4
    | _ => i.opcode.operandKind.size

/-- The offset right after the instruction. -/
def next (i : Instruction) : Nat := wrapOffset (i.offset + i.size)

/-- Every instruction takes at least one byte. -/
theorem size_pos (i : Instruction) : 0 < i.size := by
  have : 0 < i.opcode.size := by unfold Opcode.size; split <;> decide
  unfold size
  omega

/-- Explicit jump targets in operand order. -/
def targets (i : Instruction) : List Nat :=
  match i.operand with
  | .target t => [t]
  | .switch ts => ts
  | _ => []

/-- The local variable an instruction reads, writes or takes the address of. -/
def localIndex? (i : Instruction) : Option UInt16 :=
  match i.opcode with
  | .ldloc0 | .stloc0 => some 0
  | .ldloc1 | .stloc1 => some 1
  | .ldloc2 | .stloc2 => some 2
  | .ldloc3 | .stloc3 => some 3
  | _ => match i.operand with
    | .loc n => some n
    | _ => none

/-- The argument an instruction reads, writes or takes the address of. -/
def argumentIndex? (i : Instruction) : Option UInt16 :=
  match i.opcode with
  | .ldarg0 => some 0
  | .ldarg1 => some 1
  | .ldarg2 => some 2
  | .ldarg3 => some 3
  | _ => match i.operand with
    | .arg n => some n
    | _ => none

/-- The integer constant an instruction pushes. -/
def constant? (i : Instruction) : Option Int32 :=
  match i.opcode with
  | .ldcI4M1 => some (-1)
  | .ldcI40 => some 0
  | .ldcI41 => some 1
  | .ldcI42 => some 2
  | .ldcI43 => some 3
  | .ldcI44 => some 4
  | .ldcI45 => some 5
  | .ldcI46 => some 6
  | .ldcI47 => some 7
  | .ldcI48 => some 8
  | .ldcI4S | .ldcI4 => match i.operand with
    | .int32 n => some n
    | _ => none
  | _ => none

/-- The token operand. -/
def token? (i : Instruction) : Option Token :=
  match i.operand with
  | .token t => some t
  | _ => none

/-- One line of a listing: offset, mnemonic and operand. -/
def render (i : Instruction) : String :=
  Text.offset i.offset ++ ": " ++ i.opcode.mnemonic ++
    if i.operand = .empty then "" else " " ++ i.operand.render

end Instruction

end ReflectionFlow

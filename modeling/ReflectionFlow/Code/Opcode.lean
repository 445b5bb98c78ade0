/-
  File:      ReflectionFlow/Code/Opcode.lean
  Subject:   The closed set of instruction codes.

  Each opcode has one row in a single table: its mnemonic, its encoded value, the kind of
  operand that follows it, and what it does to the flow of control.  Codes of two bytes
  have `FE` as their high byte.

  Main definitions:
  * `Opcode`                        the opcodes, in encoding order
  * `Opcode.row`                    the table
  * `Opcode.ofValue?`, `Opcode.ofMnemonic?`   the two ways to look one up
-/
import ReflectionFlow.Order.Rank

namespace ReflectionFlow

/-! ## 1. Operands and flow -/

/-- What follows an opcode in the instruction stream. -/
inductive OperandKind where
  | empty
  | shortVar
  | var
  | shortInt
  | int32
  | int64
  | shortFloat
  | float
  | shortBranch
  | branch
  | switch
  | token
  | string
  deriving DecidableEq, Repr

/-- Size of the operand in bytes; of a jump table only the count. -/
def OperandKind.size : OperandKind → Nat
  | .empty => 0
  | .shortVar | .shortInt | .shortBranch => 1
  | .var => 2
  | .int32 | .shortFloat | .branch | .switch | .token | .string => 4
  | .int64 | .float => 8

/-- The name of a kind of operand. -/
def OperandKind.name : OperandKind → String
  | .empty => "None"
  | .shortVar => "ShortVar"
  | .var => "Var"
  | .shortInt => "ShortInt"
  | .int32 => "Int32"
  | .int64 => "Int64"
  | .shortFloat => "ShortFloat"
  | .float => "Float"
  | .shortBranch => "ShortBranch"
  | .branch => "Branch"
  | .switch => "Switch"
  | .token => "Token"
  | .string => "String"

/-- What an instruction does to the flow of control. -/
inductive Flow where
  /-- Continues with the next instruction. -/
  | sequential
  /-- Jumps to its target or continues. -/
  | conditionalBranch
  /-- Jumps to its target. -/
  | unconditionalBranch
  /-- Calls a method, then continues. -/
  | call
  /-- Leaves the method. -/
  | ret
  /-- Jumps to a target of its table or continues. -/
  | switch
  /-- Raises an exception. -/
  | throw
  /-- Ends a handler or a filter. -/
  | endFinally
  /-- Leaves a protected region with an empty stack. -/
  | leave
  /-- Modifies the instruction that follows. -/
  | modifier
  deriving DecidableEq, Repr

/-- Does an instruction of this flow end a basic block? -/
def Flow.endsBlock : Flow → Bool
  | .sequential | .call | .modifier => false
  | _ => true

/-- The name of a flow. -/
def Flow.name : Flow → String
  | .sequential => "Sequential"
  | .conditionalBranch => "ConditionalBranch"
  | .unconditionalBranch => "UnconditionalBranch"
  | .call => "Call"
  | .ret => "Return"
  | .switch => "Switch"
  | .throw => "Throw"
  | .endFinally => "EndFinally"
  | .leave => "Leave"
  | .modifier => "Meta"

/-! ## 2. Opcodes -/

/-- The opcodes, in the order of their table. -/
inductive Opcode where
  | nop
  | breakpoint
  | ldarg0
  | ldarg1
  | ldarg2
  | ldarg3
  | ldloc0
  | ldloc1
  | ldloc2
  | ldloc3
  | stloc0
  | stloc1
  | stloc2
  | stloc3
  | ldargS
  | ldargaS
  | stargS
  | ldlocS
  | ldlocaS
  | stlocS
  | ldnull
  | ldcI4M1
  | ldcI40
  | ldcI41
  | ldcI42
  | ldcI43
  | ldcI44
  | ldcI45
  | ldcI46
  | ldcI47
  | ldcI48
  | ldcI4S
  | ldcI4
  | ldcI8
  | ldcR4
  | ldcR8
  | dup
  | pop
  | jmp
  | call
  | calli
  | ret
  | brS
  | brfalseS
  | brtrueS
  | beqS
  | bgeS
  | bgtS
  | bleS
  | bltS
  | bneUnS
  | bgeUnS
  | bgtUnS
  | bleUnS
  | bltUnS
  | br
  | brfalse
  | brtrue
  | beq
  | bge
  | bgt
  | ble
  | blt
  | bneUn
  | bgeUn
  | bgtUn
  | bleUn
  | bltUn
  | switch
  | ldindI1
  | ldindU1
  | ldindI2
  | ldindU2
  | ldindI4
  | ldindU4
  | ldindI8
  | ldindI
  | ldindR4
  | ldindR8
  | ldindRef
  | stindRef
  | stindI1
  | stindI2
  | stindI4
  | stindI8
  | stindR4
  | stindR8
  | add
  | sub
  | mul
  | div
  | divUn
  | rem
  | remUn
  | and
  | or
  | xor
  | shl
  | shr
  | shrUn
  | neg
  | not
  | convI1
  | convI2
  | convI4
  | convI8
  | convR4
  | convR8
  | convU4
  | convU8
  | callvirt
  | cpobj
  | ldobj
  | ldstr
  | newobj
  | castclass
  | isinst
  | convRUn
  | unbox
  | throw
  | ldfld
  | ldflda
  | stfld
  | ldsfld
  | ldsflda
  | stsfld
  | stobj
  | convOvfI1Un
  | convOvfI2Un
  | convOvfI4Un
  | convOvfI8Un
  | convOvfU1Un
  | convOvfU2Un
  | convOvfU4Un
  | convOvfU8Un
  | convOvfIUn
  | convOvfUUn
  | box
  | newarr
  | ldlen
  | ldelema
  | ldelemI1
  | ldelemU1
  | ldelemI2
  | ldelemU2
  | ldelemI4
  | ldelemU4
  | ldelemI8
  | ldelemI
  | ldelemR4
  | ldelemR8
  | ldelemRef
  | stelemI
  | stelemI1
  | stelemI2
  | stelemI4
  | stelemI8
  | stelemR4
  | stelemR8
  | stelemRef
  | ldelem
  | stelem
  | unboxAny
  | convOvfI1
  | convOvfU1
  | convOvfI2
  | convOvfU2
  | convOvfI4
  | convOvfU4
  | convOvfI8
  | convOvfU8
  | refanyval
  | ckfinite
  | mkrefany
  | ldtoken
  | convU2
  | convU1
  | convI
  | convOvfI
  | convOvfU
  | addOvf
  | addOvfUn
  | mulOvf
  | mulOvfUn
  | subOvf
  | subOvfUn
  | endfinally
  | leave
  | leaveS
  | stindI
  | convU
  | arglist
  | ceq
  | cgt
  | cgtUn
  | clt
  | cltUn
  | ldftn
  | ldvirtftn
  | ldarg
  | ldarga
  | starg
  | ldloc
  | ldloca
  | stloc
  | localloc
  | endfilter
  | unaligned
  | volatile
  | tail
  | initobj
  | constrained
  | cpblk
  | initblk
  | no
  | rethrow
  | sizeof
  | refanytype
  | readonly
  deriving DecidableEq, Repr

/-- One row of the opcode table. -/
structure OpcodeRow where
  mnemonic : String
  value : Nat
  operand : OperandKind
  flow : Flow

namespace Opcode

/-- The opcode table. -/
def row : Opcode → OpcodeRow
  | .nop => ⟨"nop", 0x00, .empty, .sequential⟩
  | .breakpoint => ⟨"break", 0x01, .empty, .sequential⟩
  | .ldarg0 => ⟨"ldarg.0", 0x02, .empty, .sequential⟩
  | .ldarg1 => ⟨"ldarg.1", 0x03, .empty, .sequential⟩
  | .ldarg2 => ⟨"ldarg.2", 0x04, .empty, .sequential⟩
  | .ldarg3 => ⟨"ldarg.3", 0x05, .empty, .sequential⟩
  | .ldloc0 => ⟨"ldloc.0", 0x06, .empty, .sequential⟩
  | .ldloc1 => ⟨"ldloc.1", 0x07, .empty, .sequential⟩
  | .ldloc2 => ⟨"ldloc.2", 0x08, .empty, .sequential⟩
  | .ldloc3 => ⟨"ldloc.3", 0x09, .empty, .sequential⟩
  | .stloc0 => ⟨"stloc.0", 0x0A, .empty, .sequential⟩
  | .stloc1 => ⟨"stloc.1", 0x0B, .empty, .sequential⟩
  | .stloc2 => ⟨"stloc.2", 0x0C, .empty, .sequential⟩
  | .stloc3 => ⟨"stloc.3", 0x0D, .empty, .sequential⟩
  | .ldargS => ⟨"ldarg.s", 0x0E, .shortVar, .sequential⟩
  | .ldargaS => ⟨"ldarga.s", 0x0F, .shortVar, .sequential⟩
  | .stargS => ⟨"starg.s", 0x10, .shortVar, .sequential⟩
  | .ldlocS => ⟨"ldloc.s", 0x11, .shortVar, .sequential⟩
  | .ldlocaS => ⟨"ldloca.s", 0x12, .shortVar, .sequential⟩
  | .stlocS => ⟨"stloc.s", 0x13, .shortVar, .sequential⟩
  | .ldnull => ⟨"ldnull", 0x14, .empty, .sequential⟩
  | .ldcI4M1 => ⟨"ldc.i4.m1", 0x15, .empty, .sequential⟩
  | .ldcI40 => ⟨"ldc.i4.0", 0x16, .empty, .sequential⟩
  | .ldcI41 => ⟨"ldc.i4.1", 0x17, .empty, .sequential⟩
  | .ldcI42 => ⟨"ldc.i4.2", 0x18, .empty, .sequential⟩
  | .ldcI43 => ⟨"ldc.i4.3", 0x19, .empty, .sequential⟩
  | .ldcI44 => ⟨"ldc.i4.4", 0x1A, .empty, .sequential⟩
  | .ldcI45 => ⟨"ldc.i4.5", 0x1B, .empty, .sequential⟩
  | .ldcI46 => ⟨"ldc.i4.6", 0x1C, .empty, .sequential⟩
  | .ldcI47 => ⟨"ldc.i4.7", 0x1D, .empty, .sequential⟩
  | .ldcI48 => ⟨"ldc.i4.8", 0x1E, .empty, .sequential⟩
  | .ldcI4S => ⟨"ldc.i4.s", 0x1F, .shortInt, .sequential⟩
  | .ldcI4 => ⟨"ldc.i4", 0x20, .int32, .sequential⟩
  | .ldcI8 => ⟨"ldc.i8", 0x21, .int64, .sequential⟩
  | .ldcR4 => ⟨"ldc.r4", 0x22, .shortFloat, .sequential⟩
  | .ldcR8 => ⟨"ldc.r8", 0x23, .float, .sequential⟩
  | .dup => ⟨"dup", 0x25, .empty, .sequential⟩
  | .pop => ⟨"pop", 0x26, .empty, .sequential⟩
  | .jmp => ⟨"jmp", 0x27, .token, .ret⟩
  | .call => ⟨"call", 0x28, .token, .call⟩
  | .calli => ⟨"calli", 0x29, .token, .call⟩
  | .ret => ⟨"ret", 0x2A, .empty, .ret⟩
  | .brS => ⟨"br.s", 0x2B, .shortBranch, .unconditionalBranch⟩
  | .brfalseS => ⟨"brfalse.s", 0x2C, .shortBranch, .conditionalBranch⟩
  | .brtrueS => ⟨"brtrue.s", 0x2D, .shortBranch, .conditionalBranch⟩
  | .beqS => ⟨"beq.s", 0x2E, .shortBranch, .conditionalBranch⟩
  | .bgeS => ⟨"bge.s", 0x2F, .shortBranch, .conditionalBranch⟩
  | .bgtS => ⟨"bgt.s", 0x30, .shortBranch, .conditionalBranch⟩
  | .bleS => ⟨"ble.s", 0x31, .shortBranch, .conditionalBranch⟩
  | .bltS => ⟨"blt.s", 0x32, .shortBranch, .conditionalBranch⟩
  | .bneUnS => ⟨"bne.un.s", 0x33, .shortBranch, .conditionalBranch⟩
  | .bgeUnS => ⟨"bge.un.s", 0x34, .shortBranch, .conditionalBranch⟩
  | .bgtUnS => ⟨"bgt.un.s", 0x35, .shortBranch, .conditionalBranch⟩
  | .bleUnS => ⟨"ble.un.s", 0x36, .shortBranch, .conditionalBranch⟩
  | .bltUnS => ⟨"blt.un.s", 0x37, .shortBranch, .conditionalBranch⟩
  | .br => ⟨"br", 0x38, .branch, .unconditionalBranch⟩
  | .brfalse => ⟨"brfalse", 0x39, .branch, .conditionalBranch⟩
  | .brtrue => ⟨"brtrue", 0x3A, .branch, .conditionalBranch⟩
  | .beq => ⟨"beq", 0x3B, .branch, .conditionalBranch⟩
  | .bge => ⟨"bge", 0x3C, .branch, .conditionalBranch⟩
  | .bgt => ⟨"bgt", 0x3D, .branch, .conditionalBranch⟩
  | .ble => ⟨"ble", 0x3E, .branch, .conditionalBranch⟩
  | .blt => ⟨"blt", 0x3F, .branch, .conditionalBranch⟩
  | .bneUn => ⟨"bne.un", 0x40, .branch, .conditionalBranch⟩
  | .bgeUn => ⟨"bge.un", 0x41, .branch, .conditionalBranch⟩
  | .bgtUn => ⟨"bgt.un", 0x42, .branch, .conditionalBranch⟩
  | .bleUn => ⟨"ble.un", 0x43, .branch, .conditionalBranch⟩
  | .bltUn => ⟨"blt.un", 0x44, .branch, .conditionalBranch⟩
  | .switch => ⟨"switch", 0x45, .switch, .switch⟩
  | .ldindI1 => ⟨"ldind.i1", 0x46, .empty, .sequential⟩
  | .ldindU1 => ⟨"ldind.u1", 0x47, .empty, .sequential⟩
  | .ldindI2 => ⟨"ldind.i2", 0x48, .empty, .sequential⟩
  | .ldindU2 => ⟨"ldind.u2", 0x49, .empty, .sequential⟩
  | .ldindI4 => ⟨"ldind.i4", 0x4A, .empty, .sequential⟩
  | .ldindU4 => ⟨"ldind.u4", 0x4B, .empty, .sequential⟩
  | .ldindI8 => ⟨"ldind.i8", 0x4C, .empty, .sequential⟩
  | .ldindI => ⟨"ldind.i", 0x4D, .empty, .sequential⟩
  | .ldindR4 => ⟨"ldind.r4", 0x4E, .empty, .sequential⟩
  | .ldindR8 => ⟨"ldind.r8", 0x4F, .empty, .sequential⟩
  | .ldindRef => ⟨"ldind.ref", 0x50, .empty, .sequential⟩
  | .stindRef => ⟨"stind.ref", 0x51, .empty, .sequential⟩
  | .stindI1 => ⟨"stind.i1", 0x52, .empty, .sequential⟩
  | .stindI2 => ⟨"stind.i2", 0x53, .empty, .sequential⟩
  | .stindI4 => ⟨"stind.i4", 0x54, .empty, .sequential⟩
  | .stindI8 => ⟨"stind.i8", 0x55, .empty, .sequential⟩
  | .stindR4 => ⟨"stind.r4", 0x56, .empty, .sequential⟩
  | .stindR8 => ⟨"stind.r8", 0x57, .empty, .sequential⟩
  | .add => ⟨"add", 0x58, .empty, .sequential⟩
  | .sub => ⟨"sub", 0x59, .empty, .sequential⟩
  | .mul => ⟨"mul", 0x5A, .empty, .sequential⟩
  | .div => ⟨"div", 0x5B, .empty, .sequential⟩
  | .divUn => ⟨"div.un", 0x5C, .empty, .sequential⟩
  | .rem => ⟨"rem", 0x5D, .empty, .sequential⟩
  | .remUn => ⟨"rem.un", 0x5E, .empty, .sequential⟩
  | .and => ⟨"and", 0x5F, .empty, .sequential⟩
  | .or => ⟨"or", 0x60, .empty, .sequential⟩
  | .xor => ⟨"xor", 0x61, .empty, .sequential⟩
  | .shl => ⟨"shl", 0x62, .empty, .sequential⟩
  | .shr => ⟨"shr", 0x63, .empty, .sequential⟩
  | .shrUn => ⟨"shr.un", 0x64, .empty, .sequential⟩
  | .neg => ⟨"neg", 0x65, .empty, .sequential⟩
  | .not => ⟨"not", 0x66, .empty, .sequential⟩
  | .convI1 => ⟨"conv.i1", 0x67, .empty, .sequential⟩
  | .convI2 => ⟨"conv.i2", 0x68, .empty, .sequential⟩
  | .convI4 => ⟨"conv.i4", 0x69, .empty, .sequential⟩
  | .convI8 => ⟨"conv.i8", 0x6A, .empty, .sequential⟩
  | .convR4 => ⟨"conv.r4", 0x6B, .empty, .sequential⟩
  | .convR8 => ⟨"conv.r8", 0x6C, .empty, .sequential⟩
  | .convU4 => ⟨"conv.u4", 0x6D, .empty, .sequential⟩
  | .convU8 => ⟨"conv.u8", 0x6E, .empty, .sequential⟩
  | .callvirt => ⟨"callvirt", 0x6F, .token, .call⟩
  | .cpobj => ⟨"cpobj", 0x70, .token, .sequential⟩
  | .ldobj => ⟨"ldobj", 0x71, .token, .sequential⟩
  | .ldstr => ⟨"ldstr", 0x72, .string, .sequential⟩
  | .newobj => ⟨"newobj", 0x73, .token, .call⟩
  | .castclass => ⟨"castclass", 0x74, .token, .sequential⟩
  | .isinst => ⟨"isinst", 0x75, .token, .sequential⟩
  | .convRUn => ⟨"conv.r.un", 0x76, .empty, .sequential⟩
  | .unbox => ⟨"unbox", 0x79, .token, .sequential⟩
  | .throw => ⟨"throw", 0x7A, .empty, .throw⟩
  | .ldfld => ⟨"ldfld", 0x7B, .token, .sequential⟩
  | .ldflda => ⟨"ldflda", 0x7C, .token, .sequential⟩
  | .stfld => ⟨"stfld", 0x7D, .token, .sequential⟩
  | .ldsfld => ⟨"ldsfld", 0x7E, .token, .sequential⟩
  | .ldsflda => ⟨"ldsflda", 0x7F, .token, .sequential⟩
  | .stsfld => ⟨"stsfld", 0x80, .token, .sequential⟩
  | .stobj => ⟨"stobj", 0x81, .token, .sequential⟩
  | .convOvfI1Un => ⟨"conv.ovf.i1.un", 0x82, .empty, .sequential⟩
  | .convOvfI2Un => ⟨"conv.ovf.i2.un", 0x83, .empty, .sequential⟩
  | .convOvfI4Un => ⟨"conv.ovf.i4.un", 0x84, .empty, .sequential⟩
  | .convOvfI8Un => ⟨"conv.ovf.i8.un", 0x85, .empty, .sequential⟩
  | .convOvfU1Un => ⟨"conv.ovf.u1.un", 0x86, .empty, .sequential⟩
  | .convOvfU2Un => ⟨"conv.ovf.u2.un", 0x87, .empty, .sequential⟩
  | .convOvfU4Un => ⟨"conv.ovf.u4.un", 0x88, .empty, .sequential⟩
  | .convOvfU8Un => ⟨"conv.ovf.u8.un", 0x89, .empty, .sequential⟩
  | .convOvfIUn => ⟨"conv.ovf.i.un", 0x8A, .empty, .sequential⟩
  | .convOvfUUn => ⟨"conv.ovf.u.un", 0x8B, .empty, .sequential⟩
  | .box => ⟨"box", 0x8C, .token, .sequential⟩
  | .newarr => ⟨"newarr", 0x8D, .token, .sequential⟩
  | .ldlen => ⟨"ldlen", 0x8E, .empty, .sequential⟩
  | .ldelema => ⟨"ldelema", 0x8F, .token, .sequential⟩
  | .ldelemI1 => ⟨"ldelem.i1", 0x90, .empty, .sequential⟩
  | .ldelemU1 => ⟨"ldelem.u1", 0x91, .empty, .sequential⟩
  | .ldelemI2 => ⟨"ldelem.i2", 0x92, .empty, .sequential⟩
  | .ldelemU2 => ⟨"ldelem.u2", 0x93, .empty, .sequential⟩
  | .ldelemI4 => ⟨"ldelem.i4", 0x94, .empty, .sequential⟩
  | .ldelemU4 => ⟨"ldelem.u4", 0x95, .empty, .sequential⟩
  | .ldelemI8 => ⟨"ldelem.i8", 0x96, .empty, .sequential⟩
  | .ldelemI => ⟨"ldelem.i", 0x97, .empty, .sequential⟩
  | .ldelemR4 => ⟨"ldelem.r4", 0x98, .empty, .sequential⟩
  | .ldelemR8 => ⟨"ldelem.r8", 0x99, .empty, .sequential⟩
  | .ldelemRef => ⟨"ldelem.ref", 0x9A, .empty, .sequential⟩
  | .stelemI => ⟨"stelem.i", 0x9B, .empty, .sequential⟩
  | .stelemI1 => ⟨"stelem.i1", 0x9C, .empty, .sequential⟩
  | .stelemI2 => ⟨"stelem.i2", 0x9D, .empty, .sequential⟩
  | .stelemI4 => ⟨"stelem.i4", 0x9E, .empty, .sequential⟩
  | .stelemI8 => ⟨"stelem.i8", 0x9F, .empty, .sequential⟩
  | .stelemR4 => ⟨"stelem.r4", 0xA0, .empty, .sequential⟩
  | .stelemR8 => ⟨"stelem.r8", 0xA1, .empty, .sequential⟩
  | .stelemRef => ⟨"stelem.ref", 0xA2, .empty, .sequential⟩
  | .ldelem => ⟨"ldelem", 0xA3, .token, .sequential⟩
  | .stelem => ⟨"stelem", 0xA4, .token, .sequential⟩
  | .unboxAny => ⟨"unbox.any", 0xA5, .token, .sequential⟩
  | .convOvfI1 => ⟨"conv.ovf.i1", 0xB3, .empty, .sequential⟩
  | .convOvfU1 => ⟨"conv.ovf.u1", 0xB4, .empty, .sequential⟩
  | .convOvfI2 => ⟨"conv.ovf.i2", 0xB5, .empty, .sequential⟩
  | .convOvfU2 => ⟨"conv.ovf.u2", 0xB6, .empty, .sequential⟩
  | .convOvfI4 => ⟨"conv.ovf.i4", 0xB7, .empty, .sequential⟩
  | .convOvfU4 => ⟨"conv.ovf.u4", 0xB8, .empty, .sequential⟩
  | .convOvfI8 => ⟨"conv.ovf.i8", 0xB9, .empty, .sequential⟩
  | .convOvfU8 => ⟨"conv.ovf.u8", 0xBA, .empty, .sequential⟩
  | .refanyval => ⟨"refanyval", 0xC2, .token, .sequential⟩
  | .ckfinite => ⟨"ckfinite", 0xC3, .empty, .sequential⟩
  | .mkrefany => ⟨"mkrefany", 0xC6, .token, .sequential⟩
  | .ldtoken => ⟨"ldtoken", 0xD0, .token, .sequential⟩
  | .convU2 => ⟨"conv.u2", 0xD1, .empty, .sequential⟩
  | .convU1 => ⟨"conv.u1", 0xD2, .empty, .sequential⟩
  | .convI => ⟨"conv.i", 0xD3, .empty, .sequential⟩
  | .convOvfI => ⟨"conv.ovf.i", 0xD4, .empty, .sequential⟩
  | .convOvfU => ⟨"conv.ovf.u", 0xD5, .empty, .sequential⟩
  | .addOvf => ⟨"add.ovf", 0xD6, .empty, .sequential⟩
  | .addOvfUn => ⟨"add.ovf.un", 0xD7, .empty, .sequential⟩
  | .mulOvf => ⟨"mul.ovf", 0xD8, .empty, .sequential⟩
  | .mulOvfUn => ⟨"mul.ovf.un", 0xD9, .empty, .sequential⟩
  | .subOvf => ⟨"sub.ovf", 0xDA, .empty, .sequential⟩
  | .subOvfUn => ⟨"sub.ovf.un", 0xDB, .empty, .sequential⟩
  | .endfinally => ⟨"endfinally", 0xDC, .empty, .endFinally⟩
  | .leave => ⟨"leave", 0xDD, .branch, .leave⟩
  | .leaveS => ⟨"leave.s", 0xDE, .shortBranch, .leave⟩
  | .stindI => ⟨"stind.i", 0xDF, .empty, .sequential⟩
  | .convU => ⟨"conv.u", 0xE0, .empty, .sequential⟩
  | .arglist => ⟨"arglist", 0xFE00, .empty, .sequential⟩
  | .ceq => ⟨"ceq", 0xFE01, .empty, .sequential⟩
  | .cgt => ⟨"cgt", 0xFE02, .empty, .sequential⟩
  | .cgtUn => ⟨"cgt.un", 0xFE03, .empty, .sequential⟩
  | .clt => ⟨"clt", 0xFE04, .empty, .sequential⟩
  | .cltUn => ⟨"clt.un", 0xFE05, .empty, .sequential⟩
  | .ldftn => ⟨"ldftn", 0xFE06, .token, .sequential⟩
  | .ldvirtftn => ⟨"ldvirtftn", 0xFE07, .token, .sequential⟩
  | .ldarg => ⟨"ldarg", 0xFE09, .var, .sequential⟩
  | .ldarga => ⟨"ldarga", 0xFE0A, .var, .sequential⟩
  | .starg => ⟨"starg", 0xFE0B, .var, .sequential⟩
  | .ldloc => ⟨"ldloc", 0xFE0C, .var, .sequential⟩
  | .ldloca => ⟨"ldloca", 0xFE0D, .var, .sequential⟩
  | .stloc => ⟨"stloc", 0xFE0E, .var, .sequential⟩
  | .localloc => ⟨"localloc", 0xFE0F, .empty, .sequential⟩
  | .endfilter => ⟨"endfilter", 0xFE11, .empty, .endFinally⟩
  | .unaligned => ⟨"unaligned.", 0xFE12, .shortInt, .modifier⟩
  | .volatile => ⟨"volatile.", 0xFE13, .empty, .modifier⟩
  | .tail => ⟨"tail.", 0xFE14, .empty, .modifier⟩
  | .initobj => ⟨"initobj", 0xFE15, .token, .sequential⟩
  | .constrained => ⟨"constrained.", 0xFE16, .token, .modifier⟩
  | .cpblk => ⟨"cpblk", 0xFE17, .empty, .sequential⟩
  | .initblk => ⟨"initblk", 0xFE18, .empty, .sequential⟩
  | .no => ⟨"no.", 0xFE19, .shortInt, .modifier⟩
  | .rethrow => ⟨"rethrow", 0xFE1A, .empty, .throw⟩
  | .sizeof => ⟨"sizeof", 0xFE1C, .token, .sequential⟩
  | .refanytype => ⟨"refanytype", 0xFE1D, .empty, .sequential⟩
  | .readonly => ⟨"readonly.", 0xFE1E, .empty, .modifier⟩

/-- Every opcode, in table order. -/
def all : List Opcode :=
  [.nop, .breakpoint, .ldarg0, .ldarg1, .ldarg2, .ldarg3, .ldloc0, .ldloc1, .ldloc2, .ldloc3,
   .stloc0, .stloc1, .stloc2, .stloc3, .ldargS, .ldargaS, .stargS, .ldlocS, .ldlocaS, .stlocS,
   .ldnull, .ldcI4M1, .ldcI40, .ldcI41, .ldcI42, .ldcI43, .ldcI44, .ldcI45, .ldcI46, .ldcI47,
   .ldcI48, .ldcI4S, .ldcI4, .ldcI8, .ldcR4, .ldcR8, .dup, .pop, .jmp, .call, .calli, .ret, .brS,
   .brfalseS, .brtrueS, .beqS, .bgeS, .bgtS, .bleS, .bltS, .bneUnS, .bgeUnS, .bgtUnS, .bleUnS,
   .bltUnS, .br, .brfalse, .brtrue, .beq, .bge, .bgt, .ble, .blt, .bneUn, .bgeUn, .bgtUn, .bleUn,
   .bltUn, .switch, .ldindI1, .ldindU1, .ldindI2, .ldindU2, .ldindI4, .ldindU4, .ldindI8, .ldindI,
   .ldindR4, .ldindR8, .ldindRef, .stindRef, .stindI1, .stindI2, .stindI4, .stindI8, .stindR4,
   .stindR8, .add, .sub, .mul, .div, .divUn, .rem, .remUn, .and, .or, .xor, .shl, .shr, .shrUn,
   .neg, .not, .convI1, .convI2, .convI4, .convI8, .convR4, .convR8, .convU4, .convU8, .callvirt,
   .cpobj, .ldobj, .ldstr, .newobj, .castclass, .isinst, .convRUn, .unbox, .throw, .ldfld,
   .ldflda, .stfld, .ldsfld, .ldsflda, .stsfld, .stobj, .convOvfI1Un, .convOvfI2Un, .convOvfI4Un,
   .convOvfI8Un, .convOvfU1Un, .convOvfU2Un, .convOvfU4Un, .convOvfU8Un, .convOvfIUn, .convOvfUUn,
   .box, .newarr, .ldlen, .ldelema, .ldelemI1, .ldelemU1, .ldelemI2, .ldelemU2, .ldelemI4,
   .ldelemU4, .ldelemI8, .ldelemI, .ldelemR4, .ldelemR8, .ldelemRef, .stelemI, .stelemI1,
   .stelemI2, .stelemI4, .stelemI8, .stelemR4, .stelemR8, .stelemRef, .ldelem, .stelem, .unboxAny,
   .convOvfI1, .convOvfU1, .convOvfI2, .convOvfU2, .convOvfI4, .convOvfU4, .convOvfI8, .convOvfU8,
   .refanyval, .ckfinite, .mkrefany, .ldtoken, .convU2, .convU1, .convI, .convOvfI, .convOvfU,
   .addOvf, .addOvfUn, .mulOvf, .mulOvfUn, .subOvf, .subOvfUn, .endfinally, .leave, .leaveS,
   .stindI, .convU, .arglist, .ceq, .cgt, .cgtUn, .clt, .cltUn, .ldftn, .ldvirtftn, .ldarg,
   .ldarga, .starg, .ldloc, .ldloca, .stloc, .localloc, .endfilter, .unaligned, .volatile, .tail,
   .initobj, .constrained, .cpblk, .initblk, .no, .rethrow, .sizeof, .refanytype, .readonly]

/-- Each opcode stands at its own place in the list. -/
theorem getElem?_all (op : Opcode) : all[op.ctorIdx]? = some op := by cases op <;> rfl

/-- The list leaves no opcode out. -/
theorem mem_all (op : Opcode) : op ∈ all := List.mem_of_getElem? (getElem?_all op)

/-! ## 3. Columns of the table -/

/-- The assembler mnemonic. -/
def mnemonic (op : Opcode) : String := op.row.mnemonic

/-- The encoded value. -/
def value (op : Opcode) : Nat := op.row.value

/-- The kind of the operand. -/
def operandKind (op : Opcode) : OperandKind := op.row.operand

/-- The effect on the flow of control. -/
def flow (op : Opcode) : Flow := op.row.flow

/-- Size of the opcode itself: one byte or two. -/
def size (op : Opcode) : Nat := if 0xFF < op.value then 2 else 1

/-- Does the opcode carry a jump target? -/
def isBranch (op : Opcode) : Bool :=
  op.operandKind == .shortBranch || op.operandKind == .branch

/-- The opcode with a given encoded value. -/
def ofValue? (value : Nat) : Option Opcode := all.find? (·.value == value)

/-- The opcode with a given mnemonic. -/
def ofMnemonic? (mnemonic : String) : Option Opcode := all.find? (·.mnemonic == mnemonic)

/-- The mnemonic as one word: each part starts with a capital and the dots are dropped. -/
def name (op : Opcode) : String :=
  String.join ((op.mnemonic.splitOn ".").map String.capitalize)

end Opcode

end ReflectionFlow

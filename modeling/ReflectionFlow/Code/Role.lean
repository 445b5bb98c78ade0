/-
  File:      ReflectionFlow/Code/Role.lean
  Subject:   What an opcode does to variables and evaluation stack.

  Many opcodes differ only in sizes and number formats, which do not matter for the flow of
  values.  The role of an opcode is what is left: what it takes, what it leaves, and which
  storage it touches.
-/
import ReflectionFlow.Code.Opcode

namespace ReflectionFlow

/-- What an opcode does to variables and evaluation stack. -/
inductive Role where
  /-- Takes operands and may leave one result of which nothing is known. -/
  | consume (pops : Nat) (leavesResult : Bool)
  /-- Takes operands, then empties the stack. -/
  | unwind (pops : Nat)
  /-- Leaves the topmost operand twice. -/
  | duplicate
  | loadArgument
  | argumentAddress
  | storeArgument
  | loadLocal
  | localAddress
  | storeLocal
  | loadNull
  | loadInt
  | loadString
  /-- Leaves the handle of a type or a method. -/
  | loadToken
  | call
  /-- Creates an instance by calling a constructor. -/
  | construct
  /-- Calls through a pointer on the stack. -/
  | callIndirect
  | ret
  /-- Reads through an address. -/
  | loadIndirect
  /-- Writes through an address. -/
  | storeIndirect
  /-- Clears what an address refers to. -/
  | clearIndirect
  | box
  /-- Leaves its operand and names a type for it. -/
  | cast
  /-- Reads a field, of an instance or not. -/
  | loadField (ofInstance : Bool)
  | fieldAddress (ofInstance : Bool)
  | storeField (ofInstance : Bool)
  | newArray
  | arrayLength
  | elementAddress
  | loadElement
  | storeElement
  deriving DecidableEq, Repr

/-- The role of each opcode. -/
def Opcode.role : Opcode → Role
  | .nop | .breakpoint | .jmp | .br | .brS | .unaligned | .volatile | .tail | .constrained | .no
  | .readonly => .consume 0 false
  | .ldcI8 | .ldcR4 | .ldcR8 | .arglist | .sizeof | .ldftn => .consume 0 true
  | .pop | .brfalse | .brfalseS | .brtrue | .brtrueS | .switch => .consume 1 false
  | .neg | .not
  | .convI1 | .convI2 | .convI4 | .convI8 | .convR4 | .convR8 | .convU4 | .convU8 | .convU2 | .convU1
  | .convI | .convU | .convRUn
  | .convOvfI1 | .convOvfU1 | .convOvfI2 | .convOvfU2 | .convOvfI4 | .convOvfU4 | .convOvfI8
  | .convOvfU8 | .convOvfI | .convOvfU
  | .convOvfI1Un | .convOvfI2Un | .convOvfI4Un | .convOvfI8Un | .convOvfU1Un | .convOvfU2Un
  | .convOvfU4Un | .convOvfU8Un | .convOvfIUn | .convOvfUUn
  | .ckfinite | .unbox | .refanyval | .mkrefany | .refanytype | .ldvirtftn | .localloc =>
    .consume 1 true
  | .beq | .beqS | .bge | .bgeS | .bgt | .bgtS | .ble | .bleS | .blt | .bltS
  | .bneUn | .bneUnS | .bgeUn | .bgeUnS | .bgtUn | .bgtUnS | .bleUn | .bleUnS | .bltUn | .bltUnS
  | .cpobj => .consume 2 false
  | .add | .sub | .mul | .div | .divUn | .rem | .remUn | .and | .or | .xor | .shl | .shr | .shrUn
  | .addOvf | .addOvfUn | .mulOvf | .mulOvfUn | .subOvf | .subOvfUn
  | .ceq | .cgt | .cgtUn | .clt | .cltUn => .consume 2 true
  | .cpblk | .initblk => .consume 3 false
  | .rethrow | .endfinally | .leave | .leaveS => .unwind 0
  | .throw | .endfilter => .unwind 1
  | .dup => .duplicate
  | .ldarg0 | .ldarg1 | .ldarg2 | .ldarg3 | .ldargS | .ldarg => .loadArgument
  | .ldargaS | .ldarga => .argumentAddress
  | .stargS | .starg => .storeArgument
  | .ldloc0 | .ldloc1 | .ldloc2 | .ldloc3 | .ldlocS | .ldloc => .loadLocal
  | .ldlocaS | .ldloca => .localAddress
  | .stloc0 | .stloc1 | .stloc2 | .stloc3 | .stlocS | .stloc => .storeLocal
  | .ldnull => .loadNull
  | .ldcI4M1 | .ldcI40 | .ldcI41 | .ldcI42 | .ldcI43 | .ldcI44 | .ldcI45 | .ldcI46 | .ldcI47
  | .ldcI48 | .ldcI4S | .ldcI4 => .loadInt
  | .ldstr => .loadString
  | .ldtoken => .loadToken
  | .call | .callvirt => .call
  | .newobj => .construct
  | .calli => .callIndirect
  | .ret => .ret
  | .ldindI1 | .ldindU1 | .ldindI2 | .ldindU2 | .ldindI4 | .ldindU4 | .ldindI8 | .ldindI | .ldindR4
  | .ldindR8 | .ldindRef | .ldobj => .loadIndirect
  | .stindRef | .stindI1 | .stindI2 | .stindI4 | .stindI8 | .stindR4 | .stindR8 | .stindI | .stobj =>
    .storeIndirect
  | .initobj => .clearIndirect
  | .box => .box
  | .castclass | .isinst | .unboxAny => .cast
  | .ldfld => .loadField true
  | .ldsfld => .loadField false
  | .ldflda => .fieldAddress true
  | .ldsflda => .fieldAddress false
  | .stfld => .storeField true
  | .stsfld => .storeField false
  | .newarr => .newArray
  | .ldlen => .arrayLength
  | .ldelema => .elementAddress
  | .ldelemI1 | .ldelemU1 | .ldelemI2 | .ldelemU2 | .ldelemI4 | .ldelemU4 | .ldelemI8 | .ldelemI
  | .ldelemR4 | .ldelemR8 | .ldelemRef | .ldelem => .loadElement
  | .stelemI | .stelemI1 | .stelemI2 | .stelemI4 | .stelemI8 | .stelemR4 | .stelemR8 | .stelemRef
  | .stelem => .storeElement

end ReflectionFlow

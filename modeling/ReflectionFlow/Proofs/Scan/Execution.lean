/-
  File:      ReflectionFlow/Proofs/Scan/Execution.lean
  Subject:   What scalar code does when it runs.

  The machine of this file knows nothing of value sets: it has data in its variables and on its
  stack and steps from instruction to instruction.  It covers the opcodes that touch neither
  memory nor other methods.  Arithmetic may give anything, and a conditional branch may go
  either way, so every run of a real machine is among its runs.

  * `Opcode.scalar?`         what an opcode of the fragment does; none for all others
  * `Frame`, `Acts`          variables and stack, and what an instruction does to them
  * `Steps`, `Runs`          one step, any number of them
  * `Returns`                a run ends with a value
-/
import Mathlib.Logic.Function.Basic
import ReflectionFlow.Code.Role
import ReflectionFlow.Proofs.Flow.Blocks

namespace ReflectionFlow

/-! ## 1. The fragment -/

/-- What an opcode of the fragment does. -/
inductive Scalar where
  | skip
  | pushInt
  | pushText
  | pushNull
  | duplicate
  | discard
  | loadLocal
  | storeLocal
  | loadArgument
  | storeArgument
  /-- Takes operands and leaves a result. -/
  | compute (operands : Nat)
  /-- Takes operands and jumps, always or perhaps. -/
  | branch (operands : Nat) (always : Bool)
  | ret
  deriving DecidableEq, Repr

/-- The opcodes of the fragment. -/
def Opcode.scalar? : Opcode → Option Scalar
  | .nop => some .skip
  | .ldcI4M1 | .ldcI40 | .ldcI41 | .ldcI42 | .ldcI43 | .ldcI44 | .ldcI45 | .ldcI46 | .ldcI47
  | .ldcI48 | .ldcI4S | .ldcI4 => some .pushInt
  | .ldstr => some .pushText
  | .ldnull => some .pushNull
  | .dup => some .duplicate
  | .pop => some .discard
  | .ldloc0 | .ldloc1 | .ldloc2 | .ldloc3 | .ldlocS | .ldloc => some .loadLocal
  | .stloc0 | .stloc1 | .stloc2 | .stloc3 | .stlocS | .stloc => some .storeLocal
  | .ldarg0 | .ldarg1 | .ldarg2 | .ldarg3 | .ldargS | .ldarg => some .loadArgument
  | .stargS | .starg => some .storeArgument
  | .neg | .not | .ckfinite
  | .convI1 | .convI2 | .convI4 | .convI8 | .convR4 | .convR8 | .convU4 | .convU8 | .convU2 | .convU1
  | .convI | .convU | .convRUn
  | .convOvfI1 | .convOvfU1 | .convOvfI2 | .convOvfU2 | .convOvfI4 | .convOvfU4 | .convOvfI8
  | .convOvfU8 | .convOvfI | .convOvfU
  | .convOvfI1Un | .convOvfI2Un | .convOvfI4Un | .convOvfI8Un | .convOvfU1Un | .convOvfU2Un
  | .convOvfU4Un | .convOvfU8Un | .convOvfIUn | .convOvfUUn => some (.compute 1)
  | .add | .sub | .mul | .div | .divUn | .rem | .remUn | .and | .or | .xor | .shl | .shr | .shrUn
  | .addOvf | .addOvfUn | .mulOvf | .mulOvfUn | .subOvf | .subOvfUn
  | .ceq | .cgt | .cgtUn | .clt | .cltUn => some (.compute 2)
  | .br | .brS => some (.branch 0 true)
  | .brfalse | .brfalseS | .brtrue | .brtrueS | .switch => some (.branch 1 false)
  | .beq | .beqS | .bge | .bgeS | .bgt | .bgtS | .ble | .bleS | .blt | .bltS
  | .bneUn | .bneUnS | .bgeUn | .bgeUnS | .bgtUn | .bgtUnS | .bleUn | .bleUnS | .bltUn | .bltUnS =>
    some (.branch 2 false)
  | .ret => some .ret
  | _ => none

namespace Scalar

/-- The role of an opcode of the fragment. -/
def role : Scalar → Role
  | .skip => .consume 0 false
  | .pushInt => .loadInt
  | .pushText => .loadString
  | .pushNull => .loadNull
  | .duplicate => .duplicate
  | .discard => .consume 1 false
  | .loadLocal => .loadLocal
  | .storeLocal => .storeLocal
  | .loadArgument => .loadArgument
  | .storeArgument => .storeArgument
  | .compute operands => .consume operands true
  | .branch operands _ => .consume operands false
  | .ret => .ret

/-- Can the next instruction follow? -/
def falls : Scalar → Bool
  | .branch _ always => !always
  | .ret => false
  | _ => true

/-- Can an explicit target follow? -/
def jumps : Scalar → Bool
  | .branch _ _ => true
  | _ => false

end Scalar

theorem Opcode.agrees_of_mem_all : ∀ op ∈ Opcode.all, ∀ a ∈ op.scalar?,
    op.role = a.role ∧ op.flow.falls = a.falls ∧ op.flow.jumps = a.jumps ∧
      (op.flow.endsBlock = false → a.jumps = false ∧ a ≠ .ret) := by
  decide +kernel

/-- **The fragment agrees with the tables**: on the role of an opcode and on where control goes. -/
theorem Opcode.scalar?_agrees {op : Opcode} {a : Scalar} (h : op.scalar? = some a) :
    op.role = a.role ∧ op.flow.falls = a.falls ∧ op.flow.jumps = a.jumps ∧
      (op.flow.endsBlock = false → a.jumps = false ∧ a ≠ .ret) :=
  Opcode.agrees_of_mem_all op (Opcode.mem_all op) a h

/-! ## 2. Frames -/

/-- A runtime value. -/
inductive Datum where
  | null
  | int (n : Int32)
  | text (s : String)
  /-- Anything else. -/
  | other (n : Nat)
  deriving DecidableEq, Repr

/-- The variables of a running method and its stack, the topmost operand first. -/
structure Frame where
  locals : UInt16 → Datum
  args : UInt16 → Datum
  stack : List Datum

namespace Frame

/-- A method is entered with its arguments, any local variables and an empty stack. -/
def start (entry : Nat → Datum) (locals : UInt16 → Datum) : Frame :=
  ⟨locals, fun n => entry n.toNat, []⟩

/-- Leaves a datum on the stack. -/
def push (f : Frame) (x : Datum) : Frame := { f with stack := x :: f.stack }

end Frame

/-- **What an instruction does to a frame.**  An instruction that lacks its operand, or finds too
    few data on the stack, does nothing: the run is stuck. -/
inductive Acts (i : Instruction) : Scalar → Frame → Frame → Prop where
  | skip (f : Frame) : Acts i .skip f f
  | pushInt (f : Frame) (n : Int32) (h : i.constant? = some n) : Acts i .pushInt f (f.push (.int n))
  | pushText (f : Frame) (s : String) (h : i.operand = .string s) :
      Acts i .pushText f (f.push (.text s))
  | pushNull (f : Frame) : Acts i .pushNull f (f.push .null)
  | duplicate (l a : UInt16 → Datum) (x : Datum) (r : List Datum) :
      Acts i .duplicate ⟨l, a, x :: r⟩ ⟨l, a, x :: x :: r⟩
  | discard (l a : UInt16 → Datum) (x : Datum) (r : List Datum) :
      Acts i .discard ⟨l, a, x :: r⟩ ⟨l, a, r⟩
  | loadLocal (f : Frame) (n : UInt16) (h : i.localIndex? = some n) :
      Acts i .loadLocal f (f.push (f.locals n))
  | storeLocal (l a : UInt16 → Datum) (x : Datum) (r : List Datum) (n : UInt16)
      (h : i.localIndex? = some n) :
      Acts i .storeLocal ⟨l, a, x :: r⟩ ⟨Function.update l n x, a, r⟩
  | loadArgument (f : Frame) (n : UInt16) (h : i.argumentIndex? = some n) :
      Acts i .loadArgument f (f.push (f.args n))
  | storeArgument (l a : UInt16 → Datum) (x : Datum) (r : List Datum) (n : UInt16)
      (h : i.argumentIndex? = some n) :
      Acts i .storeArgument ⟨l, a, x :: r⟩ ⟨l, Function.update a n x, r⟩
  | compute (l a : UInt16 → Datum) (taken r : List Datum) (x : Datum) :
      Acts i (.compute taken.length) ⟨l, a, taken ++ r⟩ ⟨l, a, x :: r⟩
  | branch (l a : UInt16 → Datum) (taken r : List Datum) (always : Bool) :
      Acts i (.branch taken.length always) ⟨l, a, taken ++ r⟩ ⟨l, a, r⟩

/-! ## 3. Runs -/

/-- **One step**: to the next instruction, or to an instruction that is named as a target. -/
inductive Steps (b : Body) (pc : Nat) (f : Frame) : Nat → Frame → Prop where
  | next (i : Instruction) (a : Scalar) (f' : Frame) (hi : b.instructions[pc]? = some i)
      (ha : i.opcode.scalar? = some a) (hf : a.falls = true) (hact : Acts i a f f') :
      Steps b pc f (pc + 1) f'
  | jump (i t : Instruction) (a : Scalar) (target : Nat) (f' : Frame)
      (hi : b.instructions[pc]? = some i) (ha : i.opcode.scalar? = some a) (hj : a.jumps = true)
      (ht : b.instructions[target]? = some t) (hm : t.offset ∈ i.targets) (hact : Acts i a f f') :
      Steps b pc f target f'

/-- **The points that runs from a frame reach.** -/
inductive Runs (b : Body) (start : Frame) : Nat → Frame → Prop where
  | start : Runs b start 0 start
  | step (pc pc' : Nat) (f f' : Frame) (h : Runs b start pc f) (hs : Steps b pc f pc' f') :
      Runs b start pc' f'

/-- A run that has reached a point returns a datum there. -/
def Returns (b : Body) (pc : Nat) (f : Frame) (x : Datum) : Prop :=
  ∃ i r, b.instructions[pc]? = some i ∧ i.opcode.scalar? = some .ret ∧ f.stack = x :: r

end ReflectionFlow

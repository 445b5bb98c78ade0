/-
  File:      ReflectionFlow/Proofs/Code/Counts.lean
  Subject:   How many operands each instruction takes and how many results it leaves.

  The counts are those of the instruction set's own description, family by family.  They are
  written down without looking at roles, so that what the interpreter does with the stack can be
  measured against them.  A call takes and leaves what its signature says.

  * `Opcode.counts?`, `Opcode.unwinds`    the table
  * `Context.counts?`                     with calls and returns
  * `Context.depthAfter?`                 the depth after an instruction, if it can be executed
  * `Scanner.stackEffect_eq`              interpretation goes by the counts
-/
import ReflectionFlow.Proofs.Scan.Depth

namespace ReflectionFlow

/-- Operands taken and results left. -/
structure Counts where
  takes : Nat
  leaves : Nat
  deriving DecidableEq, Repr

namespace Opcode

/-! ## 1. The table -/

/-- **What an instruction takes and leaves**, where its opcode alone says so. -/
def counts? : Opcode → Option Counts
  -- nothing at all, and prefixes
  | .nop | .breakpoint | .unaligned | .volatile | .tail | .constrained | .no | .readonly => some ⟨0, 0⟩
  -- arguments and local variables
  | .ldarg0 | .ldarg1 | .ldarg2 | .ldarg3 | .ldargS | .ldarg | .ldargaS | .ldarga | .ldloc0 | .ldloc1
  | .ldloc2 | .ldloc3 | .ldlocS | .ldloc | .ldlocaS | .ldloca | .arglist => some ⟨0, 1⟩
  | .stargS | .starg | .stloc0 | .stloc1 | .stloc2 | .stloc3 | .stlocS | .stloc => some ⟨1, 0⟩
  -- constants
  | .ldnull | .ldcI4M1 | .ldcI40 | .ldcI41 | .ldcI42 | .ldcI43 | .ldcI44 | .ldcI45 | .ldcI46 | .ldcI47
  | .ldcI48 | .ldcI4S | .ldcI4 | .ldcI8 | .ldcR4 | .ldcR8 | .ldstr | .ldtoken | .ldftn | .sizeof =>
    some ⟨0, 1⟩
  -- the stack itself
  | .dup => some ⟨1, 2⟩
  | .pop => some ⟨1, 0⟩
  -- control
  | .jmp | .br | .brS | .leave | .leaveS | .endfinally | .rethrow => some ⟨0, 0⟩
  | .brfalse | .brfalseS | .brtrue | .brtrueS | .switch | .throw | .endfilter => some ⟨1, 0⟩
  | .beq | .beqS | .bge | .bgeS | .bgt | .bgtS | .ble | .bleS | .blt | .bltS | .bneUn | .bneUnS | .bgeUn
  | .bgeUnS | .bgtUn | .bgtUnS | .bleUn | .bleUnS | .bltUn | .bltUnS => some ⟨2, 0⟩
  -- arithmetic
  | .add | .sub | .mul | .div | .divUn | .rem | .remUn | .and | .or | .xor | .shl | .shr | .shrUn
  | .addOvf | .addOvfUn | .mulOvf | .mulOvfUn | .subOvf | .subOvfUn | .ceq | .cgt | .cgtUn | .clt
  | .cltUn => some ⟨2, 1⟩
  | .neg | .not | .ckfinite
  | .convI1 | .convI2 | .convI4 | .convI8 | .convU1 | .convU2 | .convU4 | .convU8 | .convI | .convU
  | .convR4 | .convR8 | .convRUn
  | .convOvfI1 | .convOvfI2 | .convOvfI4 | .convOvfI8 | .convOvfU1 | .convOvfU2 | .convOvfU4
  | .convOvfU8 | .convOvfI | .convOvfU | .convOvfI1Un | .convOvfI2Un | .convOvfI4Un | .convOvfI8Un
  | .convOvfU1Un | .convOvfU2Un | .convOvfU4Un | .convOvfU8Un | .convOvfIUn | .convOvfUUn =>
    some ⟨1, 1⟩
  -- memory behind an address
  | .ldindI1 | .ldindU1 | .ldindI2 | .ldindU2 | .ldindI4 | .ldindU4 | .ldindI8 | .ldindI | .ldindR4
  | .ldindR8 | .ldindRef | .ldobj | .localloc => some ⟨1, 1⟩
  | .stindI1 | .stindI2 | .stindI4 | .stindI8 | .stindI | .stindR4 | .stindR8 | .stindRef | .stobj
  | .cpobj => some ⟨2, 0⟩
  | .initobj => some ⟨1, 0⟩
  | .cpblk | .initblk => some ⟨3, 0⟩
  -- objects and fields
  | .castclass | .isinst | .box | .unbox | .unboxAny | .mkrefany | .refanyval | .refanytype
  | .ldvirtftn | .ldfld | .ldflda => some ⟨1, 1⟩
  | .stfld => some ⟨2, 0⟩
  | .ldsfld | .ldsflda => some ⟨0, 1⟩
  | .stsfld => some ⟨1, 0⟩
  -- arrays
  | .newarr | .ldlen => some ⟨1, 1⟩
  | .ldelema | .ldelemI1 | .ldelemU1 | .ldelemI2 | .ldelemU2 | .ldelemI4 | .ldelemU4 | .ldelemI8
  | .ldelemI | .ldelemR4 | .ldelemR8 | .ldelemRef | .ldelem => some ⟨2, 1⟩
  | .stelemI | .stelemI1 | .stelemI2 | .stelemI4 | .stelemI8 | .stelemR4 | .stelemR8 | .stelemRef
  | .stelem => some ⟨3, 0⟩
  -- a signature says
  | .call | .callvirt | .newobj | .calli | .ret => none

/-- Does nothing stay on the stack after the instruction, whatever lay below its operands? -/
def unwinds : Opcode → Bool
  | .leave | .leaveS | .endfinally | .endfilter | .throw | .rethrow | .ret => true
  | _ => false

end Opcode

/-! ## 2. Calls and returns -/

/-- Number of values of a type that come from a call: none of `void`, otherwise one. -/
def TypeSig.resultCount (t : TypeSig) : Nat := if t.isVoid then 0 else 1

/-- Number of operands of a call: an instance, if it is passed and not listed, and the listed
    parameters. -/
def MethodSigOf.operandCount (sig : MethodSig) : Nat :=
  (if sig.hasThis && !sig.explicitThis then 1 else 0) + sig.params.length

theorem TypeSig.resultCount_eq (t : TypeSig) : t.resultCount = (!t.isVoid).toNat := by
  unfold resultCount
  cases t.isVoid <;> rfl

theorem MethodSigOf.stackArguments_eq (sig : MethodSig) : sig.stackArguments = sig.operandCount := by
  unfold stackArguments operandCount
  rw [Nat.add_comm]
  cases sig.hasThis && !sig.explicitThis <;> rfl

/-- An instance is passed or not, whatever the generic arguments are. -/
theorem MethodRef.operandCount_instantiated (r : MethodRef) :
    r.instantiated.operandCount = r.instantiated.params.length + r.method.hasThis.toNat := by
  rw [← MethodSigOf.stackArguments_eq]
  unfold MethodSigOf.stackArguments
  rw [Scanner.hasThis_instantiated]

namespace Context

/-- The signature that a call goes by: that of the method its token refers to, generic arguments
    in place, or else one recorded for the token. -/
def calledSig? (c : Context) (i : Instruction) : Option MethodSig :=
  match i.token?.bind c.callee? with
  | some callee => some callee.instantiated
  | none => i.token?.bind c.store.callSite?

/-- **What an instruction takes and leaves.**  A constructor call leaves the new instance and a call
    through a pointer takes the pointer also. -/
def counts? (c : Context) (i : Instruction) : Option Counts :=
  match i.opcode with
  | .call | .callvirt => (c.calledSig? i).map fun sig => ⟨sig.operandCount, sig.ret.resultCount⟩
  | .newobj => (c.calledSig? i).map fun sig => ⟨sig.params.length, 1⟩
  | .calli => (i.token?.bind c.store.callSite?).map fun sig =>
      ⟨1 + sig.operandCount, sig.ret.resultCount⟩
  | .ret => some ⟨c.method.sig.ret.resultCount, 0⟩
  | op => op.counts?

/-- **The depth after an instruction**, if there is enough for it to take; a return takes all. -/
def depthAfter? (c : Context) (i : Instruction) (d : Nat) : Option Nat :=
  (c.counts? i).bind fun k =>
    if k.takes ≤ d ∧ (i.opcode = .ret → d = k.takes) then
      some (if i.opcode.unwinds then 0 else d - k.takes + k.leaves)
    else none

end Context

/-! ## 3. Variables -/

/-- Does the instruction name the argument or the local variable that it cannot do without?  The
    forms with a number in their opcode always do. -/
def Instruction.namesVariable (i : Instruction) : Bool :=
  match i.opcode, i.operand with
  | .ldargS, .arg _ | .ldarg, .arg _ | .stargS, .arg _ | .starg, .arg _ => true
  | .stlocS, .loc _ | .stloc, .loc _ => true
  | .ldargS, _ | .ldarg, _ | .stargS, _ | .starg, _ | .stlocS, _ | .stloc, _ => false
  | _, _ => true

namespace Instruction

variable {i : Instruction}

theorem exists_argumentIndex? (h : i.namesVariable = true)
    (hr : i.opcode.role = .loadArgument ∨ i.opcode.role = .storeArgument) :
    ∃ n, i.argumentIndex? = some n := by
  obtain ⟨offset, op, operand⟩ := i
  cases op <;> first
    | exact ⟨_, rfl⟩
    | (rcases hr with hr | hr <;> cases hr; done)
    | (cases operand <;> first | exact ⟨_, rfl⟩ | cases h)

theorem exists_localIndex? (h : i.namesVariable = true) (hr : i.opcode.role = .storeLocal) :
    ∃ n, i.localIndex? = some n := by
  obtain ⟨offset, op, operand⟩ := i
  cases op <;> first
    | exact ⟨_, rfl⟩
    | (cases hr; done)
    | (cases operand <;> first | exact ⟨_, rfl⟩ | cases h)

end Instruction

/-! ## 4. Interpretation goes by the counts -/

/-- Number of operands that the instructions of a role take.  Tokens, calls and returns are not
    among them. -/
def Role.takes : Role → Nat
  | .unwind pops => pops
  | role => match role.stackEffect with
    | .exchange takes _ => takes
    | .reset _ => 0

theorem Opcode.takes_role {op : Opcode} {k : Counts} (h : op.counts? = some k) :
    op.role.takes = k.takes := by
  cases op <;> cases h <;> rfl

theorem Opcode.eq_ret {op : Opcode} (h : op.role = .ret) : op = .ret := by
  cases op <;> first | rfl | cases h

theorem Opcode.unwinds_of_call {op : Opcode}
    (h : op.role = .call ∨ op.role = .construct ∨ op.role = .callIndirect) : op.unwinds = false := by
  cases op <;> first | rfl | (rcases h with h | h | h <;> cases h)

namespace Context

variable {c : Context} {i : Instruction} {d d' : Nat}

theorem depthAfter?_inv (h : c.depthAfter? i d = some d') :
    ∃ k, c.counts? i = some k ∧ k.takes ≤ d ∧ (i.opcode = .ret → d = k.takes) ∧
      d' = if i.opcode.unwinds then 0 else d - k.takes + k.leaves := by
  obtain ⟨k, hk, h⟩ := Option.bind_eq_some_iff.mp h
  split at h
  · next hd => exact ⟨k, hk, hd.1, hd.2, (Option.some.inj h).symm⟩
  · cases h

/-- There is enough for what the role takes. -/
theorem takes_role_le (h : c.depthAfter? i d = some d') : i.opcode.role.takes ≤ d := by
  obtain ⟨k, hk, htakes, _, _⟩ := depthAfter?_inv h
  refine Nat.le_trans ?_ htakes
  unfold counts? at hk
  split at hk
  case h_6 => exact Nat.le_of_eq (Opcode.takes_role hk)
  case h_1 hop | h_2 hop | h_3 hop | h_4 hop | h_5 hop =>
    rw [hop]
    exact Nat.zero_le _

/-- A method returns with the returned value alone on the stack. -/
theorem depth_of_ret (h : c.depthAfter? i d = some d') (hr : i.opcode.role = .ret) :
    d = c.method.sig.ret.resultCount := by
  obtain ⟨k, hk, _, hret, _⟩ := depthAfter?_inv h
  have hop := Opcode.eq_ret hr
  unfold counts? at hk
  rw [hop] at hk
  obtain rfl := Option.some.inj hk
  exact hret hop

end Context

/-- The effect that counts stand for. -/
def Counts.effect (k : Counts) (unwinds : Bool) : StackEffect :=
  if unwinds then .reset 0 else .exchange k.takes k.leaves

namespace Scanner

variable {sc : Scanner} {i : Instruction} {k : Counts}

theorem stackEffect_of_opcode (h : i.opcode.counts? = some k) :
    sc.stackEffect i = k.effect i.opcode.unwinds := by
  unfold stackEffect
  generalize i.opcode = op at h ⊢
  cases op <;> cases h <;> rfl

/-- A call that is not through a pointer goes by the signature of its target or by a recorded one. -/
theorem callEffect_of_calledSig? {role : Role} {sig : MethodSig} (hrole : role ≠ .callIndirect)
    (h : sc.context.calledSig? i = some sig) : sc.callEffect i role =
      .exchange (if role == .construct then sig.params.length else sig.operandCount)
        (role == .construct || !sig.ret.isVoid).toNat := by
  have htarget : sc.target? i role = i.token?.bind sc.context.callee? := if_neg hrole
  have hpointer : (role == .callIndirect) = false := beq_eq_false_iff_ne.mpr hrole
  unfold Context.calledSig? at h
  unfold callEffect
  rw [htarget]
  cases hcallee : i.token?.bind sc.context.callee? with
  | some callee =>
      rw [hcallee] at h
      obtain rfl := Option.some.inj h
      rw [callee.operandCount_instantiated]
      cases role == Role.construct <;> rfl
  | none =>
      rw [hcallee] at h
      have h : i.token?.bind sc.context.store.callSite? = some sig := h
      simp only [h, hpointer, sig.stackArguments_eq, Bool.toNat_false, Nat.zero_add]

theorem callEffect_callIndirect {sig : MethodSig}
    (h : i.token?.bind sc.context.store.callSite? = some sig) :
    sc.callEffect i .callIndirect = .exchange (1 + sig.operandCount) sig.ret.resultCount := by
  have htarget : sc.target? i .callIndirect = none := rfl
  unfold callEffect
  simp only [htarget, h, sig.stackArguments_eq, sig.ret.resultCount_eq]
  rfl

/-- **An instruction changes the depth by its counts.** -/
theorem stackEffect_eq (h : sc.context.counts? i = some k) :
    sc.stackEffect i = k.effect i.opcode.unwinds := by
  unfold Context.counts? at h
  split at h
  case h_1 hop | h_2 hop =>
    obtain ⟨sig, hsig, rfl⟩ := Option.map_eq_some_iff.mp h
    unfold stackEffect
    rw [hop, sig.ret.resultCount_eq]
    exact callEffect_of_calledSig? (by decide) hsig
  case h_3 hop =>
    obtain ⟨sig, hsig, rfl⟩ := Option.map_eq_some_iff.mp h
    unfold stackEffect
    rw [hop]
    exact callEffect_of_calledSig? (by decide) hsig
  case h_4 hop =>
    obtain ⟨sig, hsig, rfl⟩ := Option.map_eq_some_iff.mp h
    unfold stackEffect
    rw [hop]
    exact callEffect_callIndirect hsig
  case h_5 hop =>
    unfold stackEffect
    rw [hop]
    rfl
  case h_6 => exact stackEffect_of_opcode h

/-- **The interpreter and the counts agree on the depth after an instruction.** -/
theorem apply_stackEffect {d d' : Nat} (h : sc.context.depthAfter? i d = some d') :
    (sc.stackEffect i).apply d = d' := by
  obtain ⟨k, hk, _, _, rfl⟩ := Context.depthAfter?_inv h
  rw [stackEffect_eq hk]
  unfold Counts.effect
  split <;> rfl

/-- A call has a signature, and there is enough for it to take. -/
theorem callEffect_inv {role : Role} {d d' : Nat} (h : sc.context.depthAfter? i d = some d')
    (hr : i.opcode.role = role) (hrole : role = .call ∨ role = .construct ∨ role = .callIndirect) :
    ∃ takes leaves, sc.callEffect i role = .exchange takes leaves ∧ takes ≤ d := by
  obtain ⟨k, hk, htakes, _, _⟩ := Context.depthAfter?_inv h
  have heffect := stackEffect_eq hk
  rw [Opcode.unwinds_of_call (hr ▸ hrole)] at heffect
  unfold stackEffect at heffect
  refine ⟨k.takes, k.leaves, ?_, htakes⟩
  rcases hrole with rfl | rfl | rfl <;> (rw [hr] at heffect; exact heffect)

end Scanner

end ReflectionFlow

/-
  File:      ReflectionFlow/Proofs/Scan/Complaints.lean
  Subject:   What an instruction complains about.

  An instruction takes its operands before it does anything else, one by one, and each one that is
  missing is a complaint of its own.  Whatever it observes after that contains at most one more
  complaint, and that one is not about an operand.  So the complaints at an instruction are counted
  by the operands it lacks at the depth at which it is interpreted.

  * `Trace.Lacks`, `Trace.Complains` a number of missing operands, and what may follow them
  * `Scanner.takes`                  number of operands of an instruction
  * `Scanner.complains_step`         what one instruction complains about
  * `Scanner.observedAt_steps`       what code complains about, instruction by instruction
  * `Scanner.takes_of_counts?`       the operands are those that the instruction set says
-/
import ReflectionFlow.Proofs.Scan.Balance

namespace ReflectionFlow

/-! ## 1. Traces -/

namespace Trace

variable {t u w : Trace} {d k offset : Nat} {os : List Observation}

theorem drop_drop (t : Trace) (offset a b : Nat) :
    (t.drop offset a).drop offset b = t.drop offset (a + b) := by
  induction a generalizing t with
  | zero => rw [Nat.zero_add]; rfl
  | succ a ih => rw [drop_succ, ih, Nat.succ_add, drop_succ]

/-- **Every operand that is missing is a complaint.** -/
theorem adds_drop (h : t.depth? = some d) (offset count : Nat) :
    Adds offset (List.replicate (count - d) (.fault .stackUnderflow)) t (t.drop offset count) := by
  induction count generalizing t d with
  | zero =>
      rw [Nat.zero_sub]
      exact adds_self offset t
  | succ count ih =>
      have hrest := ih (depth?_pop h offset)
      rw [drop_succ]
      rcases t.pop_cases offset with ⟨_, _, hs, hp⟩ | ⟨hnil, hp⟩
      · have hd : t.state.stack.depth = _ := Stack.depth_of_depth? h
        rw [hs] at hd
        have hpos : 0 < d := hd ▸ Nat.succ_pos _
        rw [show count - (d - 1) = count + 1 - d by omega, hp] at hrest
        rw [hp]
        exact hrest
      · have hd : t.state.stack.depth = 0 := congrArg List.length hnil
        obtain rfl : d = 0 := (Stack.depth_of_depth? h).symm.trans hd
        rw [hp] at hrest ⊢
        exact (adds_observe t offset _).trans hrest

/-- Only things that are no complaints are added. -/
def Proceeds (offset : Nat) (t t' : Trace) : Prop :=
  ∃ os, Adds offset os t t' ∧ ∀ o ∈ os, o.isFault = false

theorem proceeds_observe (t : Trace) (offset : Nat) {o : Observation} (ho : o.isFault = false) :
    Proceeds offset t (t.observe offset o) :=
  ⟨[o], adds_observe t offset o, fun _ h => List.mem_singleton.mp h ▸ ho⟩

theorem AddsFlows.proceeds (h : AddsFlows offset t u) : Proceeds offset t u := by
  obtain ⟨os, hadds, hos⟩ := h.observed
  refine ⟨os, hadds, fun o ho => ?_⟩
  obtain ⟨_, _, _, rfl⟩ := hos o ho
  rfl

/-- **A number of operands is missing**, and nothing else is complained about. -/
def Lacks (offset k : Nat) (t t' : Trace) : Prop :=
  ∃ rest, Adds offset (List.replicate k (.fault .stackUnderflow) ++ rest) t t' ∧
    ∀ o ∈ rest, o.isFault = false

theorem lacks_drop (h : t.depth? = some d) (offset count : Nat) :
    Lacks offset (count - d) t (t.drop offset count) :=
  ⟨[], (adds_drop h offset count).trans (adds_self offset _),
    fun _ h => absurd h List.not_mem_nil⟩

theorem Lacks.proceeds (h : Lacks offset k t u) (h' : Proceeds offset u w) :
    Lacks offset k t w := by
  obtain ⟨rest, hadds, hrest⟩ := h
  obtain ⟨os, hadds', hos⟩ := h'
  refine ⟨rest ++ os, ?_, fun o ho => (List.mem_append.mp ho).elim (hrest o) (hos o)⟩
  rw [← List.append_assoc]
  exact hadds.trans hadds'

/-- At most one complaint, and not one about an operand. -/
structure Single (os : List Observation) : Prop where
  operands : .fault .stackUnderflow ∉ os
  once : os.countP Observation.isFault ≤ 1

/-- **A number of operands is missing**, and after that there is at most one other complaint. -/
def Complains (offset k : Nat) (t t' : Trace) : Prop :=
  ∃ rest, Adds offset (List.replicate k (.fault .stackUnderflow) ++ rest) t t' ∧ Single rest

theorem not_mem_of_isFault (h : ∀ o ∈ os, o.isFault = false) (f : CodeFault) : .fault f ∉ os :=
  fun hf => Bool.noConfusion (h _ hf)

theorem countP_isFault (h : ∀ o ∈ os, o.isFault = false) : os.countP Observation.isFault = 0 :=
  List.countP_eq_zero.mpr fun o ho => by rw [h o ho]; exact Bool.false_ne_true

theorem Lacks.complains (h : Lacks offset k t u) : Complains offset k t u := by
  obtain ⟨rest, hadds, hrest⟩ := h
  refine ⟨rest, hadds, not_mem_of_isFault hrest _, ?_⟩
  rw [countP_isFault hrest]
  exact Nat.zero_le 1

theorem Complains.pushIf (h : Complains offset k t u) (b : Bool) (v : ValueSet) :
    Complains offset k t (if b then u.push v else u) := by
  cases b with
  | false => exact h
  | true => exact h

/-- Another complaint follows. -/
theorem Lacks.fault (h : Lacks offset k t u) {f : CodeFault} (hf : f ≠ .stackUnderflow) :
    Complains offset k t (u.observe offset (.fault f)) := by
  obtain ⟨rest, hadds, hrest⟩ := h
  refine ⟨rest ++ [.fault f], ?_, ?_, ?_⟩
  · rw [← List.append_assoc]
    exact hadds.trans (adds_observe u offset _)
  · intro hmem
    rcases List.mem_append.mp hmem with hmem | hmem
    · exact not_mem_of_isFault hrest _ hmem
    · exact hf (Observation.fault.inj (List.mem_singleton.mp hmem)).symm
  · rw [List.countP_append, countP_isFault hrest]
    exact Nat.le_refl 1

end Trace

/-! ## 2. Instructions -/

namespace Scanner

open Trace

variable {sc : Scanner} {i : Instruction} {t : Trace} {d : Nat}

/-- Number of operands of a call; a call without a signature takes the pointer alone, if it has
    one. -/
def callTakes (sc : Scanner) (i : Instruction) (role : Role) : Nat :=
  match sc.callEffect i role with
  | .exchange takes _ => takes
  | .reset _ => (role == .callIndirect).toNat

/-- **Number of operands of an instruction.** -/
def takes (sc : Scanner) (i : Instruction) : Nat :=
  match i.opcode.role with
  | .call => sc.callTakes i .call
  | .construct => sc.callTakes i .construct
  | .callIndirect => sc.callTakes i .callIndirect
  | .ret => sc.method.sig.ret.resultCount
  | role => role.takes

theorem complains_stepReturn (h : t.depth? = some d) (i : Instruction) :
    Complains i.offset (sc.method.sig.ret.resultCount - d) t (sc.stepReturn i t) := by
  have hclear : ∀ {k : Nat} {u : Trace}, Lacks i.offset k t u →
      Complains i.offset k t (if u.state.stack.fromTop.isEmpty then u
        else u.observe i.offset (.fault .stackNotEmpty)).clear := by
    intro k u hu
    split
    · exact hu.complains
    · exact hu.fault (by decide)
  unfold stepReturn
  refine hclear ?_
  rw [TypeSig.resultCount_eq]
  cases sc.method.sig.ret.isVoid with
  | true => exact lacks_drop h i.offset 0
  | false => exact (lacks_drop h i.offset 1).proceeds (addsFlows_observeFlow _ i.offset _ _ _).proceeds

/-- An instruction that is neither a call nor a return complains about the operands of its role. -/
theorem complains_stepLocal (block : Nat) (h : t.depth? = some d) {role : Role} (hr : role ≠ .ret) :
    Complains i.offset (role.takes - d) t (sc.stepLocal block i t role) := by
  have hdrop : ∀ count, Lacks i.offset (count - d) t (t.drop i.offset count) :=
    lacks_drop h i.offset
  cases role with
  | consume pops leavesResult => exact (hdrop pops).complains.pushIf leavesResult _
  | unwind pops => exact (hdrop pops).complains
  | ret => exact absurd rfl hr
  | loadArgument =>
      show Complains i.offset (0 - d) t (sc.stepLoadArgument i t)
      unfold stepLoadArgument
      split
      · exact (hdrop 0).complains
      · exact (hdrop 0).fault (by decide)
  | storeArgument =>
      show Complains i.offset (1 - d) t (sc.stepStoreArgument i t)
      rw [stepStoreArgument_eq]
      split
      · exact ((hdrop 1).proceeds (sc.addsFlows_storeArgument _ _ _ _ _).proceeds).complains
      · exact (hdrop 1).fault (by decide)
  | storeLocal =>
      show Complains i.offset (1 - d) t (sc.stepStoreLocal i t)
      rw [stepStoreLocal_eq]
      split
      · exact (hdrop 1).complains
      · exact (hdrop 1).fault (by decide)
  | cast =>
      show Complains i.offset (1 - d) t (sc.stepCast i t)
      rw [stepCast_eq]
      split
      · exact ((hdrop 1).proceeds (proceeds_observe _ i.offset (o := .cast _ _) rfl)).complains
      · exact (hdrop 1).complains
  | storeField ofInstance =>
      have hboth : Lacks i.offset (1 + ofInstance.toNat - d) t
          ((t.pop i.offset).2.drop i.offset ofInstance.toNat) := by
        rw [Nat.add_comm]
        exact hdrop (ofInstance.toNat + 1)
      show Complains i.offset (1 + ofInstance.toNat - d) t (sc.stepStoreField i ofInstance t)
      rw [stepStoreField_eq]
      split
      · exact (hboth.proceeds (sc.addsFlows_storeField _ _ _ _).proceeds).complains
      · exact hboth.complains
  | storeIndirect =>
      exact ((hdrop 2).proceeds (sc.addsFlows_storeThrough block _ _ _ _).proceeds).complains
  | clearIndirect =>
      exact ((hdrop 1).proceeds (sc.addsFlows_storeThrough block _ _ _ _).proceeds).complains
  | storeElement =>
      exact ((hdrop 3).proceeds (sc.addsFlows_storeElement _ block _ _ _ _).proceeds).complains
  | loadField ofInstance | fieldAddress ofInstance => exact (hdrop ofInstance.toNat).complains
  | elementAddress | loadElement => exact (hdrop 2).complains
  | duplicate | loadIndirect | box | newArray | arrayLength => exact (hdrop 1).complains
  | argumentAddress | loadLocal | localAddress | loadNull | loadInt | loadString | loadToken | call
  | construct | callIndirect => exact (hdrop 0).complains

theorem lacks_takeOperands (sc : Scanner) (h : t.depth? = some d) (offset : Nat) (callee : MethodRef)
    (constructs : Bool) : Lacks offset (callee.instantiated.params.length +
      (if constructs then 0 else callee.method.hasThis.toNat) - d) t
      (sc.takeOperands offset callee constructs t).2.2 := by
  have hdrop := lacks_drop h offset
  unfold takeOperands
  cases constructs with
  | true => exact hdrop callee.instantiated.params.length
  | false =>
      cases hthis : callee.method.hasThis with
      | false => exact hdrop callee.instantiated.params.length
      | true =>
          have hboth := hdrop (callee.instantiated.params.length + 1)
          rw [← drop_drop] at hboth
          exact hboth

theorem lacks_leave {offset k : Nat} {u : Trace} (h : Lacks offset k t u) (callee : MethodRef)
    (constructs : Bool) (returned : ValueSet) :
    Lacks offset k t (leave callee constructs returned u) := by
  unfold leave
  split
  · exact h
  · exact h

theorem complains_opaqueCall (h : t.depth? = some d) {role : Role}
    (hnone : sc.target? i role = none) :
    Complains i.offset (sc.callTakes i role - d) t (sc.opaqueCall i role t) := by
  unfold opaqueCall callTakes callEffect
  rw [hnone]
  cases i.token?.bind sc.context.store.callSite? with
  | none =>
      have hfault := (lacks_drop h i.offset (role == .callIndirect).toNat).fault
        (f := .unresolvedCall i) fun h => CodeFault.noConfusion h
      exact Complains.pushIf (u := Trace.clear _) hfault _ _
  | some sig =>
      have hboth := lacks_drop h i.offset ((role == .callIndirect).toNat +
        if role == .construct then sig.params.length else sig.stackArguments)
      rw [← drop_drop] at hboth
      exact hboth.complains.pushIf _ _

theorem complains_stepCall (h : t.depth? = some d) {role : Role} {block : Nat} {t' : Trace}
    {session session' : Session}
    (hs : (sc.stepCall block i role t).run session = (.ok t', session')) :
    Complains i.offset (sc.callTakes i role - d) t t' := by
  unfold stepCall at hs
  cases ht : sc.target? i role with
  | none =>
      rw [ht] at hs
      obtain ⟨hs, -⟩ := Prod.mk.inj hs
      obtain rfl := Except.ok.inj hs
      exact complains_opaqueCall h ht
  | some callee =>
      rw [ht] at hs
      obtain ⟨returned, needs, intrinsic, rfl⟩ := call_inv hs
      have htakes : sc.callTakes i role = callee.instantiated.params.length +
          if role == .construct then 0 else callee.method.hasThis.toNat := by
        unfold callTakes callEffect
        rw [ht]
      rw [htakes]
      have hoperands := sc.lacks_takeOperands h i.offset callee (role == .construct)
      have hleave := lacks_leave hoperands callee (role == .construct) returned
      refine (Lacks.proceeds ?_ (proceeds_observe _ i.offset (o := .call _ _ _ _) rfl)).complains
      exact hleave.proceeds (sc.addsFlows_writeBack block i.offset callee needs _ _).proceeds

/-- **An instruction complains about each operand that it lacks**, and about one other thing at
    most. -/
theorem complains_step (h : t.depth? = some d) {block : Nat} {t' : Trace}
    {session session' : Session}
    (hs : (sc.step block i t).run session = (.ok t', session')) :
    Complains i.offset (sc.takes i - d) t t' := by
  unfold step at hs
  unfold takes
  cases hr : i.opcode.role with
  | loadToken =>
      rw [hr, Act.run_bind] at hs
      obtain ⟨hs, -⟩ := Prod.mk.inj hs
      obtain rfl := Except.ok.inj hs
      exact (lacks_drop h i.offset 0).complains
  | call | construct | callIndirect =>
      rw [hr] at hs
      exact complains_stepCall h hs
  | ret =>
      rw [hr] at hs
      obtain ⟨hs, -⟩ := Prod.mk.inj hs
      obtain rfl := Except.ok.inj hs
      exact complains_stepReturn h i
  | _ =>
      rw [hr] at hs
      obtain ⟨hs, -⟩ := Prod.mk.inj hs
      obtain rfl := Except.ok.inj hs
      exact complains_stepLocal block h fun h => Role.noConfusion h

/-! ## 3. The operands of the instruction set -/

/-- Without a signature a call takes at most a pointer. -/
theorem callTakes_of_calledSig? {role : Role} (hrole : role ≠ .callIndirect)
    (h : sc.context.calledSig? i = none) : sc.callTakes i role = 0 := by
  have htarget : sc.target? i role = i.token?.bind sc.context.callee? := if_neg hrole
  have hpointer : (role == .callIndirect) = false := beq_eq_false_iff_ne.mpr hrole
  unfold Context.calledSig? at h
  unfold callTakes callEffect
  cases hcallee : i.token?.bind sc.context.callee? with
  | some callee =>
      rw [hcallee] at h
      cases h
  | none =>
      rw [hcallee] at h
      have h : i.token?.bind sc.context.store.callSite? = none := h
      rw [htarget, hcallee, h, hpointer]
      rfl

theorem callTakes_callIndirect (h : i.token?.bind sc.context.store.callSite? = none) :
    sc.callTakes i .callIndirect = 1 := by
  have htarget : sc.target? i .callIndirect = none := rfl
  unfold callTakes callEffect
  rw [htarget, h]
  rfl

theorem takes_of_opcode {k : Counts} (h : i.opcode.counts? = some k) : sc.takes i = k.takes := by
  unfold takes
  generalize i.opcode = op at h ⊢
  cases op <;> cases h <;> rfl

/-- **An instruction takes the operands that the instruction set says**, -/
theorem takes_of_counts? {k : Counts} (h : sc.context.counts? i = some k) :
    sc.takes i = k.takes := by
  have hcalled : ∀ {role : Role} {sig : MethodSig}, role ≠ .callIndirect →
      sc.context.calledSig? i = some sig → sc.callTakes i role =
        if role == .construct then sig.params.length else sig.operandCount := by
    intro role sig hrole hsig
    unfold callTakes
    rw [callEffect_of_calledSig? hrole hsig]
  unfold Context.counts? at h
  split at h
  case h_1 hop | h_2 hop | h_3 hop =>
    obtain ⟨sig, hsig, rfl⟩ := Option.map_eq_some_iff.mp h
    unfold takes
    rw [hop]
    exact hcalled (by decide) hsig
  case h_4 hop =>
    obtain ⟨sig, hsig, rfl⟩ := Option.map_eq_some_iff.mp h
    unfold takes
    rw [hop]
    show sc.callTakes i .callIndirect = _
    unfold callTakes
    rw [callEffect_callIndirect hsig]
  case h_5 hop =>
    obtain rfl := Option.some.inj h
    unfold takes
    rw [hop]
    rfl
  case h_6 => exact takes_of_opcode h

/-- **and a pointer at most where it does not say how many**. -/
theorem takes_le_of_counts? (h : sc.context.counts? i = none) : sc.takes i ≤ 1 := by
  unfold Context.counts? at h
  split at h
  case h_1 hop | h_2 hop | h_3 hop =>
    have hsig := Option.map_eq_none_iff.mp h
    unfold takes
    rw [hop]
    exact (Nat.le_of_eq (callTakes_of_calledSig? (by decide) hsig)).trans (Nat.zero_le 1)
  case h_4 hop =>
    have hsig := Option.map_eq_none_iff.mp h
    unfold takes
    rw [hop]
    exact Nat.le_of_eq (callTakes_callIndirect hsig)
  case h_5 => cases h
  case h_6 hcall hcallvirt hnewobj hcalli hret =>
    cases hop : i.opcode with
    | call => exact absurd hop hcall
    | callvirt => exact absurd hop hcallvirt
    | newobj => exact absurd hop hnewobj
    | calli => exact absurd hop hcalli
    | ret => exact absurd hop hret
    | _ =>
        rw [hop] at h
        cases h

end Scanner

/-! ## 4. Code -/

namespace Trace

variable {t u : Trace} {offset o : Nat} {os : List Observation}

/-- What is observed at an offset, in order. -/
def observedAt (t : Trace) (offset : Nat) : List Observation :=
  (t.observed.filter fun e => e.1 == offset).map Prod.snd

theorem Adds.observedAt_self (h : Adds offset os t u) :
    u.observedAt offset = t.observedAt offset ++ os := by
  have hall : (os.map (offset, ·)).filter (fun e => e.1 == offset) = os.map (offset, ·) := by
    refine List.filter_eq_self.mpr fun e he => ?_
    obtain ⟨_, _, rfl⟩ := List.mem_map.mp he
    exact beq_self_eq_true offset
  unfold observedAt
  rw [show u.observed = _ from h, List.filter_append, hall, List.map_append, List.map_map]
  exact congrArg (_ ++ ·) (List.map_id os)

theorem Adds.observedAt_of_ne (h : Adds offset os t u) (hne : offset ≠ o) :
    u.observedAt o = t.observedAt o := by
  have hnone : (os.map (offset, ·)).filter (fun e => e.1 == o) = [] := by
    refine List.filter_eq_nil_iff.mpr fun e he => ?_
    obtain ⟨_, _, rfl⟩ := List.mem_map.mp he
    simpa using hne
  unfold observedAt
  rw [show u.observed = _ from h, List.filter_append, hnone, List.append_nil]

end Trace

namespace Scanner

open Trace

variable {sc : Scanner} {i : Instruction} {t t' : Trace} {d block o : Nat}

theorem steps_append_inv {before rest : List Instruction} {session session' : Session}
    (h : (sc.steps block (before ++ rest) t).run session = (.ok t', session')) :
    ∃ u session₁, (sc.steps block before t).run session = (.ok u, session₁) ∧
      (sc.steps block rest u).run session₁ = (.ok t', session') := by
  induction before generalizing t session with
  | nil => exact ⟨t, session, rfl, h⟩
  | cons j before ih =>
      obtain ⟨v, session₁, hstep, hrest⟩ := steps_cons_inv h
      obtain ⟨u, session₂, hbefore, hafter⟩ := ih hrest
      refine ⟨u, session₂, ?_, hafter⟩
      unfold steps
      rw [Act.run_bind, hstep]
      exact hbefore

/-- Code observes nothing at the offsets of other instructions. -/
theorem observedAt_steps_of_ne {code : List Instruction} (hne : ∀ j ∈ code, j.offset ≠ o)
    (h : t.depth? = some d) {session session' : Session}
    (hs : (sc.steps block code t).run session = (.ok t', session')) :
    t'.observedAt o = t.observedAt o := by
  induction code generalizing t d session with
  | nil =>
      obtain ⟨hs, -⟩ := Prod.mk.inj hs
      obtain rfl := Except.ok.inj hs
      rfl
  | cons j rest ih =>
      obtain ⟨u, session₁, hstep, hrest⟩ := steps_cons_inv hs
      obtain ⟨_, hadds, _⟩ := complains_step h hstep
      rw [ih (fun k hk => hne k (List.mem_cons_of_mem _ hk)) (depth?_step h hstep) hrest,
        hadds.observedAt_of_ne (hne j List.mem_cons_self)]

/-- **What code complains about at one of its instructions**: the operands that are missing at the
    depth there, and one other thing at most. -/
theorem observedAt_steps {before after : List Instruction}
    (hoffsets : ((before ++ i :: after).map Instruction.offset).Pairwise (· < ·))
    (h : t.depth? = some d) {session session' : Session}
    (hs : (sc.steps block (before ++ i :: after) t).run session = (.ok t', session')) :
    ∃ rest, Single rest ∧ t'.observedAt i.offset = t.observedAt i.offset ++
      (List.replicate (sc.takes i - depthAfter sc.stackEffect before d) (.fault .stackUnderflow) ++
        rest) := by
  rw [List.pairwise_map] at hoffsets
  obtain ⟨_, hlater, hcross⟩ := List.pairwise_append.mp hoffsets
  have hbefore : ∀ j ∈ before, j.offset ≠ i.offset := fun j hj =>
    Nat.ne_of_lt (hcross j hj i List.mem_cons_self)
  have hafter : ∀ j ∈ after, j.offset ≠ i.offset := fun j hj =>
    Nat.ne_of_gt ((List.pairwise_cons.mp hlater).1 j hj)
  obtain ⟨u, session₁, hu, hs⟩ := steps_append_inv hs
  obtain ⟨v, session₂, hv, hs⟩ := steps_cons_inv hs
  have hdu := depth?_steps h hu
  obtain ⟨rest, hadds, hrest⟩ := complains_step hdu hv
  refine ⟨rest, hrest, ?_⟩
  rw [observedAt_steps_of_ne hafter (depth?_step hdu hv) hs, hadds.observedAt_self,
    observedAt_steps_of_ne hbefore h hu]

end Scanner

end ReflectionFlow

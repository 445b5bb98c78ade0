/-
  File:      ReflectionFlow/Proofs/Scan/Balance.lean
  Subject:   Balanced code is interpreted at its depths and without complaints.

  Code is balanced if each of its instructions can be given one depth such that operands are always
  there, a return finds the returned value alone, and every way to an instruction leads to its
  depth.  A block of balanced code that is entered at its depth is left at the depth of each block
  that comes after it, and nothing in it is a fault.  Where paths meet, stacks of one depth meet, so
  this carries over to the whole iteration.

  * `Observation.isFault`, `Trace.Faultless`
  * `Scanner.faultless_step`, `Scanner.faultless_steps`, `Scanner.faultless_transfer`
  * `Balanced`                  depths for the instructions of a body
  * `Balanced.leads_on`         from the depth of a block to those of the blocks after it
  * `Balanced.invariant`, `Balanced.faultless_reachable`   what every run keeps
  * `analyze_balanced`          what an analysis that converges has found
-/
import ReflectionFlow.Proofs.Code.Counts
import ReflectionFlow.Proofs.Flow.Representation
import ReflectionFlow.Proofs.Scan.Outcome
import ReflectionFlow.Proofs.Scan.Record

namespace ReflectionFlow

/-! ## 1. Traces without faults -/

/-- Is the observation a complaint about the code? -/
def Observation.isFault : Observation → Bool
  | .fault _ => true
  | _ => false

/-- Nothing that was observed is a complaint about the code. -/
def Trace.Faultless (t : Trace) : Prop := ∀ e ∈ t.observed, e.2.isFault = false

namespace Trace

variable {t u : Trace} {d offset : Nat}

theorem Faultless.withState (h : t.Faultless) (state : State) :
    Faultless { t with state := state } := h

theorem Faultless.push (h : t.Faultless) (v : ValueSet) : (t.push v).Faultless := h

theorem Faultless.observe (h : t.Faultless) (offset : Nat) {o : Observation} (ho : o.isFault = false) :
    (t.observe offset o).Faultless := by
  intro e he
  rcases List.mem_append.mp he with he | he
  · exact h e he
  · exact List.mem_singleton.mp he ▸ ho

theorem Faultless.flows (h : t.Faultless) (hf : FlowsAt offset t u) : u.Faultless := by
  intro e he
  rcases hf.observed e he with he | ⟨_, _, _, _, he⟩
  · exact h e he
  · rw [he]
    rfl

theorem Faultless.pop (h : t.Faultless) (hd : t.depth? = some d) (hpos : 0 < d) (offset : Nat) :
    (t.pop offset).2.Faultless := by
  rcases t.pop_cases offset with ⟨_, _, _, hp⟩ | ⟨hnil, _⟩
  · rw [hp]
    exact h.withState _
  · have hzero : t.state.stack.depth = 0 := congrArg List.length hnil
    rw [Stack.depth_of_depth? hd] at hzero
    omega

theorem Faultless.drop (h : t.Faultless) (hd : t.depth? = some d) {count : Nat} (hle : count ≤ d)
    (offset : Nat) : (t.drop offset count).Faultless := by
  induction count generalizing t d with
  | zero => exact h
  | succ count ih =>
      rw [drop_succ]
      exact ih (h.pop hd (by omega) offset) (depth?_pop hd offset) (by omega)

end Trace

/-! ## 2. Instructions -/

namespace Scanner

open Trace

variable {sc : Scanner} {i : Instruction} {t : Trace} {d d' : Nat}

theorem faultless_stepReturn (h : t.Faultless) (hd : t.depth? = some d)
    (hret : d = sc.method.sig.ret.resultCount) : (sc.stepReturn i t).Faultless := by
  -- an empty stack is no reason to complain
  have hclear : ∀ u : Trace, u.Faultless → u.depth? = some 0 →
      Faultless (if u.state.stack.fromTop.isEmpty then u
        else u.observe i.offset (.fault .stackNotEmpty)).clear := by
    intro u hu hempty
    obtain ⟨l, hl, hlen⟩ := Stack.depth?_eq_some.mp hempty
    obtain rfl := List.eq_nil_of_length_eq_zero hlen
    rw [hl]
    exact hu
  unfold stepReturn
  cases hvoid : sc.method.sig.ret.isVoid with
  | true =>
      rw [TypeSig.resultCount_eq, hvoid] at hret
      obtain rfl : d = 0 := hret
      exact hclear t h hd
  | false =>
      rw [TypeSig.resultCount_eq, hvoid] at hret
      obtain rfl : d = 1 := hret
      have hflows := (h.pop hd Nat.one_pos i.offset).flows
        (addsFlows_observeFlow _ i.offset (sc.popValue t i.offset).1 sc.needs.ret
          (.ret sc.method.name)).flows
      refine hclear _ hflows ?_
      exact (depth?_observeFlow _ _ _ _ _).trans (depth?_pop hd i.offset)

/-- An instruction that is neither a call nor loads a token makes sense where there is enough for it
    to take. -/
theorem faultless_stepLocal (block : Nat) (h : t.Faultless) (hd : t.depth? = some d)
    (hvar : i.namesVariable = true) (htakes : i.opcode.role.takes ≤ d)
    (hret : i.opcode.role = .ret → d = sc.method.sig.ret.resultCount) :
    (sc.stepLocal block i t i.opcode.role).Faultless := by
  have hpop : 1 ≤ d → (t.pop i.offset).2.Faultless := fun hpos => h.pop hd hpos i.offset
  have hpop₂ : 2 ≤ d → ((t.pop i.offset).2.pop i.offset).2.Faultless := fun htwo =>
    (hpop (by omega)).pop (depth?_pop hd i.offset) (by omega) i.offset
  cases hr : i.opcode.role with
  | consume pops leavesResult =>
      rw [hr] at htakes
      cases leavesResult with
      | false => exact h.drop hd htakes i.offset
      | true => exact (h.drop hd htakes i.offset).push _
  | unwind pops =>
      rw [hr] at htakes
      exact (h.drop hd htakes i.offset).withState _
  | loadArgument =>
      obtain ⟨n, hn⟩ := Instruction.exists_argumentIndex? hvar (Or.inl hr)
      show (sc.stepLoadArgument i t).Faultless
      unfold stepLoadArgument
      rw [hn]
      exact h.push _
  | storeArgument =>
      rw [hr] at htakes
      obtain ⟨n, hn⟩ := Instruction.exists_argumentIndex? hvar (Or.inr hr)
      show (sc.stepStoreArgument i t).Faultless
      rw [stepStoreArgument_eq, hn]
      exact (hpop htakes).flows (sc.addsFlows_storeArgument _ _ _ _ _).flows
  | storeLocal =>
      rw [hr] at htakes
      obtain ⟨n, hn⟩ := Instruction.exists_localIndex? hvar hr
      show (sc.stepStoreLocal i t).Faultless
      rw [stepStoreLocal_eq, hn]
      exact (hpop htakes).withState _
  | ret => exact faultless_stepReturn h hd (hret hr)
  | cast =>
      rw [hr] at htakes
      show (sc.stepCast i t).Faultless
      rw [stepCast_eq]
      split
      · exact ((hpop htakes).observe i.offset rfl).push _
      · exact (hpop htakes).push _
  | loadField ofInstance | fieldAddress ofInstance =>
      rw [hr] at htakes
      exact (h.drop hd htakes i.offset).push _
  | storeField ofInstance =>
      rw [hr] at htakes
      have htakes : 1 + ofInstance.toNat ≤ d := htakes
      have hdrop : ((t.pop i.offset).2.drop i.offset ofInstance.toNat).Faultless :=
        (hpop (by omega)).drop (depth?_pop hd i.offset) (by omega) i.offset
      show (sc.stepStoreField i ofInstance t).Faultless
      rw [stepStoreField_eq]
      split
      · exact hdrop.flows (sc.addsFlows_storeField _ _ _ _).flows
      · exact hdrop
  | storeIndirect =>
      rw [hr] at htakes
      exact (hpop₂ htakes).flows (sc.addsFlows_storeThrough block _ _ _ _).flows
  | clearIndirect =>
      rw [hr] at htakes
      exact (hpop htakes).flows (sc.addsFlows_storeThrough block _ _ _ _).flows
  | storeElement =>
      rw [hr] at htakes
      have htakes : 3 ≤ d := htakes
      have hpop₃ := (hpop₂ (by omega)).pop (depth?_pop (depth?_pop hd _) _) (by omega) i.offset
      exact hpop₃.flows (sc.addsFlows_storeElement i.offset block _ _ _ _).flows
  | elementAddress | loadElement =>
      rw [hr] at htakes
      exact (hpop₂ htakes).push _
  | duplicate =>
      rw [hr] at htakes
      exact ((hpop htakes).push _).push _
  | loadIndirect | box | newArray | arrayLength =>
      rw [hr] at htakes
      exact (hpop htakes).push _
  | argumentAddress | loadLocal | localAddress | loadNull | loadInt | loadString => exact h.push _
  | loadToken | call | construct | callIndirect => exact h

theorem faultless_takeOperands (h : t.Faultless) (hd : t.depth? = some d) (offset : Nat)
    (callee : MethodRef) (constructs : Bool)
    (hle : callee.instantiated.params.length +
      (if constructs then 0 else callee.method.hasThis.toNat) ≤ d) :
    (sc.takeOperands offset callee constructs t).2.2.Faultless := by
  have hdrop : (t.drop offset callee.instantiated.params.length).Faultless :=
    h.drop hd (by omega) offset
  unfold takeOperands
  cases constructs with
  | true => exact hdrop
  | false =>
      cases hthis : callee.method.hasThis with
      | false => exact hdrop
      | true =>
          have hle : callee.instantiated.params.length + callee.method.hasThis.toNat ≤ d := hle
          rw [hthis, Bool.toNat_true] at hle
          exact hdrop.pop (depth?_drop hd offset _) (by omega) offset

theorem faultless_leave (h : t.Faultless) (callee : MethodRef) (constructs : Bool)
    (returned : ValueSet) : (leave callee constructs returned t).Faultless := by
  unfold leave
  split
  · exact h.push _
  · exact h

/-- **A call makes sense that has a signature and finds its operands.** -/
theorem faultless_stepCall (h : t.Faultless) (hd : t.depth? = some d) {role : Role}
    {takes leaves : Nat} (heffect : sc.callEffect i role = .exchange takes leaves)
    (htakes : takes ≤ d) {block : Nat} {t' : Trace} {session session' : Session}
    (hs : (sc.stepCall block i role t).run session = (.ok t', session')) : t'.Faultless := by
  unfold callEffect at heffect
  unfold stepCall at hs
  cases ht : sc.target? i role with
  | some callee =>
      rw [ht] at hs heffect
      obtain ⟨rfl, _⟩ := StackEffect.exchange.inj heffect
      obtain ⟨returned, needs, intrinsic, rfl⟩ := call_inv hs
      refine Faultless.observe ?_ i.offset rfl
      exact (faultless_leave (faultless_takeOperands h hd _ callee _ htakes) callee _ returned).flows
        (sc.addsFlows_writeBack block _ callee needs _ _).flows
  | none =>
      rw [ht] at hs heffect
      obtain ⟨ht', _⟩ := Prod.mk.inj hs
      obtain rfl := Except.ok.inj ht'
      unfold opaqueCall
      cases hsig : i.token?.bind sc.context.store.callSite? with
      | none =>
          rw [hsig] at heffect
          cases heffect
      | some sig =>
          rw [hsig] at heffect
          obtain ⟨rfl, _⟩ := StackEffect.exchange.inj heffect
          have hpointer : (t.drop i.offset (role == .callIndirect).toNat).Faultless :=
            h.drop hd (by omega) i.offset
          have hdrop : ((t.drop i.offset (role == .callIndirect).toNat).drop i.offset
              (if role == .construct then sig.params.length else sig.stackArguments)).Faultless :=
            hpointer.drop (depth?_drop hd i.offset _) (by omega) i.offset
          dsimp only
          split
          · exact hdrop.push _
          · exact hdrop

/-- **An instruction makes sense where its counts allow it.** -/
theorem faultless_step (h : t.Faultless) (hd : t.depth? = some d) (hvar : i.namesVariable = true)
    (hafter : sc.context.depthAfter? i d = some d') {block : Nat} {t' : Trace}
    {session session' : Session}
    (hs : (sc.step block i t).run session = (.ok t', session')) : t'.Faultless := by
  unfold step at hs
  cases hr : i.opcode.role with
  | loadToken =>
      rw [hr, Act.run_bind] at hs
      obtain ⟨hs, -⟩ := Prod.mk.inj hs
      obtain rfl := Except.ok.inj hs
      exact h.push _
  | call | construct | callIndirect =>
      rw [hr] at hs
      obtain ⟨takes, leaves, heffect, htakes⟩ := callEffect_inv hafter hr (by decide)
      exact faultless_stepCall h hd heffect htakes hs
  | _ =>
      have hlocal := faultless_stepLocal block h hd hvar (Context.takes_role_le hafter)
        (Context.depth_of_ret hafter)
      rw [hr] at hs hlocal
      obtain ⟨hs, -⟩ := Prod.mk.inj hs
      obtain rfl := Except.ok.inj hs
      exact hlocal

end Scanner

/-! ## 3. Blocks -/

/-- The depth after a list of instructions, if they can be executed one after the other. -/
def Context.depthThrough? (c : Context) : List Instruction → Nat → Option Nat
  | [], d => some d
  | i :: rest, d => (c.depthAfter? i d).bind (c.depthThrough? rest)

/-- No complaint about the code is on record. -/
def Progress.Faultless (p : Progress) : Prop := ∀ e ∈ p.log.entries, e.2.isFault = false

namespace Scanner

variable {sc : Scanner} {g : FlowGraph} {body : Body} {d d' : Nat}

/-- **Code that can be executed is interpreted without complaints**, and changes the depth by its
    counts. -/
theorem faultless_steps {block : Nat} {code : List Instruction} {t t' : Trace} (h : t.Faultless)
    (hd : t.depth? = some d) (hvar : ∀ i ∈ code, i.namesVariable = true)
    (hthrough : sc.context.depthThrough? code d = some d') {session session' : Session}
    (hs : (sc.steps block code t).run session = (.ok t', session')) :
    t'.Faultless ∧ t'.depth? = some d' := by
  induction code generalizing t d session with
  | nil =>
      obtain ⟨hs, -⟩ := Prod.mk.inj hs
      obtain rfl := Except.ok.inj hs
      exact ⟨h, hd.trans hthrough⟩
  | cons i rest ih =>
      obtain ⟨u, session₁, hstep, hrest⟩ := steps_cons_inv hs
      obtain ⟨d₁, hafter, hthrough⟩ := Option.bind_eq_some_iff.mp hthrough
      have hdepth := depth?_step hd hstep
      rw [apply_stackEffect hafter] at hdepth
      exact ih (faultless_step h hd (hvar i List.mem_cons_self) hafter hstep) hdepth
        (fun j hj => hvar j (List.mem_cons_of_mem _ hj)) hthrough hrest

/-- **A visit of code that can be executed** changes the depth by its counts and adds no complaint to
    the record. -/
theorem faultless_transfer {n : Nat} {x y : State} {p p' : Progress} (hd : x.stack.depth? = some d)
    (hvar : ∀ i ∈ body.instructions, i.namesVariable = true)
    (hthrough : sc.context.depthThrough? (g.codeOf body n) d = some d')
    (h : sc.transfer g body n x p = (.ok y, p')) :
    y.stack.depth? = some d' ∧ (p.Faultless → p'.Faultless) := by
  obtain ⟨t, hs, rfl, hlog⟩ := transfer_log_inv h
  have hentered : x.entered.stack.depth? = some d := by
    rw [x.depth?_entered, Stack.depth_of_depth? hd]
  obtain ⟨hfaultless, hdepth⟩ := faultless_steps (t := { state := x.entered })
    (fun e he => absurd he List.not_mem_nil) hentered
    (fun i hi => hvar i (FlowGraph.mem_of_mem_codeOf hi)) hthrough hs
  refine ⟨hdepth, fun hp e he => ?_⟩
  rcases hlog e he with he | he
  · exact hp e he
  · exact hfaultless _ he

end Scanner

/-! ## 4. Balanced bodies -/

/-- The code of a block, if it has any: entry and exit have none. -/
def FlowGraph.code? (g : FlowGraph) (n : Nat) : Option CodeBlock := (g.block? n).bind Block.code?

theorem FlowGraph.code?_eq_some {g : FlowGraph} {n : Nat} {b : CodeBlock} :
    g.code? n = some b ↔ g.block? n = some (.code b) := by
  unfold code?
  cases g.block? n with
  | none => exact ⟨nofun, nofun⟩
  | some block => cases block <;> simp [Block.code?]

theorem FlowGraph.codeOf_eq_nil {g : FlowGraph} {body : Body} {n : Nat} (h : g.code? n = none) :
    g.codeOf body n = [] := by
  have hrange : (g.block? n).bind Block.range? = (g.code? n).map fun c => (c.first, c.stop) := by
    unfold code?
    cases g.block? n <;> rfl
  unfold codeOf
  rw [hrange, h]
  rfl

/-- **Depths for the instructions of a body**, by their positions.  Every instruction finds what it
    takes, and a return nothing else; every call has a signature.  The method is entered with an
    empty stack and a handler with the exception, if its kind receives one.  Inside a block and along
    every edge between blocks of code the depth after an instruction is that of the next one. -/
structure Balanced (c : Context) (body : Body) (g : FlowGraph) (depth : Nat → Nat) : Prop where
  entry : depth 0 = 0
  handler : ∀ h ∈ g.handlers, ∀ b ∈ g.code? h.1, depth b.first = h.2.receivesException.toNat
  allowed : ∀ pc < body.instructions.length, ∀ i ∈ body.instructions[pc]?,
    (c.depthAfter? i (depth pc)).isSome = true
  inside : ∀ n < g.blockCount, ∀ b ∈ g.code? n, ∀ pc < b.stop - 1, b.first ≤ pc →
    ∀ i ∈ body.instructions[pc]?, c.depthAfter? i (depth pc) = some (depth (pc + 1))
  edge : ∀ n < g.blockCount, ∀ b ∈ g.code? n, ∀ m ∈ g.graph.successors n, ∀ e ∈ g.code? m,
    ∀ i ∈ body.instructions[b.stop - 1]?, c.depthAfter? i (depth (b.stop - 1)) = some (depth e.first)

/-- Every instruction of a body names the argument or local variable that it cannot do without. -/
def Body.Indexed (b : Body) : Prop := ∀ i ∈ b.instructions, i.namesVariable = true

/-- A block is entered at the depth it is given. -/
def FlowGraph.EntersAt (g : FlowGraph) (depth : Nat → Nat) (n d : Nat) : Prop :=
  (n = g.entry → d = 0) ∧ ∀ b, g.block? n = some (.code b) → d = depth b.first

namespace Balanced

open FlowGraph

variable {c : Context} {body : Body} {g : FlowGraph} {depth : Nat → Nat}

/-- **A block of balanced code can be executed at its depth**, up to what its last instruction
    leaves. -/
theorem depthThrough?_codeOf (h : Balanced c body g depth) (hd : Drawn body g) {k : Nat}
    {b : CodeBlock} (hb : body.blocks[k]? = some b) :
    ∃ last d, body.instructions[b.stop - 1]? = some last ∧
      c.depthAfter? last (depth (b.stop - 1)) = some d ∧
      c.depthThrough? (g.codeOf body (k + 1)) (depth b.first) = some d := by
  have hfirst := Body.first_lt_stop hb
  have hstop := Body.stop_le_length hb
  have hcode := code?_eq_some.mpr (hd.block?_succ hb)
  have hlt : b.stop - 1 < body.instructions.length := by omega
  have hlast : body.instructions[b.stop - 1]? = some body.instructions[b.stop - 1] :=
    List.getElem?_eq_getElem hlt
  obtain ⟨d, hafter⟩ := Option.isSome_iff_exists.mp (h.allowed _ hlt _ hlast)
  refine ⟨_, d, hlast, hafter, ?_⟩
  -- by the number of instructions that are left in the block
  have hwalk : ∀ left pc, b.first ≤ pc → pc + left + 1 = b.stop →
      c.depthThrough? ((body.instructions.drop pc).take (left + 1)) (depth pc) = some d := by
    intro left
    induction left with
    | zero =>
        intro pc _ hpc
        obtain rfl : pc = b.stop - 1 := by omega
        rw [List.drop_eq_getElem_cons hlt]
        show (c.depthAfter? _ _).bind _ = _
        rw [hafter]
        rfl
    | succ left ih =>
        intro pc hf hpc
        have hin : pc < body.instructions.length := by omega
        have hnext := h.inside _ (hd.succ_lt hb) b hcode pc (by omega) hf _
          (List.getElem?_eq_getElem hin)
        rw [List.drop_eq_getElem_cons hin, List.take_succ_cons]
        show (c.depthAfter? _ _).bind _ = _
        rw [hnext]
        exact ih (pc + 1) (by omega) (by omega)
  rw [codeOf_eq hd hb]
  obtain ⟨left, hleft⟩ : ∃ left, b.stop - b.first = left + 1 := ⟨b.stop - b.first - 1, by omega⟩
  rw [hleft]
  exact hwalk left b.first (Nat.le_refl _) (by omega)

/-- **Balanced code leads from depth to depth**: a block that is entered at its depth can be executed,
    and every block after it is entered at its own. -/
theorem leads_on (h : Balanced c body g depth) (hinc : body.Increasing) (hg : ofBody body = .ok g)
    {n d : Nat} (hn : g.EntersAt depth n d) :
    ∃ d', c.depthThrough? (g.codeOf body n) d = some d' ∧
      ∀ m ∈ g.graph.successors n, g.EntersAt depth m d' := by
  obtain ⟨_, _, hd⟩ := ofBody_inv hg
  obtain ⟨hedges, _⟩ := ofBody_edges hg
  cases hcode : g.code? n with
  | some b =>
      obtain ⟨k, rfl, hb⟩ := hd.block_of_block? (code?_eq_some.mp hcode)
      obtain rfl := hn.2 b (code?_eq_some.mp hcode)
      obtain ⟨last, d', hlast, hafter, hthrough⟩ := h.depthThrough?_codeOf hd hb
      refine ⟨d', hthrough, fun m hm => ⟨?_, fun e he => ?_⟩⟩
      · -- no edge leads back to the entry
        rintro rfl
        rcases (hd.mem_successors_iff hedges hinc hb _).mp hm with ⟨e, he, _⟩ | ⟨hexit, _⟩
        · obtain ⟨j, hj, _⟩ := hd.block_of_block? he
          cases hj
        · rw [hd.exit_eq] at hexit
          cases hexit
      · have hedge := h.edge _ (hd.succ_lt hb) b hcode m hm e (code?_eq_some.mpr he) last hlast
        exact Option.some.inj (hafter.symm.trans hedge)
  | none =>
      refine ⟨d, by rw [codeOf_eq_nil hcode]; rfl, fun m hm => ?_⟩
      obtain ⟨e, he, rfl, rfl⟩ := Digraph.mem_successors.mp hm
      rcases hedges e he with ⟨hs, ht⟩ | ⟨k, b, _, _, _, hb, hs, _⟩
      · rw [ht]
        refine ⟨nofun, fun b hb => ?_⟩
        obtain ⟨k, hk, hb⟩ := hd.block_of_block? hb
        obtain rfl := Nat.succ.inj hk
        rw [Body.first_eq_zero hb, h.entry]
        exact hn.1 hs
      · rw [hs, code?_eq_some.mpr (hd.block?_succ hb)] at hcode
        cases hcode

/-- **In every run blocks are entered at their depths.** -/
theorem invariant {sc : Scanner} (h : Balanced sc.context body g depth) (hvar : body.Indexed)
    (hinc : body.Increasing) (hg : ofBody body = .ok g) :
    Invariant g (sc.analysis g body)
      (fun n x => x.Whole ∧ ∀ d, x.stack.depth? = some d → g.EntersAt depth n d)
      (fun n y => y.Whole ∧ ∀ d, y.stack.depth? = some d →
        ∀ m ∈ g.graph.successors n, g.EntersAt depth m d)
      (fun _ => True) where
  topIn _ := ⟨fun _ => rfl, fun _ h => by cases h⟩
  topOut _ := ⟨fun _ => rfl, fun _ h => by cases h⟩
  meet n x y hx hy := by
    refine ⟨hx.1.meet hy.1, fun d hd => ?_⟩
    have hd : (x.meet y).stack.depth? = some d := hd
    rw [State.stack_meet] at hd
    rcases Stack.depth?_meet hd with hd | hd
    · exact hx.2 d hd
    · exact hy.2 d hd
  boundary e he := by
    obtain ⟨_, _, hdrawn⟩ := ofBody_inv hg
    refine ⟨Scanner.whole_boundary e he, fun d hd => ?_⟩
    rcases List.mem_cons.mp he with rfl | he
    · obtain rfl := Option.some.inj hd
      refine ⟨fun _ => rfl, fun b hb => ?_⟩
      obtain ⟨k, hk, _⟩ := hdrawn.block_of_block? hb
      cases hk
    · obtain ⟨k, hk, rfl⟩ := List.mem_map.mp he
      obtain rfl := Option.some.inj ((Scanner.depth?_handlerState k.2).symm.trans hd)
      refine ⟨fun hentry => ?_, fun b hb => (h.handler k hk b (code?_eq_some.mpr hb)).symm⟩
      obtain ⟨j, _, hj, _⟩ := hdrawn.handler_inv hk
      exact absurd (hj.symm.trans hentry) (Nat.succ_ne_zero j)
  edge e he y hy := by
    refine ⟨hy.1, fun d hd => hy.2 d hd _ ?_⟩
    exact Digraph.mem_successors.mpr ⟨e, he, rfl, rfl⟩
  transfer n _ x y _ _ hx hnt _ ht := by
    have hd := hx.1.depth?_eq hnt
    obtain ⟨d', hthrough, hsucc⟩ := h.leads_on hinc hg (hx.2 _ hd)
    obtain ⟨hdepth, _⟩ := Scanner.faultless_transfer hd hvar hthrough ht
    refine ⟨State.whole_of_depth? hdepth, fun e he => ?_⟩
    obtain rfl := Option.some.inj (hdepth.symm.trans he)
    exact hsucc
  observe _ _ _ _ _ _ _ _ := trivial

/-- In every run no complaint about the code goes on record. -/
theorem faultless_reachable {sc : Scanner} (h : Balanced sc.context body g depth)
    (hvar : body.Indexed) (hinc : body.Increasing) (hg : ofBody body = .ok g) {p : Progress}
    (hp : p.Faultless) {it : Iteration State Progress} (hr : Reachable g (sc.analysis g body) p it) :
    it.observed.Faultless := by
  refine (h.invariant hvar hinc hg).observed_reachable ?_ trivial hp hr
  intro n x y q q' hx hnt hq ht
  have hd := hx.1.depth?_eq hnt
  obtain ⟨d', hthrough, _⟩ := h.leads_on hinc hg (hx.2 _ hd)
  exact (Scanner.faultless_transfer hd hvar hthrough ht).2 hq

end Balanced

/-- **Balanced code is analyzed at its depths and without complaints.**  If an analysis of a method
    with a balanced body converges, each block of code that has been reached is entered exactly at
    the depth of its first instruction, and no fault of the code is on record. -/
theorem analyze_balanced {s : Store} {config : Config} {token : Token}
    {typeArgs methodArgs : List TypeSig} {m : MethodDef} {body : Body} {g : FlowGraph}
    {depth : Nat → Nat} {session after : Session} {report : MethodReport}
    (hm : s.methodDef? token = some m) (hb : s.body? m.token = some body) (hinc : body.Increasing)
    (hvar : body.Indexed) (hg : FlowGraph.ofBody body = .ok g)
    (hbalanced : Balanced ⟨s, config, m, typeArgs, methodArgs⟩ body g depth)
    (h : (s.analyze config token typeArgs methodArgs).run session = (.ok report, after))
    (hc : report.hasConverged = true) :
    ∃ solution p session',
      (Context.iterate ⟨s, config, m, typeArgs, methodArgs⟩ body g).run session =
        (.ok (solution, p), session') ∧
      report.states = some solution ∧
      (∀ n b x, g.block? n = some (.code b) → solution.inputs[n]? = some x → x.isTop = false →
        x.stack.depth? = some (depth b.first)) ∧
      ∀ e ∈ p.log.entries, e.2.isFault = false := by
  obtain ⟨g', solution, p, session', hg', hiterate, _, rfl⟩ :=
    Context.analyzeBody_ok (Store.analyze_converged hm hb h hc)
  obtain rfl := Except.ok.inj (hg.symm.trans hg')
  obtain ⟨it, hreach, _, hinputs, _, hobserved⟩ := Reachable.of_solve (Context.iterate_ok hiterate)
  refine ⟨solution, p, session', hiterate, rfl, ?_, ?_⟩
  · intro n b x hn hx hreached
    rw [← hinputs] at hx
    have hin := ((hbalanced.invariant hvar hinc hg).reachable trivial hreach).inputs n x hx
    have hdepth := hin.1.depth?_eq hreached
    rw [hdepth, (hin.2 _ hdepth).2 b hn]
  · rw [← hobserved]
    exact hbalanced.faultless_reachable hvar hinc hg (fun e he => absurd he List.not_mem_nil) hreach

namespace Joining

/-- Takes an object and returns one; it has no body. -/
def choose : MethodDef where
  token := ⟨0x06000001⟩
  declaring := ⟨0x02000001⟩
  name := "F"
  flags := 0x16
  sig := ⟨false, false, 0, .prim .object, [.prim .object]⟩
  paramNames := ["arg0"]

def method : MethodDef where
  token := ⟨0x06000002⟩
  declaring := ⟨0x02000001⟩
  name := "M"
  flags := 0x16
  sig := ⟨false, false, 0, .prim .object, [.prim .object]⟩
  paramNames := ["arg0"]

/-- Two paths meet with one operand each, a call takes it, and an exception is dropped. -/
def body : Body where
  maxStack := 1
  initLocals := false
  locals := []
  instructions :=
    [⟨0, .ldarg0, .empty⟩, ⟨1, .brtrueS, .target 6⟩,
     ⟨3, .ldnull, .empty⟩, ⟨4, .brS, .target 7⟩,
     ⟨6, .ldarg0, .empty⟩,
     ⟨7, .call, .token choose.token⟩, ⟨12, .pop, .empty⟩, ⟨13, .leaveS, .target 18⟩,
     ⟨15, .pop, .empty⟩, ⟨16, .leaveS, .target 18⟩,
     ⟨18, .ldnull, .empty⟩, ⟨19, .ret, .empty⟩]
  clauses := [⟨0, 0, 15, 15, 3, some ⟨0x02000001⟩, none⟩]

def graph : FlowGraph where
  graph :=
    { nodes := [.entry, .code ⟨none, 0, 0, 2⟩, .code ⟨none, 3, 2, 4⟩, .code ⟨none, 6, 4, 5⟩,
        .code ⟨none, 7, 5, 8⟩, .code ⟨some .catchTyped, 15, 8, 10⟩, .code ⟨none, 18, 10, 12⟩, .exit]
      edges := [⟨0, 1, .entry⟩, ⟨1, 3, .conditionalTrue⟩, ⟨1, 2, .conditionalFalse⟩, ⟨2, 4, .branch⟩,
        ⟨3, 4, .fallthrough⟩, ⟨4, 6, .branch⟩, ⟨5, 6, .branch⟩, ⟨6, 7, .exit⟩] }
  handlers := [(5, .catchTyped)]
  starts := [(0, 1), (3, 2), (6, 3), (7, 4), (15, 5), (18, 6)]

def depth (pc : Nat) : Nat := [0, 1, 0, 1, 0, 1, 1, 0, 1, 0, 0, 1][pc]?.getD 0

def store : Store := .ofList
  [.type "app" "N" "C" 1 none, .method choose.declaring choose.name choose.flags choose.sig,
   .method method.declaring method.name method.flags method.sig, .body method.token body]

theorem balanced : Balanced ⟨store, {}, method, [], []⟩ body graph depth where
  entry := rfl
  handler := by decide +kernel
  allowed := by decide +kernel
  inside := by decide +kernel
  edge := by decide +kernel

/-- The analysis converges and reaches every block. -/
theorem reached : ((store.analyze {} method.token).run {}).1.toOption.map (fun report =>
      (report.hasConverged, report.states.map fun solution => solution.inputs.map State.isTop)) =
    some (true, some (List.replicate 8 false)) := by
  decide +kernel

end Joining

/-- The paths meet at depth one, the handler is entered with the exception, and nothing is wrong. -/
theorem joining_balanced : ∃ solution p session',
    (Context.iterate ⟨Joining.store, {}, Joining.method, [], []⟩ Joining.body Joining.graph).run {} =
      (.ok (solution, p), session') ∧
    solution.inputs[4]?.map (·.stack.depth?) = some (some 1) ∧
    solution.inputs[5]?.map (·.stack.depth?) = some (some 1) ∧
    ∀ e ∈ p.log.entries, e.2.isFault = false := by
  have hreached := Joining.reached
  generalize hanswer : (Joining.store.analyze {} Joining.method.token).run {} = answer at hreached
  obtain ⟨fault | report, after⟩ := answer
  · cases hreached
  obtain ⟨hc, hstates⟩ := Prod.mk.inj (Option.some.inj hreached)
  have hinc : Joining.body.Increasing := by unfold Body.Increasing; decide
  have hvar : Joining.body.Indexed := by unfold Body.Indexed; decide
  obtain ⟨solution, p, session', hiterate, hsolution, hdepths, hlog⟩ := analyze_balanced
    (m := Joining.method) (by decide +kernel) (by decide +kernel) hinc hvar (by decide +kernel)
    Joining.balanced hanswer hc
  rw [hsolution] at hstates
  have htops := Option.some.inj hstates
  -- a block of the list of blocks that have been reached
  have hblock : ∀ n b, Joining.graph.block? n = some (.code b) → n < 8 →
      solution.inputs[n]?.map (·.stack.depth?) = some (some (Joining.depth b.first)) := by
    intro n b hn hlt
    have htop := congrArg (·[n]?) htops
    simp only [List.getElem?_map, List.getElem?_replicate, if_pos hlt] at htop
    obtain ⟨x, hx, hreached⟩ := Option.map_eq_some_iff.mp htop
    rw [hx, Option.map_some, hdepths n b x hn hx hreached]
  exact ⟨solution, p, session', hiterate, hblock 4 _ rfl (by decide), hblock 5 _ rfl (by decide), hlog⟩

end ReflectionFlow

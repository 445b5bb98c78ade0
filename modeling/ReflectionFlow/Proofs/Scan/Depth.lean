/-
  File:      ReflectionFlow/Proofs/Scan/Depth.lean
  Subject:   How deep the evaluation stack gets.

  Every instruction changes the depth of the stack in a way of its own, whatever the slots hold:
  it takes operands, as far as there are any, and leaves results, or it gives the stack up.  Where
  paths meet, the deeper stack decides, so an iteration can end only if there is a bound on the
  depths of all paths.

  * `StackEffect`, `Role.stackEffect`, `Scanner.stackEffect`
  * `Scanner.depth?_stepLocal`, `Scanner.depth?_step`, `Scanner.depth?_transfer`
  * `FlowGraph.DepthAt`          the depths with which paths enter a block
  * `FlowGraph.StackBounded`     there is a bound on them
  * `Scanner.bounded_of_solve`   an iteration that has ended has found one
-/
import Mathlib.Algebra.Order.BigOperators.Group.List
import Mathlib.Algebra.Order.Group.Nat
import ReflectionFlow.Proofs.Flow.Blocks
import ReflectionFlow.Proofs.Scan.Steps

namespace ReflectionFlow

/-! ## 1. Depths -/

/-- Number of slots of a stack that is there. -/
def Stack.depth? : Stack → Option Nat
  | .top => none
  | .slots l => some l.length

/-- Number of slots of the stack of a trace. -/
def Trace.depth? (t : Trace) : Option Nat := t.state.stack.depth?

theorem Stack.depth?_eq_some {s : Stack} {d : Nat} :
    s.depth? = some d ↔ ∃ l, s = .slots l ∧ l.length = d := by
  constructor
  · intro h
    cases s with
    | top => cases h
    | slots l => exact ⟨l, rfl, Option.some.inj h⟩
  · rintro ⟨l, rfl, rfl⟩
    rfl

theorem Stack.depth_of_depth? {s : Stack} {d : Nat} (h : s.depth? = some d) : s.depth = d := by
  obtain ⟨l, rfl, rfl⟩ := depth?_eq_some.mp h
  rfl

theorem Stack.depth?_update (s : Stack) (f : ValueSet → Option ValueSet) :
    (s.update f).depth? = s.depth? := by
  cases s with
  | top => rfl
  | slots l => exact congrArg some (List.length_map _)

/-- Where stacks meet, one of them has the depth of the result. -/
theorem Stack.depth?_meet {s t : Stack} {d : Nat} (h : (s.meet t).depth? = some d) :
    s.depth? = some d ∨ t.depth? = some d := by
  cases s with
  | top => exact Or.inr h
  | slots a =>
      cases t with
      | top => exact Or.inl h
      | slots b =>
          have hlen : (meetSlots a b).length = d := Option.some.inj h
          rw [length_meetSlots] at hlen
          rcases Nat.le_total a.length b.length with hab | hab
          · exact Or.inr (congrArg some ((Nat.max_eq_right hab).symm.trans hlen))
          · exact Or.inl (congrArg some ((Nat.max_eq_left hab).symm.trans hlen))

theorem State.depth?_entered (x : State) : x.entered.stack.depth? = some x.stack.depth := by
  obtain ⟨_, k⟩ := x
  cases k <;> rfl

namespace Trace

variable {t : Trace} {d : Nat}

theorem depth?_push (h : t.depth? = some d) (v : ValueSet) : (t.push v).depth? = some (d + 1) := by
  obtain ⟨l, hl, rfl⟩ := Stack.depth?_eq_some.mp h
  show (t.state.stack.push v).depth? = _
  rw [hl]
  rfl

theorem depth?_pop (h : t.depth? = some d) (offset : Nat) :
    (t.pop offset).2.depth? = some (d - 1) := by
  obtain ⟨l, hl, rfl⟩ := Stack.depth?_eq_some.mp h
  rcases t.pop_cases offset with ⟨w, r, hs, hp⟩ | ⟨hnil, hp⟩
  · obtain rfl := Stack.slots.inj (hl.symm.trans hs)
    rw [hp]
    rfl
  · rw [hl] at hnil
    obtain rfl : l = [] := hnil
    rw [hp]
    exact h

theorem depth?_drop (h : t.depth? = some d) (offset count : Nat) :
    (t.drop offset count).depth? = some (d - count) := by
  induction count generalizing t d with
  | zero => exact h
  | succ count ih =>
      rw [drop_succ, ih (depth?_pop h offset), Nat.sub_sub, Nat.add_comm 1]

theorem depth?_observeFlow (t : Trace) (offset : Nat) (v : ValueSet) (need : Categories)
    (place : Place) : (t.observeFlow offset v need place).depth? = t.depth? := by
  unfold depth?
  rw [state_observeFlow]

end Trace

/-! ## 2. Effects -/

/-- What an instruction does to the depth of the stack. -/
inductive StackEffect where
  /-- Takes operands, as far as there are any, and leaves results. -/
  | exchange (takes leaves : Nat)
  /-- Gives up the stack and leaves results. -/
  | reset (leaves : Nat)
  deriving DecidableEq, Repr

/-- The depth after an instruction. -/
def StackEffect.apply : StackEffect → Nat → Nat
  | .exchange takes leaves, d => d - takes + leaves
  | .reset leaves, _ => leaves

theorem StackEffect.apply_mono (e : StackEffect) {d d' : Nat} (h : d ≤ d') :
    e.apply d ≤ e.apply d' := by
  cases e with
  | exchange takes leaves =>
      show d - takes + leaves ≤ d' - takes + leaves
      omega
  | reset leaves => exact Nat.le_refl _

/-- What the instructions of a role do to the depth.  Tokens and calls are not among them. -/
def Role.stackEffect : Role → StackEffect
  | .consume pops leavesResult => .exchange pops leavesResult.toNat
  | .unwind _ | .ret => .reset 0
  | .duplicate => .exchange 1 2
  | .loadArgument | .argumentAddress | .loadLocal | .localAddress | .loadNull | .loadInt
  | .loadString => .exchange 0 1
  | .storeArgument | .storeLocal | .clearIndirect => .exchange 1 0
  | .loadIndirect | .box | .cast | .newArray | .arrayLength => .exchange 1 1
  | .storeIndirect => .exchange 2 0
  | .loadField ofInstance | .fieldAddress ofInstance => .exchange ofInstance.toNat 1
  | .storeField ofInstance => .exchange (1 + ofInstance.toNat) 0
  | .elementAddress | .loadElement => .exchange 2 1
  | .storeElement => .exchange 3 0
  | .loadToken | .call | .construct | .callIndirect => .exchange 0 0

namespace Scanner

/-- What a call does to the depth: its target or a signature says so, or the stack is given up. -/
def callEffect (sc : Scanner) (i : Instruction) (role : Role) : StackEffect :=
  let constructs := role == .construct
  match sc.target? i role with
  | some callee =>
    .exchange (callee.instantiated.params.length +
      if constructs then 0 else callee.method.hasThis.toNat)
      (constructs || !callee.instantiated.ret.isVoid).toNat
  | none => match i.token?.bind sc.context.store.callSite? with
    | some sig =>
      .exchange ((role == .callIndirect).toNat +
        if constructs then sig.params.length else sig.stackArguments)
        (constructs || !sig.ret.isVoid).toNat
    | none => .reset constructs.toNat

/-- **What an instruction does to the depth.** -/
def stackEffect (sc : Scanner) (i : Instruction) : StackEffect :=
  match i.opcode.role with
  | .loadToken => .exchange 0 1
  | .call => sc.callEffect i .call
  | .construct => sc.callEffect i .construct
  | .callIndirect => sc.callEffect i .callIndirect
  | role => role.stackEffect

end Scanner

/-- The depth after a list of instructions. -/
def depthAfter (effect : Instruction → StackEffect) (code : List Instruction) (d : Nat) : Nat :=
  code.foldl (fun d i => (effect i).apply d) d

theorem depthAfter_mono (effect : Instruction → StackEffect) {d d' : Nat} (h : d ≤ d')
    (code : List Instruction) : depthAfter effect code d ≤ depthAfter effect code d' := by
  unfold depthAfter
  induction code generalizing d d' with
  | nil => exact h
  | cons i rest ih => exact ih ((effect i).apply_mono h)

/-! ## 3. Interpretation follows the effects -/

namespace Scanner

variable {sc : Scanner} {i : Instruction} {t : Trace} {d : Nat}

theorem depth?_popElement (h : t.depth? = some d) :
    (sc.popElement i t).2.2.depth? = some (d - 2) :=
  Trace.depth?_pop (Trace.depth?_pop h i.offset) i.offset

theorem depth?_storeArgument (offset : Nat) (n : UInt16) (v : ValueSet) (certain : Bool) (t : Trace) :
    (sc.storeArgument offset n v certain t).depth? = t.depth? := by
  show (sc.observeArgument offset n v t).state.stack.depth? = _
  rw [state_observeArgument]
  rfl

theorem depth?_storeField (offset : Nat) (f : Token) (v : ValueSet) (t : Trace) :
    (sc.storeField offset f v t).depth? = t.depth? := by
  unfold Trace.depth?
  rw [state_storeField]

theorem depth?_storeVersions (block : Nat) (versions : List ArrayValue) (index : Option Int32)
    (v : ValueSet) (t : Trace) : (sc.storeVersions block versions index v t).depth? = t.depth? := by
  unfold storeVersions
  split
  · rfl
  · exact t.state.stack.depth?_update _

theorem depth?_storeElement (block : Nat) (array index v : ValueSet) (t : Trace) :
    (sc.storeElement block array index v t).depth? = t.depth? :=
  List.foldlRecOn (motive := fun u : Trace => u.depth? = t.depth?) _ _ rfl fun u hu _ _ =>
    (sc.depth?_storeVersions _ _ _ _ u).trans hu

theorem depth?_write (block offset : Nat) (v : ValueSet) (certain : Bool) (t : Trace) (l : Location) :
    (sc.write block offset v certain t l).depth? = t.depth? := by
  cases l with
  | loc n => rfl
  | arg n => exact sc.depth?_storeArgument _ _ _ _ t
  | this => exact sc.depth?_storeArgument _ _ _ _ t
  | field f => exact sc.depth?_storeField _ _ _ t
  | element site index => exact sc.depth?_storeVersions _ _ _ _ t
  | parameterTarget n => exact t.depth?_observeFlow _ _ _ _
  | returnSlot m => rfl

/-- A store through addresses leaves the depth alone, whatever they refer to. -/
theorem depth?_storeThrough (block offset : Nat) (address v : ValueSet) (t : Trace) :
    (sc.storeThrough block offset address v t).depth? = t.depth? := by
  refine List.foldlRecOn (motive := fun u : Trace => u.depth? = t.depth?) _ _ rfl fun u hu w _ => ?_
  split
  · exact (sc.depth?_write _ _ _ _ u _).trans hu
  · exact hu

theorem depth?_writeBack (block offset : Nat) (callee : MethodRef) (needs : Needs)
    (operands : List ValueSet) (t : Trace) :
    (sc.writeBack block offset callee needs operands t).depth? = t.depth? := by
  refine List.foldlRecOn (motive := fun u : Trace => u.depth? = t.depth?) _ _ rfl fun u hu e _ => ?_
  obtain ⟨⟨param, address⟩, index⟩ := e
  show (if _ then _ else u).depth? = _
  split
  · exact (sc.depth?_storeThrough _ _ _ _ u).trans hu
  · exact hu

/-- **An instruction that is neither a call nor loads a token changes the depth as its role says.** -/
theorem depth?_stepLocal (block : Nat) (h : t.depth? = some d) (role : Role) :
    (sc.stepLocal block i t role).depth? = some (role.stackEffect.apply d) := by
  have hpush : ∀ v, (t.push v).depth? = some (d - 0 + 1) := fun v => Trace.depth?_push h v
  have hpop := Trace.depth?_pop h i.offset
  cases role with
  | consume pops leavesResult =>
      have hdrop := Trace.depth?_drop h i.offset pops
      cases leavesResult with
      | false => exact hdrop
      | true => exact Trace.depth?_push hdrop _
  | unwind pops => rfl
  | duplicate => exact Trace.depth?_push (Trace.depth?_push hpop _) _
  | loadArgument =>
      show (sc.stepLoadArgument i t).depth? = _
      unfold stepLoadArgument
      split
      · exact hpush _
      · exact Trace.depth?_push (t := t.observe _ _) h _
  | argumentAddress => exact hpush _
  | storeArgument =>
      show (sc.stepStoreArgument i t).depth? = _
      rw [stepStoreArgument_eq]
      split
      · exact (sc.depth?_storeArgument _ _ _ _ _).trans hpop
      · exact hpop
  | loadLocal => exact hpush _
  | localAddress => exact hpush _
  | storeLocal =>
      show (sc.stepStoreLocal i t).depth? = _
      rw [stepStoreLocal_eq]
      split
      · exact hpop
      · exact hpop
  | loadNull => exact hpush _
  | loadInt => exact hpush _
  | loadString => exact hpush _
  | loadToken => exact h
  | call => exact h
  | construct => exact h
  | callIndirect => exact h
  | ret =>
      show (sc.stepReturn i t).state.stack.depth? = _
      rw [state_stepReturn]
      rfl
  | loadIndirect => exact Trace.depth?_push hpop _
  | storeIndirect =>
      exact (sc.depth?_storeThrough _ _ _ _ _).trans (Trace.depth?_pop hpop i.offset)
  | clearIndirect => exact (sc.depth?_storeThrough _ _ _ _ _).trans hpop
  | box => exact Trace.depth?_push hpop _
  | cast =>
      show (sc.stepCast i t).depth? = _
      rw [stepCast_eq]
      split
      · exact Trace.depth?_push (t := (sc.popValue t i.offset).2.observe _ _) hpop _
      · exact Trace.depth?_push hpop _
  | loadField ofInstance => exact Trace.depth?_push (Trace.depth?_drop h _ _) _
  | fieldAddress ofInstance => exact Trace.depth?_push (Trace.depth?_drop h _ _) _
  | storeField ofInstance =>
      have hdrop := Trace.depth?_drop hpop i.offset ofInstance.toNat
      rw [Nat.sub_sub] at hdrop
      show (sc.stepStoreField i ofInstance t).depth? = _
      rw [stepStoreField_eq]
      split
      · exact (sc.depth?_storeField _ _ _ _).trans hdrop
      · exact hdrop
  | newArray => exact Trace.depth?_push hpop _
  | arrayLength => exact Trace.depth?_push hpop _
  | elementAddress => exact Trace.depth?_push (sc.depth?_popElement h) _
  | loadElement => exact Trace.depth?_push (sc.depth?_popElement h) _
  | storeElement =>
      exact (sc.depth?_storeElement _ _ _ _ _).trans (Trace.depth?_pop (Trace.depth?_pop hpop _) _)

theorem depth?_takeOperands (h : t.depth? = some d) (offset : Nat) (callee : MethodRef)
    (constructs : Bool) : (sc.takeOperands offset callee constructs t).2.2.depth? =
      some (d - (callee.instantiated.params.length +
        if constructs then 0 else callee.method.hasThis.toNat)) := by
  have hdrop := Trace.depth?_drop h offset callee.instantiated.params.length
  unfold takeOperands
  cases constructs with
  | true => exact hdrop
  | false =>
      cases hthis : callee.method.hasThis with
      | false => exact hdrop
      | true =>
          have hpop := Trace.depth?_pop hdrop offset
          rw [Nat.sub_sub] at hpop
          exact hpop

theorem depth?_leave (h : t.depth? = some d) (callee : MethodRef) (constructs : Bool)
    (returned : ValueSet) : (leave callee constructs returned t).depth? =
      some (d + (constructs || !callee.instantiated.ret.isVoid).toNat) := by
  unfold leave
  split
  · next hl =>
    rw [hl]
    exact Trace.depth?_push h _
  · next hl =>
    rw [Bool.not_eq_true _ |>.mp hl]
    exact h

theorem depth?_opaqueCall (h : t.depth? = some d) {role : Role} (hnone : sc.target? i role = none) :
    (sc.opaqueCall i role t).depth? = some ((sc.callEffect i role).apply d) := by
  unfold opaqueCall callEffect
  rw [hnone]
  have hdrop := Trace.depth?_drop h i.offset (role == .callIndirect).toNat
  cases i.token?.bind sc.context.store.callSite? with
  | none =>
      cases role == Role.construct with
      | false => rfl
      | true => rfl
  | some sig =>
      have hdrop' := Trace.depth?_drop hdrop i.offset
        (if role == .construct then sig.params.length else sig.stackArguments)
      rw [Nat.sub_sub] at hdrop'
      show Trace.depth? (if role == Role.construct || !sig.ret.isVoid then _ else _) = _
      split
      · next hl =>
        simp only [hl]
        exact Trace.depth?_push hdrop' _
      · next hl =>
        simp only [Bool.not_eq_true _ |>.mp hl]
        exact hdrop'

theorem depth?_stepCall (h : t.depth? = some d) {role : Role} {block : Nat} {t' : Trace}
    {session session' : Session}
    (hs : (sc.stepCall block i role t).run session = (.ok t', session')) :
    t'.depth? = some ((sc.callEffect i role).apply d) := by
  unfold stepCall at hs
  cases ht : sc.target? i role with
  | none =>
      rw [ht] at hs
      obtain ⟨hs, -⟩ := Prod.mk.inj hs
      obtain rfl := Except.ok.inj hs
      exact sc.depth?_opaqueCall h ht
  | some callee =>
      rw [ht] at hs
      obtain ⟨returned, needs, intrinsic, rfl⟩ := call_inv hs
      refine (sc.depth?_writeBack _ _ _ _ _ _).trans ?_
      rw [depth?_leave (sc.depth?_takeOperands h _ _ _)]
      unfold callEffect
      rw [ht]
      rfl

/-- **An instruction changes the depth as its effect says**, if it is interpreted at all. -/
theorem depth?_step (h : t.depth? = some d) {block : Nat} {t' : Trace} {session session' : Session}
    (hs : (sc.step block i t).run session = (.ok t', session')) :
    t'.depth? = some ((sc.stackEffect i).apply d) := by
  unfold step at hs
  unfold stackEffect
  cases hr : i.opcode.role with
  | loadToken =>
      rw [hr, Act.run_bind] at hs
      obtain ⟨hs, -⟩ := Prod.mk.inj hs
      obtain rfl := Except.ok.inj hs
      exact Trace.depth?_push h _
  | call | construct | callIndirect =>
      rw [hr] at hs
      exact sc.depth?_stepCall h hs
  | _ =>
      rw [hr] at hs
      obtain ⟨hs, -⟩ := Prod.mk.inj hs
      obtain rfl := Except.ok.inj hs
      exact sc.depth?_stepLocal block h _

theorem depth?_steps {block : Nat} {code : List Instruction} (h : t.depth? = some d) {t' : Trace}
    {session session' : Session}
    (hs : (sc.steps block code t).run session = (.ok t', session')) :
    t'.depth? = some (depthAfter sc.stackEffect code d) := by
  induction code generalizing t d session with
  | nil =>
      obtain ⟨hs, -⟩ := Prod.mk.inj hs
      obtain rfl := Except.ok.inj hs
      exact h
  | cons i rest ih =>
      obtain ⟨u, session₁, h₁, h₂⟩ := steps_cons_inv hs
      exact ih (depth?_step h h₁) h₂

/-- **A visit changes the depth as the code of its block says.** -/
theorem depth?_transfer {g : FlowGraph} {body : Body} {block : Nat} {x y : State} {p p' : Progress}
    (h : sc.transfer g body block x p = (.ok y, p')) :
    y.stack.depth? = some (depthAfter sc.stackEffect (g.codeOf body block) x.stack.depth) := by
  obtain ⟨t, hs, rfl⟩ := transfer_inv h
  exact depth?_steps (t := { state := x.entered }) (State.depth?_entered x) hs

end Scanner

/-! ## 4. Paths -/

namespace FlowGraph

/-- **The depths with which paths enter a block**: the method is entered with an empty stack, a
    handler with the exception if it receives one, and control passes along edges. -/
inductive DepthAt (effect : Instruction → StackEffect) (g : FlowGraph) (body : Body) :
    Nat → Nat → Prop where
  | entry : DepthAt effect g body g.entry 0
  | handler (h : Nat × HandlerKind) (hh : h ∈ g.handlers) :
      DepthAt effect g body h.1 h.2.receivesException.toNat
  | edge (b c d : Nat) (h : DepthAt effect g body b d) (hc : c ∈ g.graph.successors b) :
      DepthAt effect g body c (depthAfter effect (g.codeOf body b) d)

/-- **There is a bound on the depths of all paths.** -/
def StackBounded (effect : Instruction → StackEffect) (g : FlowGraph) (body : Body) : Prop :=
  ∃ bound, ∀ b d, DepthAt effect g body b d → d ≤ bound

/-- The listed handlers are those of the blocks. -/
theorem Drawn.mem_handlers {b : Body} {g : FlowGraph} (hd : Drawn b g) {n : Nat} {kind : HandlerKind} :
    (n, kind) ∈ g.handlers ↔
      ∃ k c, n = k + 1 ∧ b.blocks[k]? = some c ∧ c.handler = some kind := by
  rw [hd.handlers, List.mem_filterMap]
  constructor
  · rintro ⟨⟨m, c⟩, hm, hc⟩
    obtain ⟨_, hkind, heq⟩ := Option.map_eq_some_iff.mp hc
    obtain ⟨rfl, rfl⟩ := Prod.mk.inj heq
    obtain ⟨k, rfl, hk⟩ := Body.mem_numbered.mp hm
    exact ⟨k, c, rfl, hk, hkind⟩
  · rintro ⟨k, c, rfl, hk, hkind⟩
    refine ⟨(k + 1, c), Body.mem_numbered.mpr ⟨k, rfl, hk⟩, ?_⟩
    dsimp only
    rw [hkind]
    rfl

theorem Drawn.handler_inv {b : Body} {g : FlowGraph} (hd : Drawn b g) {h : Nat × HandlerKind}
    (hh : h ∈ g.handlers) : ∃ k c, h.1 = k + 1 ∧ b.blocks[k]? = some c := by
  obtain ⟨k, c, hn, hk, _⟩ := hd.mem_handlers.mp hh
  exact ⟨k, c, hn, hk⟩

theorem Drawn.handler_lt {b : Body} {g : FlowGraph} (hd : Drawn b g) {h : Nat × HandlerKind}
    (hh : h ∈ g.handlers) : h.1 < g.blockCount := by
  obtain ⟨k, c, hk, hc⟩ := hd.handler_inv hh
  rw [hk]
  exact hd.succ_lt hc

theorem Drawn.entry_lt {b : Body} {g : FlowGraph} (hd : Drawn b g) : g.entry < g.blockCount := by
  rw [hd.blockCount_eq]
  exact Nat.succ_pos _

theorem Drawn.successor_lt {b : Body} {g : FlowGraph} (hd : Drawn b g) {n k : Nat}
    (h : k ∈ g.graph.successors n) : k < g.blockCount := by
  obtain ⟨e, he, _, rfl⟩ := Digraph.mem_successors.mp h
  exact (hd.bounded e he).2

end FlowGraph

/-! ## 5. Where paths meet -/

namespace State

/-- A point without a stack is one that nothing has reached. -/
def Whole (s : State) : Prop := s.stack = .top → s.isTop = true

theorem whole_of_depth? {s : State} {d : Nat} (h : s.stack.depth? = some d) : s.Whole := by
  intro ht
  rw [ht] at h
  cases h

theorem Whole.depth?_eq {s : State} (h : s.Whole) (hs : s.isTop = false) :
    s.stack.depth? = some s.stack.depth := by
  cases hk : s.stack with
  | top => exact absurd ((h hk).symm.trans hs) (by decide)
  | slots l => rfl

theorem Whole.meet {s t : State} (hs : s.Whole) (ht : t.Whole) : (s.meet t).Whole := by
  intro h
  rw [stack_meet] at h
  unfold State.meet
  cases hk : s.stack with
  | top =>
      rw [if_pos (hs hk)]
      refine ht ?_
      rw [hk] at h
      exact h
  | slots a =>
      rw [hk] at h
      cases hl : t.stack with
      | top => rw [hl] at h; cases h
      | slots b => rw [hl] at h; cases h

/-- **Stacks alone are an order of states**: where paths meet, the deeper stack decides. -/
theorem stackOrder : MeetOrder Whole fun s t => s.stack.Covers t.stack where
  top _ := rfl
  meet _ _ := Whole.meet
  isTop_top := rfl
  refl s _ := .refl s.stack
  trans _ _ _ _ _ _ h₁ h₂ := h₁.trans h₂
  le_top s _ := by
    show s.stack.Covers .top
    cases s.stack <;> trivial
  mono s s' t t' _ _ _ _ h₁ h₂ := by
    show (s.meet t).stack.Covers (s'.meet t').stack
    rw [stack_meet, stack_meet]
    exact h₁.meet h₂
  meet_left s t _ _ := by
    show (s.meet t).stack.Covers s.stack
    rw [stack_meet]
    exact Stack.meet_covers_left _ _
  meet_right s t _ _ := by
    show (s.meet t).stack.Covers t.stack
    rw [stack_meet]
    exact Stack.meet_covers_right _ _
  isTop s t _ ht h hs := by
    refine ht ?_
    rw [eq_top_of_isTop hs] at h
    cases hk : t.stack with
    | top => rfl
    | slots b => rw [hk] at h; exact absurd h id

end State

namespace Scanner

variable {sc : Scanner} {g : FlowGraph} {body : Body}

theorem depth?_handlerState (kind : HandlerKind) :
    (handlerState kind).stack.depth? = some kind.receivesException.toNat := by
  unfold handlerState
  cases kind.receivesException <;> rfl

theorem whole_boundary : ∀ e ∈ (sc.analysis g body).boundary, e.2.Whole := by
  intro e he
  rcases List.mem_cons.mp he with rfl | he
  · exact State.whole_of_depth? (d := 0) rfl
  · obtain ⟨h, _, rfl⟩ := List.mem_map.mp he
    exact State.whole_of_depth? (depth?_handlerState h.2)

/-- States are reached together with a stack. -/
theorem whole_invariant : Invariant g (sc.analysis g body) (fun _ => State.Whole)
    (fun _ => State.Whole) (fun _ => True) where
  toAdmissible := State.stackOrder.admissible whole_boundary
  transfer _ _ _ _ _ _ _ _ _ ht := State.whole_of_depth? (depth?_transfer ht)
  observe _ _ _ _ _ _ _ _ := trivial

theorem depth_lasting : Lasting (sc.analysis g body) (fun _ => True) fun b x y _ =>
    y.stack.depth? = some (depthAfter sc.stackEffect (g.codeOf body b) x.stack.depth) where
  observe _ _ _ _ _ _ _ := trivial
  made _ _ _ _ _ _ ht := depth?_transfer ht
  kept _ _ _ _ _ _ _ _ _ hr _ := hr

/-- When no block waits, every block has been entered at least as deep as any path enters it. -/
theorem depth_le_input (hd : FlowGraph.Drawn body g) {p : Progress} {it : Iteration State Progress}
    (hr : Reachable g (sc.analysis g body) p it) (hq : it.queue = []) {b d : Nat}
    (h : g.DepthAt sc.stackEffect body b d) :
    ∃ x y, it.inputs[b]? = some x ∧ it.outputs[b]? = some y ∧ d ≤ x.stack.depth ∧
      y.stack.depth? = some (depthAfter sc.stackEffect (g.codeOf body b) x.stack.depth) := by
  have hout : AllOutputs State.Whole it.outputs := (whole_invariant.reachable trivial hr).outputs
  -- a state that flows into a block is below what the block has been entered with
  have arrives : ∀ (c : Nat) (s : State) (e : Nat), c < g.blockCount → s.stack.depth? = some e →
      ((sc.analysis g body).inputAt g it.outputs c).stack.Covers s.stack →
      ∃ x y, it.inputs[c]? = some x ∧ it.outputs[c]? = some y ∧ e ≤ x.stack.depth ∧
        y.stack.depth? = some (depthAfter sc.stackEffect (g.codeOf body c) x.stack.depth) := by
    intro c s e hc hs hle
    rcases hr.settled depth_lasting trivial c hc (hq ▸ List.not_mem_nil) with ht | ⟨y, hx, hy, hR⟩
    · rw [State.eq_top_of_isTop ht] at hle
      obtain ⟨l, hl, _⟩ := Stack.depth?_eq_some.mp hs
      rw [hl] at hle
      exact absurd hle id
    · refine ⟨_, y, hx, hy, ?_, hR⟩
      rw [← Stack.depth_of_depth? hs]
      exact hle.depth_le
  induction h with
  | entry =>
      refine arrives _ sc.entryState _ hd.entry_lt rfl ?_
      exact State.stackOrder.inputAt_le_boundary whole_boundary hout List.mem_cons_self
  | handler h hh =>
      refine arrives _ _ _ (hd.handler_lt hh) (depth?_handlerState h.2) ?_
      exact State.stackOrder.inputAt_le_boundary (e := (h.1, handlerState h.2)) whole_boundary hout
        (List.mem_cons_of_mem _ (List.mem_map_of_mem hh))
  | edge b c d _ hc ih =>
      obtain ⟨x, y, _, hy, hdx, hdy⟩ := ih
      have hle := State.stackOrder.inputAt_le_output (a := sc.analysis g body) whole_boundary hout hc
      rw [hy, Option.getD_some] at hle
      obtain ⟨x', y', hx', hy', hdx', hdy'⟩ := arrives c y _ (hd.successor_lt hc) hdy hle
      exact ⟨x', y', hx', hy', Nat.le_trans (depthAfter_mono _ hdx _) hdx', hdy'⟩

/-- **In every run a block is entered, and left, as deep as some path enters or leaves it.** -/
theorem depth_invariant : Invariant g (sc.analysis g body)
    (fun b x => x.Whole ∧ ∀ d, x.stack.depth? = some d → g.DepthAt sc.stackEffect body b d)
    (fun b y => y.Whole ∧ ∀ d, y.stack.depth? = some d → ∃ n, g.DepthAt sc.stackEffect body b n ∧
      d = depthAfter sc.stackEffect (g.codeOf body b) n)
    (fun _ => True) where
  topIn _ := ⟨fun _ => rfl, fun _ h => by cases h⟩
  topOut _ := ⟨fun _ => rfl, fun _ h => by cases h⟩
  meet b x y hx hy := by
    refine ⟨hx.1.meet hy.1, fun d hd => ?_⟩
    have hd : (x.meet y).stack.depth? = some d := hd
    rw [State.stack_meet] at hd
    rcases Stack.depth?_meet hd with h | h
    · exact hx.2 d h
    · exact hy.2 d h
  boundary e he := by
    refine ⟨whole_boundary e he, fun d hd => ?_⟩
    rcases List.mem_cons.mp he with rfl | he
    · obtain rfl := Option.some.inj hd
      exact .entry
    · obtain ⟨h, hh, rfl⟩ := List.mem_map.mp he
      obtain rfl := Option.some.inj ((depth?_handlerState h.2).symm.trans hd)
      exact .handler h hh
  edge e he y hy := by
    refine ⟨hy.1, fun d hd => ?_⟩
    obtain ⟨n, hn, rfl⟩ := hy.2 d hd
    exact .edge e.source e.target n hn (Digraph.mem_successors.mpr ⟨e, he, rfl, rfl⟩)
  transfer b _ x y _ _ hx hnt _ ht := by
    have hdepth := depth?_transfer ht
    refine ⟨State.whole_of_depth? hdepth, fun d hd => ?_⟩
    obtain rfl := Option.some.inj (hdepth.symm.trans hd)
    exact ⟨_, hx.2 _ (hx.1.depth?_eq hnt), rfl⟩
  observe _ _ _ _ _ _ _ _ := trivial

/-- **An iteration that has ended has found a bound on the depths of all paths.** -/
theorem bounded_of_solve (hd : FlowGraph.Drawn body g) {budget : Nat} {p p' : Progress}
    {solution : Solution State}
    (h : solve g (sc.analysis g body) budget p = (.ok solution, p')) :
    g.StackBounded sc.stackEffect body := by
  obtain ⟨it, hr, hq, _, _, _⟩ := Reachable.of_solve h
  refine ⟨(it.inputs.map fun x => x.stack.depth).sum, fun b d hbd => ?_⟩
  obtain ⟨x, _, hx, _, hdx, _⟩ := sc.depth_le_input hd hr hq hbd
  exact Nat.le_trans hdx (List.le_sum_of_mem (List.mem_map_of_mem (List.mem_of_getElem? hx)))

end Scanner

end ReflectionFlow

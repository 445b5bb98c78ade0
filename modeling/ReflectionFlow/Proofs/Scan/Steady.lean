/-
  File:      ReflectionFlow/Proofs/Scan/Steady.lean
  Subject:   Code whose interpretation is a function of the state.

  Interpreting an instruction may ask the session.  For code that calls nothing catalogued and
  passes nothing by reference the session matters only through its answers, which do not change,
  and no step fails.  Left out as well are new arrays and stores through addresses, which are not
  monotone, and fields that are known to hold arrays or addresses of fields.

  * `Scanner.Steady`           such instructions; `Body.Steady` code made of them
  * `Scanner.CallsQuietly`     what the session asks of them
  * `Scanner.quiet`            their steps, without a session
  * `Scanner.run_step`         a step is the quiet one and keeps all answers
  * `Scanner.transfer_quiet`   the same for visits
-/
import ReflectionFlow.Proofs.Scan.Steps

namespace ReflectionFlow

/-! ## 1. Steady code -/

/-- Values that are no arrays and no addresses of fields. -/
def Value.Inert : Value → Prop
  | .array _ => False
  | .address (.field _) => False
  | _ => True

/-- Nothing is passed by reference. -/
def MethodRef.ByValue (callee : MethodRef) : Prop :=
  ∀ t ∈ callee.instantiated.params, t.isByRef = false

namespace Scanner

/-- **Steady instructions**, in a session with given answers. -/
def Steady (sc : Scanner) (answers : Answers) (i : Instruction) : Prop :=
  match i.opcode.role with
  | .newArray | .storeIndirect | .clearIndirect => False
  | .loadField _ | .fieldAddress _ =>
    ∀ f, i.token? = some f → (sc.loadField f).Within Value.Inert
  | .call => ∀ callee, sc.target? i .call = some callee →
    callee.ByValue ∧ answers.intrinsics callee.method.token = none
  | .construct => ∀ callee, sc.target? i .construct = some callee → callee.ByValue
  | _ => True

/-- A known method that the instruction calls takes nothing by reference and is not catalogued. -/
def CallsQuietly (sc : Scanner) (answers : Answers) (i : Instruction) : Prop :=
  match i.opcode.role with
  | .call => ∀ callee, sc.target? i .call = some callee →
    callee.ByValue ∧ answers.intrinsics callee.method.token = none
  | .construct => ∀ callee, sc.target? i .construct = some callee → callee.ByValue
  | _ => True

theorem Steady.callsQuietly {sc : Scanner} {answers : Answers} {i : Instruction}
    (h : sc.Steady answers i) : sc.CallsQuietly answers i := by
  unfold Steady at h
  unfold CallsQuietly
  cases hr : i.opcode.role with
  | call | construct =>
      rw [hr] at h
      exact h
  | _ => trivial

end Scanner

/-- All instructions are steady. -/
def Body.Steady (b : Body) (sc : Scanner) (answers : Answers) : Prop :=
  ∀ i ∈ b.instructions, sc.Steady answers i

/-- All calls are quiet. -/
def Body.CallsQuietly (b : Body) (sc : Scanner) (answers : Answers) : Prop :=
  ∀ i ∈ b.instructions, sc.CallsQuietly answers i

/-! ## 2. Values that depend on answers -/

namespace Context

variable (c : Context)

theorem steady_denote (ofVariable : GenericParameter → Value) (ofType : Token → Value)
    (t : TypeSig) : c.store.Steady (c.denote ofVariable ofType t) := by
  unfold denote
  split
  · refine Store.Steady.bind (Store.Steady.bind (Store.steady_askGenericNeeds _) fun _ => ?_)
      fun _ => ?_
    · exact Store.steady_pure _
    · exact Store.steady_pure _
  · exact Store.steady_pure _

theorem steady_handleValue (t : Token) : c.store.Steady (c.handleValue t) := by
  unfold handleValue
  split
  · exact c.steady_denote _ _ _
  · exact Store.steady_pure _

end Context

theorem CallSite.steady_defaultReturn (c : CallSite) : c.context.store.Steady c.defaultReturn := by
  unfold defaultReturn
  split
  · exact Store.steady_pure _
  · split
    · exact Store.steady_pure _
    · exact Store.steady_askReturn _ _

namespace Scanner

variable {sc : Scanner}

theorem steady_tokenValue (token : Option Token) :
    sc.context.store.Steady (sc.tokenValue token) := by
  unfold tokenValue
  split
  · split
    · exact sc.context.steady_handleValue _
    · split
      · exact Store.steady_pure _
      · exact Store.steady_pure _
  · exact Store.steady_pure _

/-! ## 3. Quiet steps -/

/-- What a call of a method that is not catalogued returns. -/
def returnedBy (sc : Scanner) (session : Session) (i : Instruction) (callee : MethodRef)
    (constructs : Bool) : ValueSet :=
  if constructs then .unknown
  else ((CallSite.defaultReturn ⟨sc.context, i.offset, callee, []⟩).run session).1

/-- A call that leaves no trace in the session. -/
def quietCall (sc : Scanner) (session : Session) (i : Instruction) (role : Role) (t : Trace) : Trace :=
  match sc.target? i role with
  | some callee =>
    let constructs := role == .construct
    let (_, arguments, t) := sc.takeOperands i.offset callee constructs t
    (leave callee constructs (sc.returnedBy session i callee constructs) t).observe i.offset
      (.call callee arguments ((sc.context.store.answers session).intrinsics callee.method.token)
        constructs)
  | none => sc.opaqueCall i role t

/-- **The step of a steady instruction**, with the answers of a given session. -/
def quiet (sc : Scanner) (session : Session) (block : Nat) (t : Trace) (i : Instruction) : Trace :=
  match i.opcode.role with
  | .loadToken => t.push (.single ((sc.tokenValue i.token?).run session).1)
  | .call => sc.quietCall session i .call t
  | .construct => sc.quietCall session i .construct t
  | .callIndirect => sc.quietCall session i .callIndirect t
  | role => sc.stepLocal block i t role

/-- The state in which a visit leaves a block of steady code. -/
def quietVisit (sc : Scanner) (session : Session) (g : FlowGraph) (body : Body) (block : Nat)
    (input : State) : State :=
  ((g.codeOf body block).foldl (sc.quiet session block) { state := input.entered }).state

variable {session session' : Session} {block : Nat} {i : Instruction} {t : Trace}

theorem writeBack_eq {callee : MethodRef} (hval : callee.ByValue) (offset : Nat) (needs : Needs)
    (operands : List ValueSet) (t : Trace) :
    sc.writeBack block offset callee needs operands t = t := by
  refine List.foldlRecOn (motive := fun u : Trace => u = t) _ _ rfl fun u hu e he => ?_
  obtain ⟨⟨param, address⟩, index⟩ := e
  have hmem := (List.of_mem_zip (List.fst_mem_of_mem_zipIdx he)).1
  show (if param.isByRef && _ then _ else u) = t
  rw [hval param hmem, Bool.false_and, if_neg (by decide)]
  exact hu

theorem run_resultOf (site : CallSite) (hc : site.context = sc.context) {constructs : Bool}
    (intrinsic : Option Intrinsic) (hint : constructs = false → intrinsic = none)
    (h : sc.context.store.answers session' = sc.context.store.answers session) :
    ((sc.resultOf site intrinsic constructs).run session').1 = .ok (if constructs then .unknown
      else (site.defaultReturn.run session).1) ∧
    sc.context.store.answers ((sc.resultOf site intrinsic constructs).run session').2 =
      sc.context.store.answers session := by
  unfold resultOf
  cases constructs with
  | true => exact ⟨rfl, h⟩
  | false =>
      rw [hint rfl]
      have hs := site.steady_defaultReturn
      rw [hc] at hs
      obtain ⟨hval, hkeep⟩ := hs session' session h
      exact ⟨congrArg Except.ok hval, hkeep.trans h⟩

/-- **A call of a method that is not catalogued and takes nothing by reference is quiet.** -/
theorem run_call {callee : MethodRef} {constructs : Bool} (hval : callee.ByValue)
    (hint : constructs = false →
      (sc.context.store.answers session).intrinsics callee.method.token = none)
    (h : sc.context.store.answers session' = sc.context.store.answers session) :
    ∃ final, (sc.call block i callee constructs t).run session' =
      (.ok ((leave callee constructs (sc.returnedBy session i callee constructs)
        (sc.takeOperands i.offset callee constructs t).2.2).observe i.offset
          (.call callee (sc.takeOperands i.offset callee constructs t).2.1
            ((sc.context.store.answers session).intrinsics callee.method.token) constructs)), final) ∧
      sc.context.store.answers final = sc.context.store.answers session := by
  obtain ⟨hi, hk⟩ := Store.run_askIntrinsic (s := sc.context.store) session' callee.method.token
  rw [h] at hi hk
  obtain ⟨hr, hk'⟩ := sc.run_resultOf
    ⟨sc.context, i.offset, callee, (sc.takeOperands i.offset callee constructs t).2.1⟩ rfl _
    (fun hc => hi.trans (hint hc)) hk
  rw [hi] at hr hk'
  unfold call
  simp only [Act.run_bind, hi, hr, writeBack_eq hval]
  exact ⟨_, rfl, (Store.run_askNeeds _ _).2.trans hk'⟩

theorem run_stepCall {role : Role} (hval : ∀ callee, sc.target? i role = some callee →
      callee.ByValue ∧ ((role == .construct) = false →
        (sc.context.store.answers session).intrinsics callee.method.token = none))
    (h : sc.context.store.answers session' = sc.context.store.answers session) :
    ∃ final, (sc.stepCall block i role t).run session' =
      (.ok (sc.quietCall session i role t), final) ∧
      sc.context.store.answers final = sc.context.store.answers session := by
  unfold stepCall quietCall
  cases ht : sc.target? i role with
  | none => exact ⟨session', rfl, h⟩
  | some callee =>
      obtain ⟨hv, hi⟩ := hval callee ht
      exact sc.run_call hv hi h

/-- **An instruction that calls quietly is interpreted quietly**: it does not fail, its result
    depends on the state and the answers of the session alone, and it keeps the answers. -/
theorem run_step (block : Nat) (t : Trace)
    (hi : sc.CallsQuietly (sc.context.store.answers session) i)
    (h : sc.context.store.answers session' = sc.context.store.answers session) :
    ∃ final, (sc.step block i t).run session' = (.ok (sc.quiet session block t i), final) ∧
      sc.context.store.answers final = sc.context.store.answers session := by
  unfold step quiet
  unfold CallsQuietly at hi
  cases hr : i.opcode.role with
  | loadToken =>
      obtain ⟨hval, hkeep⟩ := sc.steady_tokenValue i.token? session' session h
      simp only [Act.run_bind, Act.run_pure, hval]
      exact ⟨_, rfl, hkeep.trans h⟩
  | call =>
      rw [hr] at hi
      exact sc.run_stepCall (fun callee ht => ⟨(hi callee ht).1, fun _ => (hi callee ht).2⟩) h
  | construct =>
      rw [hr] at hi
      exact sc.run_stepCall (fun callee ht => ⟨hi callee ht, fun hc => by cases hc⟩) h
  | callIndirect =>
      refine sc.run_stepCall (fun callee ht => ?_) h
      cases ht
  | _ => exact ⟨session', rfl, h⟩

theorem run_steps_quiet (block : Nat) (t : Trace) {code : List Instruction}
    (hcode : ∀ i ∈ code, sc.CallsQuietly (sc.context.store.answers session) i)
    (h : sc.context.store.answers session' = sc.context.store.answers session) :
    ∃ final, (sc.steps block code t).run session' =
      (.ok (code.foldl (sc.quiet session block) t), final) ∧
      sc.context.store.answers final = sc.context.store.answers session := by
  induction code generalizing t session' with
  | nil => exact ⟨session', rfl, h⟩
  | cons i rest ih =>
      obtain ⟨middle, hstep, hmid⟩ := sc.run_step block t
        (hcode i List.mem_cons_self) h
      obtain ⟨final, hsteps, hfin⟩ := ih (sc.quiet session block t i)
        (fun j hj => hcode j (List.mem_cons_of_mem _ hj)) hmid
      refine ⟨final, ?_, hfin⟩
      unfold steps
      rw [Act.run_bind, hstep]
      exact hsteps

/-- **A visit of code whose calls are quiet is quiet.** -/
theorem transfer_quiet {g : FlowGraph} {body : Body}
    (hb : body.CallsQuietly sc (sc.context.store.answers session)) (x : State) {p : Progress}
    (h : sc.context.store.answers p.session = sc.context.store.answers session) :
    ∃ p', sc.transfer g body block x p = (.ok (sc.quietVisit session g body block x), p') ∧
      sc.context.store.answers p'.session = sc.context.store.answers session := by
  have hcode : ∀ i ∈ g.codeOf body block, sc.CallsQuietly (sc.context.store.answers session) i :=
    fun i hi => hb i (FlowGraph.mem_of_mem_codeOf hi)
  obtain ⟨final, hrun, hfin⟩ := sc.run_steps_quiet block { state := x.entered }
    hcode h
  unfold transfer quietVisit
  generalize g.codeOf body block = code at hrun
  cases code with
  | nil => exact ⟨p, rfl, h⟩
  | cons i rest =>
      simp only [Progress.forget, hrun]
      exact ⟨_, rfl, hfin⟩

end Scanner

end ReflectionFlow

/-
  File:      ReflectionFlow/Proofs/Scan/Conduct.lean
  Subject:   What interpreting a method and acting on its observations do to the session.

  While a method is iterated its instructions are interpreted under reporters that are not live:
  nothing is entered, and what an instruction leaves behind does not depend on the memo.  Entries
  are made afterwards, each of them for an instruction that something was observed at.

  * `Scanner.alike_steps`        interpreting code, for any origins
  * `Scanner.ledger_transfer`    a visit leaves the ledger alone
  * `Scanner.gives_steps`        interpreting code gives one result
  * `Context.alike_applyAll`, `Context.entered_applyAll`    what observations enter
-/
import ReflectionFlow.Proofs.Reflection.Catalogue
import ReflectionFlow.Proofs.Scan.Record
import ReflectionFlow.Scan.Method

namespace ReflectionFlow

open Store Reporter

/-! ## 1. Interpretation -/

/-- In a store with methods under their tokens, references lead to such methods. -/
theorem Context.refers_defines {c : Context} (h : c.store.Tabled) : c.Refers c.store.Defines := by
  intro t callee hc
  obtain ⟨r, hr, rfl⟩ := Option.map_eq_some_iff.mp hc
  show c.store.Defines r.method
  exact h.defines hr

namespace Scanner

variable {sc : Scanner} {M : MethodDef → Prop} {P : Origin → Prop}

theorem alike_tokenValue (token : Option Token) :
    sc.context.store.Alike M P (sc.tokenValue token) (sc.tokenValue token) := by
  unfold tokenValue
  split
  · split
    · exact sc.context.alike_handleValue _
    · split
      · exact .pure _
      · exact .pure _
  · exact .pure _

theorem alike_catalogued {site : CallSite} (hc : site.Within sc.context.store M)
    (what : Intrinsic) :
    sc.context.store.Alike M P (sc.catalogued site what) (sc.catalogued site what) := by
  have hr : (sc.context.reporter site.offset false).Serves sc.context.store P :=
    ⟨rfl, fun h => by cases h⟩
  unfold catalogued
  split
  · exact .pure _
  · next rule hrule =>
    refine .bind (CallSite.alike_rule hr hc hrule) fun _ => ?_
    exact .bind (.askNeeds _ hc.method) fun _ => .pure _

theorem alike_resultOf {site : CallSite} (hc : site.Within sc.context.store M)
    (intrinsic : Option Intrinsic) (constructs : Bool) :
    sc.context.store.Alike M P (sc.resultOf site intrinsic constructs)
      (sc.resultOf site intrinsic constructs) := by
  unfold resultOf
  split
  · exact .pure _
  · split
    · exact alike_catalogued hc _
    · exact .bind (CallSite.alike_defaultReturn hc) fun _ => .pure _

theorem alike_call (block : Nat) (i : Instruction) {callee : MethodRef} (hm : M callee.method)
    (constructs : Bool) (t : Trace) :
    sc.context.store.Alike M P (sc.call block i callee constructs t)
      (sc.call block i callee constructs t) := by
  unfold call
  refine .bind (.askIntrinsic _) fun intrinsic => .bind ?_ fun result => ?_
  · exact alike_resultOf ⟨rfl, hm⟩ intrinsic constructs
  · split
    · exact .pure _
    · exact .bind (.askNeeds _ hm) fun _ => .pure _

theorem alike_stepCall (hM : sc.context.Refers M) (block : Nat) (i : Instruction) (role : Role)
    (t : Trace) :
    sc.context.store.Alike M P (sc.stepCall block i role t) (sc.stepCall block i role t) := by
  unfold stepCall
  split
  · next callee hcallee =>
    exact alike_call block i (target?_refers hM hcallee) _ t
  · exact .pure _

theorem alike_step (hM : sc.context.Refers M) (block : Nat) (i : Instruction) (t : Trace) :
    sc.context.store.Alike M P (sc.step block i t) (sc.step block i t) := by
  unfold step
  split
  · exact .bind (alike_tokenValue _) fun _ => .pure _
  · exact alike_stepCall hM block i .call t
  · exact alike_stepCall hM block i .construct t
  · exact alike_stepCall hM block i .callIndirect t
  · exact .pure _

/-- **Interpreting code enters nothing**: it may stand for any origins, also for none. -/
theorem alike_steps (hM : sc.context.Refers M) (block : Nat) (code : List Instruction) (t : Trace) :
    sc.context.store.Alike M P (sc.steps block code t) (sc.steps block code t) := by
  induction code generalizing t with
  | nil => exact .pure _
  | cons i rest ih =>
      unfold steps
      refine .bind (alike_step hM block i t) fun result => ?_
      split
      · exact .pure _
      · exact ih _

/-- **Interpreting code gives one result**, whatever is remembered of a store that is built from
    declarations. -/
theorem gives_steps (hs : sc.context.store.Tabled) (block : Nat) (code : List Instruction)
    (t : Trace) : ∃ result, sc.context.store.Gives (sc.steps block code t) result {} :=
  (alike_steps (Context.refers_defines hs) block code t).gives_quiet

/-- **A visit leaves the ledger alone**, also one that fails. -/
theorem ledger_transfer (g : FlowGraph) (body : Body) (block : Nat) (x : State) (p : Progress) :
    (sc.transfer g body block x p).2.session.ledger = p.session.ledger := by
  have hquiet : ∀ code t, ((sc.steps block code t).run p.session).2.ledger = p.session.ledger := by
    intro code t
    have h : sc.context.store.Alike (fun _ => True) (fun _ => False) (sc.steps block code t)
        (sc.steps block code t) := alike_steps (fun _ _ _ => trivial) block code t
    exact h.ledger_eq p.session
  unfold transfer
  split
  · rfl
  · next i rest _ =>
    have h := hquiet (i :: rest) { state := x.entered }
    simp only [Progress.forget]
    split
    · next hrun =>
      rw [hrun] at h
      exact h
    · next hrun =>
      rw [hrun] at h
      exact h

end Scanner

/-! ## 2. Acting on observations -/

namespace Context

variable {c : Context} {M : MethodDef → Prop} {P : Origin → Prop} {r : Reporter}

theorem alike_checkGenerics (hr : r.Serves c.store P) (owner : Owner) (args : List TypeSig) :
    c.store.Alike M P (c.checkGenerics r owner args) (c.checkGenerics r owner args) := by
  unfold checkGenerics
  split
  · exact .pure _
  · refine .bind (.askGenericNeeds owner) fun needs => .forM (fun ((arg, need), index) => ?_) _
    dsimp only
    split
    · refine .bind (c.alike_typeValue arg) fun v => ?_
      simpa only [dimmed_true] using alike_require hr (.single v) need (.generic owner index) true
    · exact .pure _

theorem alike_applyOrdinary (hr : r.Serves c.store P) (site : CallSite) (needs : Needs)
    (constructs : Bool) :
    c.store.Alike M P (c.applyOrdinary r site needs constructs)
      (c.applyOrdinary r site needs constructs) := by
  have hrequire : ∀ v need place, c.store.Alike M P (r.require v need place)
      (r.require v need place) := fun v need place => by
    simpa only [dimmed_true] using alike_require hr v need place true
  have hparameters : c.store.Alike M P (checkParameters r site needs)
      (checkParameters r site needs) := by
    refine .forM (fun (need, index) => ?_) _
    dsimp only
    split
    · exact hrequire _ _ _
    · exact .pure _
  have hreceiver : c.store.Alike M P (checkReceiver r site needs) (checkReceiver r site needs) := by
    unfold checkReceiver
    split
    · exact hrequire _ _ _
    · exact .pure _
  have hgenerics := (alike_checkGenerics (M := M) hr (.method site.method.token)
    site.callee.methodArgs).bind fun _ =>
      alike_checkGenerics hr (.type site.method.declaring) site.callee.typeArgs
  unfold applyOrdinary
  refine .bind hparameters fun _ => ?_
  dsimp only
  split
  · exact .bind hreceiver fun _ => hgenerics
  · exact hgenerics

theorem alike_applyCatalogued (hr : r.Serves c.store P) {site : CallSite}
    (hc : site.Within c.store M) (what : Intrinsic) :
    c.store.Alike M P (applyCatalogued r site what) (applyCatalogued r site what) := by
  unfold applyCatalogued
  split
  · next rule hrule => exact .bind (CallSite.alike_rule hr hc hrule) fun _ => .pure _
  · simpa only [dimmed_true] using alike_report hr (.unanalyzedOverload what) true

theorem alike_checkWarning (hr : r.Serves c.store P) (hm : M c.method) (callee : MethodDef)
    (needs : Needs) :
    c.store.Alike M P (c.checkWarning r callee needs) (c.checkWarning r callee needs) := by
  unfold checkWarning
  split
  · refine .bind (.askNeeds _ hm) fun own => ?_
    split
    · simpa only [dimmed_true] using alike_report hr (.requiresUnreferencedCode callee.name _) true
    · exact .pure _
  · exact .pure _

theorem alike_applyCall (hr : r.Serves c.store P) (hm : M c.method) {site : CallSite}
    (hc : site.Within c.store M) (intrinsic : Option Intrinsic) (constructs : Bool) :
    c.store.Alike M P (c.applyCall r site intrinsic constructs)
      (c.applyCall r site intrinsic constructs) := by
  have hinterop : c.store.Alike M P (r.checkInterop site.method) (r.checkInterop site.method) := by
    unfold checkInterop
    split
    · simpa only [dimmed_true] using alike_report hr (.comInterop site.method.name) true
    · exact .pure _
  have hlast : c.store.Alike M P (if c.config.checksInterop then r.checkInterop site.method else pure ())
      (if c.config.checksInterop then r.checkInterop site.method else pure ()) := by
    split
    · exact hinterop
    · exact .pure _
  unfold applyCall
  refine .bind (.askNeeds _ hc.method) fun needs => ?_
  refine .bind (alike_checkWarning hr hm site.method needs) fun _ => ?_
  dsimp only
  split
  · exact .bind (alike_applyCatalogued hr hc _) fun _ => hlast
  · exact .bind (alike_applyOrdinary hr site needs constructs) fun _ => hlast

theorem alike_applyCastOne (hr : r.Serves c.store P) (t : Token) (v : Value) :
    c.store.Alike M P (c.applyCastOne r t v) (c.applyCastOne r t v) := by
  unfold applyCastOne
  split
  · split
    · exact .pure _
    · refine .bind (.askIntrinsic _) fun what => ?_
      split
      · split
        · simpa only [dimmed_true] using alike_markMembers hr t _ .any .castTarget true
        · exact .pure _
      · exact .pure _
  · exact .pure _

theorem alike_applyCast (hr : r.Serves c.store P) (values : ValueSet) (target : Token) :
    c.store.Alike M P (c.applyCast r values target) (c.applyCast r values target) := by
  unfold applyCast
  split
  · exact .forM (alike_applyCastOne hr _) _
  · exact .pure _

/-- **What an observation enters, it enters for its instruction.** -/
theorem alike_apply (hm : M c.method) {offset : Nat} (hP : P ⟨c.method.token, some offset⟩)
    {o : Observation} (ho : o.Calls M) :
    c.store.Alike M P (c.apply offset o) (c.apply offset o) := by
  have hr : (c.reporter offset true).Serves c.store P := ⟨rfl, fun _ => hP⟩
  cases o with
  | call callee arguments intrinsic constructs =>
      have hc : CallSite.Within ⟨c, offset, callee, arguments⟩ c.store M := ⟨rfl, ho⟩
      exact alike_applyCall hr hm hc intrinsic constructs
  | assignment values required place =>
      have := alike_require (M := M) hr values required place true
      rwa [dimmed_true] at this
  | cast values target => exact alike_applyCast hr values target
  | fault f =>
      unfold apply
      dsimp only
      split
      · have := alike_report (M := M) hr (.invalidCode f) true
        rwa [dimmed_true] at this
      · exact .pure _

/-- **What the observations of a method enter, they enter for instructions of the method at which
    something was observed.** -/
theorem alike_applyAll (hm : M c.method) {log : ObservationLog Observation}
    (hlog : ∀ e ∈ log.toList, P ⟨c.method.token, some e.1⟩ ∧ e.2.Calls M) :
    c.store.Alike M P (c.applyAll log) (c.applyAll log) := by
  unfold applyAll
  generalize log.toList = l at hlog
  induction l with
  | nil => exact .pure _
  | cons e l ih =>
      obtain ⟨he, hl⟩ := List.forall_mem_cons.mp hlog
      exact .bind (alike_apply hm he.1 he.2) fun _ => ih hl

/-- **Every mark and every diagnostic is made for an offset at which something was observed**, in
    any session. -/
theorem entered_applyAll {log : ObservationLog Observation} {Q : Nat → Prop}
    (hlog : ∀ e ∈ log.entries, Q e.1.1) (session : Session) :
    ∃ l : Ledger, ((c.applyAll log).run session).2.ledger = session.ledger ++ l ∧
      l.From fun o => ∃ offset, o = ⟨c.method.token, some offset⟩ ∧ Q offset := by
  have halike : c.store.Alike (fun _ => True)
      (fun o => ∃ offset, o = ⟨c.method.token, some offset⟩ ∧ Q offset)
      (c.applyAll log) (c.applyAll log) := alike_applyAll trivial fun e he => by
    obtain ⟨f, hf, rfl⟩ := List.mem_map.mp he
    exact ⟨⟨_, rfl, hlog f hf⟩, f.2.calls_any⟩
  obtain ⟨l, hl, hledger⟩ := halike.entered session
  exact ⟨l, hledger, hl⟩

end Context

end ReflectionFlow

/-
  File:      ReflectionFlow/Proofs/Scan/Repeats.lean
  Subject:   How often a fault in code is reported.

  Visiting a block again replaces what it has observed, so revisits repeat no report.  But every
  operand that an instruction lacks is a report of its own, with the same offset and the same
  reason.  So a reason is given more than once at an offset exactly if an instruction there lacks
  two operands or more when it is reached; all other faults are reported once.

  * `Observation.complainsOf`      an observation that is reported with a reason
  * `one_lt_countP_keepAll`        what one instruction repeats
  * `Scanner.valuesAt_of_recorded` what is on record at an instruction
  * `Context.LacksAt`              an instruction lacks operands when it is reached
  * `analyze_repeats`
-/
import ReflectionFlow.Proofs.Reflection.Blame
import ReflectionFlow.Proofs.Scan.Complaints
import ReflectionFlow.Proofs.Scan.Log
import ReflectionFlow.Proofs.Scan.Replay

namespace ReflectionFlow

open Store ObservationLog

/-! ## 1. Reasons -/

/-- No other fault is reported in the words of a missing operand. -/
theorem CodeFault.message_eq_underflow {f : CodeFault} :
    f.message = stackUnderflow.message ↔ f = .stackUnderflow := by
  refine ⟨fun h => ?_, fun h => congrArg message h⟩
  cases f with
  | stackUnderflow => rfl
  | stackNotEmpty | missingArgument | missingLocal => exact absurd h (by decide)
  | unresolvedCall i =>
      -- the first letters differ
      have hfirst : ("call target of " ++ i.render ++ " cannot be resolved").toList.head? =
          "evaluation stack underflow".toList.head? := congrArg (·.toList.head?) h
      rw [String.toList_append, String.toList_append, List.append_assoc] at hfirst
      exact absurd (Option.some.inj hfirst) (by decide)

/-- The observation is a fault that is reported with a reason. -/
def Observation.complainsOf (reason : String) (o : Observation) : Bool :=
  o.fault?.map CodeFault.message == some reason

namespace Observation

variable {reason : String} {os : List Observation}

theorem complainsOf_iff {o : Observation} :
    o.complainsOf reason = true ↔ ∃ f, o = .fault f ∧ f.message = reason := by
  unfold complainsOf
  rw [beq_iff_eq, Option.map_eq_some_iff]
  constructor
  · rintro ⟨f, hf, hreason⟩
    cases o with
    | fault f' =>
        obtain rfl := Option.some.inj hf
        exact ⟨f', rfl, hreason⟩
    | _ => cases hf
  · rintro ⟨f, rfl, hreason⟩
    exact ⟨f, rfl, hreason⟩

theorem complainsOf_underflow (reason : String) :
    complainsOf reason (.fault .stackUnderflow) = true ↔
      reason = CodeFault.stackUnderflow.message := by
  rw [complainsOf_iff]
  constructor
  · rintro ⟨f, hf, hreason⟩
    obtain rfl := fault.inj hf
    exact hreason.symm
  · intro h
    exact ⟨_, rfl, h.symm⟩

/-- What follows the missing operands gives no reason twice, and not theirs. -/
theorem countP_single (h : Trace.Single os) (reason : String) :
    os.countP (complainsOf reason) ≤
      if reason = CodeFault.stackUnderflow.message then 0 else 1 := by
  split
  · next hreason =>
    refine Nat.le_of_eq (List.countP_eq_zero.mpr fun o ho hcomplains => h.operands ?_)
    obtain ⟨f, rfl, hf⟩ := complainsOf_iff.mp hcomplains
    exact CodeFault.message_eq_underflow.mp (hf.trans hreason) ▸ ho
  · refine (List.countP_mono_left fun o _ hcomplains => ?_).trans h.once
    obtain ⟨f, rfl, _⟩ := complainsOf_iff.mp hcomplains
    rfl

/-- **A reason is repeated at an instruction** exactly if it is that of missing operands and two of
    them are missing.  They come first, so the limit of an offset does not matter. -/
theorem one_lt_countP_keepAll (h : Trace.Single os) (missing : Nat) (reason : String) :
    1 < (keepAll [] (List.replicate missing (.fault .stackUnderflow) ++ os)).countP
        (complainsOf reason) ↔
      reason = CodeFault.stackUnderflow.message ∧ 2 ≤ missing := by
  generalize hall : List.replicate missing (.fault .stackUnderflow) ++ os = all
  have hcount : all.countP (complainsOf reason) =
      (if reason = CodeFault.stackUnderflow.message then missing else 0) +
        os.countP (complainsOf reason) := by
    rw [← hall, List.countP_append, List.countP_replicate]
    simp only [complainsOf_underflow]
  have hos := countP_single h reason
  constructor
  · intro hkept
    have hle : (keepAll [] all).countP (complainsOf reason) ≤ all.countP (complainsOf reason) :=
      (keepAll_sublist [] all).countP_le
    by_cases hreason : reason = CodeFault.stackUnderflow.message
    · rw [if_pos hreason] at hcount hos
      exact ⟨hreason, by omega⟩
    · rw [if_neg hreason] at hcount hos
      omega
  · rintro ⟨hreason, hmissing⟩
    obtain ⟨more, rfl⟩ := Nat.exists_eq_add_of_le hmissing
    have hunder := (complainsOf_underflow reason).mpr hreason
    have hfront : all.take 2 = [.fault .stackUnderflow, .fault .stackUnderflow] := by
      rw [← hall, Nat.add_comm, List.replicate_succ, List.replicate_succ]
      rfl
    have hkeep : (keepAll [] all).take 2 = all.take 2 := by
      have := congrArg (List.take 2) (take_keepAll [] all)
      rwa [List.take_take, List.take_take, show min 2 lastSlot = 2 by decide] at this
    have hle : ((keepAll [] all).take 2).countP (complainsOf reason) ≤
        (keepAll [] all).countP (complainsOf reason) := (List.take_sublist 2 _).countP_le
    rw [hkeep, hfront, List.countP_cons_of_pos hunder, List.countP_cons_of_pos hunder] at hle
    exact Nat.lt_of_lt_of_le Nat.one_lt_two hle

end Observation

/-! ## 2. The record of an instruction -/

namespace Scanner

variable {sc : Scanner} {g : FlowGraph} {body : Body} {p : Progress}

/-- **What is on record at an instruction**: the operands that are missing at its depth, and after
    them at most one other complaint. -/
theorem valuesAt_of_recorded (hinc : body.Increasing) {n : Nat} {x : State}
    (hr : sc.Recorded g body n x p) (hx : x.isTop = false) {before after : List Instruction}
    {i : Instruction} (hcode : g.codeOf body n = before ++ i :: after) :
    ∃ rest, Trace.Single rest ∧ p.log.valuesAt i.offset = keepAll [] (List.replicate
      (sc.takes i - depthAfter sc.stackEffect before x.stack.depth) (.fault .stackUnderflow) ++
        rest) := by
  obtain ⟨t, hgives⟩ := hr.completes hx
  have hmem : i ∈ g.codeOf body n := hcode ▸ List.mem_append_right _ List.mem_cons_self
  have hfindings := hr.findings i hmem
  -- the visit alone files the trace in an empty record
  obtain ⟨j, code, hcons⟩ := List.exists_cons_of_ne_nil (List.ne_nil_of_mem hmem)
  obtain ⟨memo, _, htransfer⟩ := transfer_of_gives (p := { session := {} }) hcons (hcons ▸ hgives)
    (faithful_empty _)
  unfold alone at hfindings
  rw [if_neg (by rw [hx]; exact Bool.false_ne_true), htransfer] at hfindings
  have hvalues : p.log.valuesAt i.offset = keepAll [] (t.observedAt i.offset) :=
    (congrArg (fun f => f.1.map Prod.snd) hfindings).trans
      ((slotted_empty.foldl_record t.observed).2 i.offset)
  obtain ⟨_, _, hrun⟩ := hgives {} (faithful_empty _)
  rw [hcode] at hrun
  have hoffsets := FlowGraph.offsets_pairwise (g := g) hinc n
  rw [hcode] at hoffsets
  obtain ⟨rest, hsingle, hobserved⟩ := observedAt_steps hoffsets
    (t := { state := x.entered }) (State.depth?_entered x) hrun
  exact ⟨rest, hsingle, hvalues.trans (congrArg (keepAll []) hobserved)⟩

end Scanner

/-- Nothing is on record at an offset where nothing is found. -/
theorem Progress.valuesAt_eq_nil {p : Progress} {offset : Nat} (h : p.findings offset = ([], [])) :
    p.log.valuesAt offset = [] :=
  congrArg (fun f => f.1.map Prod.snd) h

/-! ## 3. Reports -/

namespace Context

variable {c : Context}

/-- **An instruction at the offset lacks a number of its operands when it is reached**: the stack is
    not deep enough where the block it stands in has come to it. -/
def LacksAt (c : Context) (g : FlowGraph) (body : Body) (inputs : List State)
    (missing offset : Nat) : Prop :=
  ∃ n x before i after k, inputs[n]? = some x ∧ x.isTop = false ∧
    g.codeOf body n = before ++ i :: after ∧ i.offset = offset ∧ c.counts? i = some k ∧
    depthAfter c.scanner.stackEffect before x.stack.depth + missing ≤ k.takes

/-- **Which reasons are repeated on record.** -/
theorem one_lt_countP_iff (hinc : body.Increasing) {g : FlowGraph} (hd : FlowGraph.Drawn body g)
    {inputs : List State} (hlen : inputs.length = g.blockCount) {p : Progress}
    (hp : c.scanner.Tidy body p)
    (hr : ∀ (n : Nat) (x : State), inputs[n]? = some x → c.scanner.Recorded g body n x p)
    (offset : Nat) (reason : String) :
    1 < (p.log.valuesAt offset).countP (Observation.complainsOf reason) ↔
      reason = CodeFault.stackUnderflow.message ∧ c.LacksAt g body inputs 2 offset := by
  constructor
  · intro hcount
    by_cases hcode : ∀ i ∈ body.instructions, i.offset ≠ offset
    · rw [Progress.valuesAt_eq_nil (hp.code offset hcode)] at hcount
      cases hcount
    · obtain ⟨i, hi, rfl⟩ : ∃ i ∈ body.instructions, i.offset = offset := by simpa using hcode
      obtain ⟨n, hn, hin⟩ := FlowGraph.exists_mem_codeOf hd hi
      obtain ⟨x, hx⟩ : ∃ x, inputs[n]? = some x := ⟨_, List.getElem?_eq_getElem (hlen ▸ hn)⟩
      cases htop : x.isTop with
      | true =>
          rw [Progress.valuesAt_eq_nil ((hr n x hx).findings_of_isTop htop hin)] at hcount
          cases hcount
      | false =>
          obtain ⟨before, after, hsplit⟩ := List.append_of_mem hin
          obtain ⟨rest, hsingle, hvalues⟩ :=
            Scanner.valuesAt_of_recorded hinc (hr n x hx) htop hsplit
          rw [hvalues] at hcount
          obtain ⟨hreason, hmissing⟩ :=
            (Observation.one_lt_countP_keepAll hsingle _ reason).mp hcount
          refine ⟨hreason, ?_⟩
          cases hk : c.counts? i with
          | none =>
              have : c.scanner.takes i ≤ 1 := Scanner.takes_le_of_counts? hk
              omega
          | some k =>
              have : c.scanner.takes i = k.takes := Scanner.takes_of_counts? hk
              exact ⟨n, x, before, i, after, k, hx, htop, hsplit, rfl, hk, by omega⟩
  · rintro ⟨rfl, n, x, before, i, after, k, hx, htop, hsplit, rfl, hk, hmissing⟩
    obtain ⟨rest, hsingle, hvalues⟩ := Scanner.valuesAt_of_recorded hinc (hr n x hx) htop hsplit
    have htakes : c.scanner.takes i = k.takes := Scanner.takes_of_counts? hk
    rw [hvalues]
    exact (Observation.one_lt_countP_keepAll hsingle _ _).mpr ⟨rfl, by omega⟩

theorem faultReport?_eq_some {e : Nat × Observation} {offset : Nat} {reason : String} :
    c.faultReport? e = some ⟨⟨c.method.token, some offset⟩, .invalidCode, reason⟩ ↔
      e.2.complainsOf reason = true ∧ e.1 = offset := by
  obtain ⟨position, o⟩ := e
  rw [Observation.complainsOf_iff]
  unfold faultReport?
  constructor
  · intro h
    obtain ⟨f, hf, hreport⟩ := Option.map_eq_some_iff.mp h
    obtain ⟨horigin, _, hreason⟩ := Diagnostic.mk.inj hreport
    cases o with
    | fault f' =>
        obtain rfl := Option.some.inj hf
        exact ⟨⟨f', rfl, hreason⟩, Option.some.inj (Origin.mk.inj horigin).2⟩
    | _ => cases hf
  · rintro ⟨⟨f, rfl, rfl⟩, rfl⟩
    rfl

/-- **A fault is reported as often as it is on record.** -/
theorem count_faultReport? (log : ObservationLog Observation) (offset : Nat) (reason : String) :
    (log.toList.filterMap c.faultReport?).count
        ⟨⟨c.method.token, some offset⟩, .invalidCode, reason⟩ =
      (log.valuesAt offset).countP (Observation.complainsOf reason) := by
  rw [List.count_filterMap, ← filter_toList, List.countP_map, List.countP_filter]
  refine List.countP_congr fun e _ => ?_
  rw [beq_iff_eq, Bool.and_eq_true, beq_iff_eq, faultReport?_eq_some]
  rfl

/-- **What acting on the observations of an iteration repeats.** -/
theorem repeats_of_iterate (hs : c.store.Tabled) (hm : c.store.Defines c.method) {body : Body}
    (hinc : body.Increasing) (hreports : c.config.reportsInvalidCode = true) {g : FlowGraph}
    (hg : FlowGraph.ofBody body = .ok g) {session session' : Session}
    (hf : session.memo.Faithful c.store) {solution : Solution State} {p : Progress}
    (h : (c.iterate body g).run session = (.ok (solution, p), session')) :
    ∃ new, ((c.applyAll p.log).run session').2.ledger.diagnostics =
        session.ledger.diagnostics ++ new ∧
      ∀ offset reason, 1 < new.count ⟨⟨c.method.token, some offset⟩, .invalidCode, reason⟩ ↔
        reason = CodeFault.stackUnderflow.message ∧
          c.LacksAt g body solution.inputs 2 offset := by
  obtain ⟨_, _, hd⟩ := FlowGraph.ofBody_inv hg
  obtain ⟨rfl, htidy, hlen, hrecorded⟩ := iterate_recorded hs hm hinc hg hf h
  have hledger : p.session.ledger = session.ledger := by
    have := c.ledger_iterate body g session
    rwa [h] at this
  obtain ⟨l, hl, _⟩ := c.entered_applyAll (Q := fun _ => True) (fun _ _ => trivial) p.session
  -- what is entered about code is what is on record
  have hfaults : l.codeFaults = p.log.toList.filterMap c.faultReport? := by
    have hall := codeFaults_applyAll hreports p.log p.session
    rw [hl, Ledger.codeFaults_append] at hall
    exact List.append_cancel_left hall
  refine ⟨l.diagnostics, ?_, fun offset reason => ?_⟩
  · rw [hl, hledger]
    rfl
  · have hcount : l.diagnostics.count ⟨⟨c.method.token, some offset⟩, .invalidCode, reason⟩ =
        l.codeFaults.count ⟨⟨c.method.token, some offset⟩, .invalidCode, reason⟩ :=
      (List.count_filter (p := fun d : Diagnostic => d.code == .invalidCode) rfl).symm
    rw [hcount, hfaults, count_faultReport?]
    exact one_lt_countP_iff hinc hd hlen htidy hrecorded offset reason

end Context

/-! ## 4. Analyses -/

/-- **A fault in code is reported once for each instruction and reason, but for missing operands.**
    Of the diagnostics that an analysis adds, two or more agree in offset and reason exactly if the
    reason is that of a missing operand and the instruction there lacks two or more operands when it
    is reached.  However often a block was visited does not matter.  The store is built from any
    declarations, and the session may have any history. -/
theorem analyze_repeats (ds : List Declaration) (config : Config) (token : Token)
    (typeArgs methodArgs : List TypeSig) {session after : Session} {m : MethodDef} {body : Body}
    {report : MethodReport} (hsession : (ofList ds).Reached session)
    (hm : (ofList ds).methodDef? token = some m) (hb : (ofList ds).body? m.token = some body)
    (hinc : body.Increasing) (hreports : config.reportsInvalidCode = true)
    (h : ((ofList ds).analyze config token typeArgs methodArgs).run session = (.ok report, after))
    (hc : report.hasConverged = true) :
    ∃ g solution new, FlowGraph.ofBody body = .ok g ∧ report.states = some solution ∧
      after.ledger.diagnostics = session.ledger.diagnostics ++ new ∧
      ∀ offset reason, 1 < new.count ⟨⟨m.token, some offset⟩, .invalidCode, reason⟩ ↔
        reason = CodeFault.stackUnderflow.message ∧
          Context.LacksAt ⟨ofList ds, config, m, typeArgs, methodArgs⟩ g body solution.inputs 2
            offset := by
  have hs := tabled_ofList ds
  obtain ⟨g, solution, p, session', hg, hiterate, rfl, rfl⟩ :=
    Context.analyzeBody_ok (analyze_converged hm hb h hc)
  obtain ⟨new, hnew, hrepeats⟩ := Context.repeats_of_iterate hs (hs.defines_methodDef? hm) hinc
    hreports hg (hsession.faithful hs) hiterate
  exact ⟨g, solution, new, hg, rfl, hnew, hrepeats⟩

namespace Lacking

def method : MethodDef where
  token := ⟨0x06000001⟩
  declaring := ⟨0x02000001⟩
  name := "M"
  flags := 0x16
  sig := ⟨false, false, 0, .prim .void, []⟩
  paramNames := []

/-- A body with given instructions, in a program that has nothing else. -/
def bodyOf (instructions : List Instruction) : Body where
  maxStack := 2
  initLocals := true
  locals := [.prim .int32]
  instructions := instructions
  clauses := []

def declarations (body : Body) : List Declaration :=
  [.type "app" "N" "C" 1 none,
   .method method.declaring method.name method.flags method.sig, .body method.token body]

/-- A report of a missing operand. -/
def underflow (offset : Nat) : Diagnostic :=
  ⟨⟨method.token, some offset⟩, .invalidCode, "evaluation stack underflow"⟩

/-- An addition on an empty stack. -/
def addition : Body := bodyOf [⟨0, .add, .empty⟩, ⟨1, .pop, .empty⟩, ⟨2, .ret, .empty⟩]

/-- A loop that takes one operand too many and then adds two that are not there. -/
def loop : Body := bodyOf
  [⟨0, .ldcI45, .empty⟩, ⟨1, .stloc0, .empty⟩,
   ⟨2, .pop, .empty⟩, ⟨3, .add, .empty⟩, ⟨4, .pop, .empty⟩, ⟨5, .ldcI46, .empty⟩,
   ⟨6, .stloc0, .empty⟩, ⟨7, .ldloc0, .empty⟩, ⟨8, .brtrueS, .target 2⟩,
   ⟨10, .ret, .empty⟩]

end Lacking

/-- **An addition on an empty stack is reported twice**, with one offset and one reason. -/
theorem addition_repeats : ∃ report after,
    ((ofList (Lacking.declarations Lacking.addition)).analyze {} Lacking.method.token).run {} =
      (.ok report, after) ∧ report.hasConverged = true ∧
    after.ledger.diagnostics = [Lacking.underflow 0, Lacking.underflow 0] := by
  have hrun : (((ofList (Lacking.declarations Lacking.addition)).analyze {}
        Lacking.method.token).run {}).1.toOption.map MethodReport.hasConverged = some true ∧
      (((ofList (Lacking.declarations Lacking.addition)).analyze {}
        Lacking.method.token).run {}).2.ledger.diagnostics =
          [Lacking.underflow 0, Lacking.underflow 0] := by
    decide +kernel
  generalize ((ofList (Lacking.declarations Lacking.addition)).analyze {}
    Lacking.method.token).run {} = answer at hrun
  obtain ⟨fault | report, after⟩ := answer
  · cases hrun.1
  · exact ⟨report, after, rfl, Option.some.inj hrun.1, hrun.2⟩

/-- The loop is visited twice. -/
theorem Lacking.loop_converges :
    (((ofList (declarations loop)).analyze {} method.token).run {}).1.toOption.map
        MethodReport.outcome = some (.converged 6) ∧
    (((ofList (declarations loop)).analyze {} method.token).run {}).2.ledger.diagnostics =
      [underflow 2, underflow 3, underflow 3] := by
  decide +kernel

/-- The operand that is missing at the start of the loop is reported once, also at the second visit;
    the addition, which lacks two, is the only instruction with a reason that is repeated. -/
theorem loop_repeats : ∃ report after g solution,
    ((ofList (Lacking.declarations Lacking.loop)).analyze {} Lacking.method.token).run {} =
      (.ok report, after) ∧ report.outcome = .converged 6 ∧
    after.ledger.diagnostics =
      [Lacking.underflow 2, Lacking.underflow 3, Lacking.underflow 3] ∧
    FlowGraph.ofBody Lacking.loop = .ok g ∧ report.states = some solution ∧
    ∀ offset, offset = 3 ↔ Context.LacksAt
      ⟨ofList (Lacking.declarations Lacking.loop), {}, Lacking.method, [], []⟩ g Lacking.loop
      solution.inputs 2 offset := by
  obtain ⟨houtcome, hdiagnostics⟩ := Lacking.loop_converges
  generalize hanswer : ((ofList (Lacking.declarations Lacking.loop)).analyze {}
    Lacking.method.token).run {} = answer at houtcome hdiagnostics
  obtain ⟨fault | report, after⟩ := answer
  · cases houtcome
  · have houtcome : report.outcome = .converged 6 := Option.some.inj houtcome
    have hc : report.hasConverged = true := by
      unfold MethodReport.hasConverged
      rw [houtcome]
    have hinc : Lacking.loop.Increasing := by unfold Body.Increasing; decide
    obtain ⟨g, solution, new, hg, hstates, hnew, hrepeats⟩ := analyze_repeats
      (Lacking.declarations Lacking.loop) {} Lacking.method.token [] [] .fresh
      (m := Lacking.method) (by decide +kernel) (by decide +kernel) hinc rfl hanswer hc
    refine ⟨report, after, g, solution, rfl, houtcome, hdiagnostics, hg, hstates, fun offset => ?_⟩
    -- the diagnostics tell where two operands are missing
    have hcount := hrepeats offset CodeFault.stackUnderflow.message
    rw [and_iff_right rfl] at hcount
    rw [← hcount, show new = _ from hnew.symm.trans hdiagnostics]
    constructor
    · rintro rfl
      decide
    · intro hrepeated
      refine Classical.byContradiction fun hne => ?_
      have hthree : Lacking.underflow 3 ≠ Lacking.underflow offset := fun heq =>
        hne (Option.some.inj (Origin.mk.inj (Diagnostic.mk.inj heq).1).2).symm
      have hone : [Lacking.underflow 2, Lacking.underflow 3, Lacking.underflow 3].count
          (Lacking.underflow offset) = [Lacking.underflow 2].count (Lacking.underflow offset) := by
        rw [List.count_cons, List.count_cons_of_ne hthree, List.count_cons_of_ne hthree,
          ← List.count_cons]
      have hle : [Lacking.underflow 2].count (Lacking.underflow offset) ≤ 1 := List.count_le_length
      exact absurd (hone ▸ hrepeated) (Nat.not_lt.mpr hle)

end ReflectionFlow

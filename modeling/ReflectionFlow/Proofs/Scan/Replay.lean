/-
  File:      ReflectionFlow/Proofs/Scan/Replay.lean
  Subject:   What an analysis has recorded is what one visit of each block gives.

  A block may be visited many times before the iteration ends.  Each visit first drops what the
  block has recorded before, and no other block records anything at the offsets of this one.  So in
  the end the record of a block is that of its last visit, which had the input the block has now;
  and a block that nothing reaches has recorded nothing.

  * `Scanner.replay`                 one visit of each block, in order, with given inputs
  * `Scanner.Recorded`               the record of a block is that of one visit of it alone
  * `Scanner.recording`              visits make it true and leave it true
  * `Scanner.replayFrom_recorded`    so does the replay, block after block
  * `Scanner.record_unique`          such records are equal
  * `Context.iterate_recorded`       what an iteration leaves
  * `Context.Replayed`, `analyze_replays`
-/
import ReflectionFlow.Proofs.Scan.Atomicity
import ReflectionFlow.Proofs.Scan.History

namespace ReflectionFlow

open Store

/-! ## 1. One visit of each block -/

namespace Scanner

/-- Visits a block with an input, unless nothing reaches it. -/
def revisit (sc : Scanner) (g : FlowGraph) (body : Body) (n : Nat) (x : State) (p : Progress) :
    Except BrokenPromise Progress :=
  if x.isTop then .ok p
  else match sc.transfer g body n x p with
    | (.ok _, p) => .ok p
    | (.error b, _) => .error b

/-- Visits blocks once each, in order from a given one, with given inputs. -/
def replayFrom (sc : Scanner) (g : FlowGraph) (body : Body) :
    Nat → List State → Progress → Except BrokenPromise Progress
  | _, [], p => .ok p
  | n, x :: rest, p => do sc.replayFrom g body (n + 1) rest (← sc.revisit g body n x p)

/-- **Visits every block once**, in order, with given inputs. -/
def replay (sc : Scanner) (g : FlowGraph) (body : Body) (inputs : List State) (p : Progress) :
    Except BrokenPromise Progress :=
  sc.replayFrom g body 0 inputs p

/-- What one visit of a block alone records. -/
def alone (sc : Scanner) (g : FlowGraph) (body : Body) (n : Nat) (x : State) : Progress :=
  if x.isTop then { session := {} } else (sc.transfer g body n x { session := {} }).2

/-- The code of a block is interpreted to its end, if something reaches the block. -/
def Completes (sc : Scanner) (g : FlowGraph) (body : Body) (n : Nat) (x : State) : Prop :=
  x.isTop = false → ∃ t, sc.context.store.Gives
    (sc.steps n (g.codeOf body n) { state := x.entered }) (.ok t) {}

/-- **The record of a block is that of one visit of it alone**, with an input. -/
structure Recorded (sc : Scanner) (g : FlowGraph) (body : Body) (n : Nat) (x : State)
    (p : Progress) : Prop where
  completes : sc.Completes g body n x
  findings : ∀ i ∈ g.codeOf body n, p.findings i.offset = (sc.alone g body n x).findings i.offset

variable {sc : Scanner} {g : FlowGraph} {body : Body} {p p' : Progress}

/-! ## 2. Visits -/

/-- What nothing reaches has recorded nothing. -/
theorem recorded_of_isTop {n : Nat} {x : State} (hx : x.isTop = true)
    (h : ∀ i ∈ g.codeOf body n, p.findings i.offset = ([], [])) : sc.Recorded g body n x p := by
  constructor
  · intro hnt
    rw [hx] at hnt
    cases hnt
  · intro i hi
    rw [h i hi]
    unfold alone
    rw [if_pos hx]
    rfl

theorem Recorded.findings_of_isTop {n : Nat} {x : State} (h : sc.Recorded g body n x p)
    (hx : x.isTop = true) {i : Instruction} (hi : i ∈ g.codeOf body n) :
    p.findings i.offset = ([], []) := by
  rw [h.findings i hi]
  unfold alone
  rw [if_pos hx]
  rfl

/-- **A visit makes the record of the block that of this visit alone.** -/
theorem recorded_of_transfer (hs : sc.context.store.Tabled) (hinc : body.Increasing) {n : Nat}
    {x y : State} (hx : x.isTop = false) (hp : sc.Tidy body p)
    (h : sc.transfer g body n x p = (.ok y, p')) : sc.Recorded g body n x p' := by
  obtain ⟨hcode, _⟩ | ⟨j, rest, result, memo, hcode, hgives, _, htransfer⟩ :=
    transfer_cases hs hp.memo g body n x
  · constructor
    · intro _
      rw [hcode]
      exact ⟨_, gives_pure _⟩
    · intro i hi
      rw [hcode] at hi
      cases hi
  · rw [htransfer] at h
    cases result with
    | error b => cases (Prod.mk.inj h).1
    | ok t =>
        obtain ⟨_, rfl⟩ := Prod.mk.inj h
        refine ⟨fun _ => ⟨t, hgives⟩, fun i hi => ?_⟩
        -- both visits first empty the offsets of the block and then file the same trace
        have hfresh : sc.Tidy body { session := {} } := tidy_fresh body (faithful_empty _)
        obtain ⟨memo₀, _, htransfer₀⟩ := transfer_of_gives hcode (hcode ▸ hgives) hfresh.memo
        obtain ⟨hlo, hhi⟩ := FlowGraph.offset_between hinc hcode hi
        have hempty : ∀ q : Progress,
            (q.forget j.offset ((j :: rest).getLastD j).offset).findings i.offset = ([], []) :=
          fun q => Progress.findings_forget_inside hlo hhi
        unfold alone
        rw [if_neg (by rw [hx]; exact Bool.false_ne_true), htransfer₀]
        exact Progress.findings_file_congr (hp.sorted.forget _ _) (hfresh.sorted.forget _ _)
          ((hempty _).trans (hempty _).symm) t

/-- **A visit of another block leaves the record of a block alone.** -/
theorem Recorded.transfer (hs : sc.context.store.Tabled) (hd : FlowGraph.Drawn body g)
    (hinc : body.Increasing) {n m : Nat} (hne : n ≠ m) {x z w : State} (hp : sc.Tidy body p)
    (hr : sc.Recorded g body n x p) (h : sc.transfer g body m z p = (.ok w, p')) :
    sc.Recorded g body n x p' := by
  refine ⟨hr.completes, fun i hi => ?_⟩
  rw [← hr.findings i hi]
  obtain ⟨_, htransfer⟩ | ⟨j, rest, result, memo, hcode, hgives, hmemo, htransfer⟩ :=
    transfer_cases hs hp.memo g body m z
  · rw [htransfer] at h
    obtain ⟨_, rfl⟩ := Prod.mk.inj h
    rfl
  · rw [htransfer] at h
    cases result with
    | error b => cases (Prod.mk.inj h).1
    | ok t =>
        obtain ⟨_, rfl⟩ := Prod.mk.inj h
        have hforget := hp.forget j.offset ((j :: rest).getLastD j).offset hmemo p.session.ledger
        have houtside := FlowGraph.offset_not_between hd hinc hne hi hcode
        -- nothing is noted at the offset: the offsets of the visited block lie elsewhere
        have hother : ∀ k ∈ g.codeOf body m, k.offset ≠ i.offset := by
          intro k hk heq
          have := FlowGraph.offset_between hinc hcode hk
          rw [heq] at this
          exact houtside this
        obtain ⟨hobserved, hreturned⟩ := noted_in_body hs hgives
        refine (Progress.findings_file_of_not_noted hforget.sorted ?_ ?_).trans
          (Progress.findings_forget_outside houtside)
        · intro e he heq
          obtain ⟨⟨k, hk, hek⟩, _⟩ := hobserved e he
          exact hother k hk (hek.symm.trans heq)
        · intro e he heq
          obtain ⟨k, hk, hek⟩ := hreturned e he
          exact hother k hk (hek.symm.trans heq)

/-- **Visits make records those of single visits and keep them so.** -/
theorem recording (hs : sc.context.store.Tabled) (hd : FlowGraph.Drawn body g)
    (hinc : body.Increasing) :
    Recording (sc.analysis g body) (sc.Tidy body) (sc.Recorded g body) where
  observe n x y p p' hp h := by
    have htidy := hp.transfer hs g n x
    rw [show sc.transfer g body n x p = (.ok y, p') from h] at htidy
    exact htidy
  made n x y p p' hx hp h := recorded_of_transfer hs hinc hx hp h
  kept n m x z w p p' hne hp hr h := hr.transfer hs hd hinc hne hp h

/-! ## 3. The replay -/

/-- **A visit of the replay** succeeds where a single visit does. -/
theorem revisit_recorded (hs : sc.context.store.Tabled) (hd : FlowGraph.Drawn body g)
    (hinc : body.Increasing) {n : Nat} {x : State} (hp : sc.Tidy body p)
    (hx : sc.Completes g body n x)
    (hempty : ∀ i ∈ g.codeOf body n, p.findings i.offset = ([], [])) :
    ∃ q, sc.revisit g body n x p = .ok q ∧ sc.Tidy body q ∧ sc.Recorded g body n x q ∧
      ∀ m z, m ≠ n → sc.Recorded g body m z p → sc.Recorded g body m z q := by
  unfold revisit
  cases htop : x.isTop with
  | true => exact ⟨p, rfl, hp, recorded_of_isTop htop hempty, fun _ _ _ h => h⟩
  | false =>
      obtain ⟨t, hgives⟩ := hx htop
      have hok : ∃ y q, sc.transfer g body n x p = (.ok y, q) := by
        obtain ⟨_, htransfer⟩ | ⟨j, rest, _, _, hcode, _⟩ := transfer_cases hs hp.memo g body n x
        · exact ⟨_, _, htransfer⟩
        · obtain ⟨memo, _, htransfer⟩ := transfer_of_gives hcode (hcode ▸ hgives) hp.memo
          exact ⟨_, _, htransfer⟩
      obtain ⟨y, q, hq⟩ := hok
      have hrec : Recording (sc.analysis g body) (sc.Tidy body) (sc.Recorded g body) :=
        recording hs hd hinc
      refine ⟨q, ?_, hrec.observe n x y p q hp hq, hrec.made n x y p q htop hp hq, ?_⟩
      · rw [hq]
        rfl
      · intro m z hne hr
        exact hrec.kept m n z x y p q hne hp hr hq

/-- **The replay succeeds and leaves the record of every block that of one visit of it.** -/
theorem replayFrom_recorded (hs : sc.context.store.Tabled) (hd : FlowGraph.Drawn body g)
    (hinc : body.Increasing) {inputs : List State} {n : Nat} (hp : sc.Tidy body p)
    (hinputs : ∀ (k : Nat) (x : State), inputs[k]? = some x → sc.Completes g body (n + k) x)
    (hempty : ∀ m, n ≤ m → ∀ i ∈ g.codeOf body m, p.findings i.offset = ([], [])) :
    ∃ q, sc.replayFrom g body n inputs p = .ok q ∧ sc.Tidy body q ∧
      (∀ (k : Nat) (x : State), inputs[k]? = some x → sc.Recorded g body (n + k) x q) ∧
      ∀ m z, m < n → sc.Recorded g body m z p → sc.Recorded g body m z q := by
  induction inputs generalizing n p with
  | nil =>
      refine ⟨p, rfl, hp, ?_, fun _ _ _ h => h⟩
      intro k x hk
      cases hk
  | cons x rest ih =>
      obtain ⟨p₁, hvisit, hp₁, hr₁, hkeep₁⟩ := revisit_recorded hs hd hinc (n := n) (x := x) hp
        (hinputs 0 x rfl) (hempty n (Nat.le_refl n))
      have hempty₁ : ∀ m, n + 1 ≤ m → ∀ i ∈ g.codeOf body m, p₁.findings i.offset = ([], []) := by
        intro m hm i hi
        have hr : sc.Recorded g body m State.top p :=
          recorded_of_isTop rfl (hempty m (by omega))
        exact (hkeep₁ m State.top (by omega) hr).findings_of_isTop rfl hi
      have hinputs₁ : ∀ (k : Nat) (z : State), rest[k]? = some z →
          sc.Completes g body (n + 1 + k) z := by
        intro k z hk
        rw [show n + 1 + k = n + (k + 1) by omega]
        exact hinputs (k + 1) z hk
      obtain ⟨q, hq, htidy, hrec, hkeep⟩ := ih hp₁ hinputs₁ hempty₁
      refine ⟨q, ?_, htidy, ?_, ?_⟩
      · unfold replayFrom
        rw [hvisit]
        exact hq
      · intro k z hk
        cases k with
        | zero =>
            obtain rfl := Option.some.inj hk
            exact hkeep n x (by omega) hr₁
        | succ k =>
            have := hrec k z hk
            rwa [show n + 1 + k = n + (k + 1) by omega] at this
      · intro m z hm hr
        exact hkeep m z (by omega) (hkeep₁ m z (by omega) hr)

/-- Records of the same single visits are equal. -/
theorem record_unique (hd : FlowGraph.Drawn body g) {inputs : List State}
    (hlen : inputs.length = g.blockCount) {p q : Progress} (hp : sc.Tidy body p)
    (hq : sc.Tidy body q)
    (hrp : ∀ (n : Nat) (x : State), inputs[n]? = some x → sc.Recorded g body n x p)
    (hrq : ∀ (n : Nat) (x : State), inputs[n]? = some x → sc.Recorded g body n x q) :
    p.log = q.log ∧ p.returns = q.returns := by
  refine hp.sorted.ext hq.sorted fun offset => ?_
  by_cases hcode : ∀ i ∈ body.instructions, i.offset ≠ offset
  · rw [hp.code offset hcode, hq.code offset hcode]
  · obtain ⟨i, hi, hoffset⟩ : ∃ i ∈ body.instructions, i.offset = offset := by
      simpa using hcode
    subst hoffset
    obtain ⟨n, hn, hin⟩ := FlowGraph.exists_mem_codeOf hd hi
    obtain ⟨x, hx⟩ : ∃ x, inputs[n]? = some x := ⟨_, List.getElem?_eq_getElem (hlen ▸ hn)⟩
    rw [(hrp n _ hx).findings i hin, (hrq n _ hx).findings i hin]

end Scanner

/-! ## 4. Analyses -/

/-- An instruction at the offset stands in a block that something reaches. -/
def FlowGraph.Reaches (g : FlowGraph) (body : Body) (inputs : List State) (offset : Nat) : Prop :=
  ∃ n x i, inputs[n]? = some x ∧ x.isTop = false ∧ i ∈ g.codeOf body n ∧ i.offset = offset

/-- **What is recorded is recorded at instructions of blocks that something reaches.** -/
theorem Scanner.reaches_of_findings {sc : Scanner} {g : FlowGraph} {body : Body}
    (hd : FlowGraph.Drawn body g) {inputs : List State} (hlen : inputs.length = g.blockCount)
    {p : Progress} (hp : sc.Tidy body p)
    (hr : ∀ (n : Nat) (x : State), inputs[n]? = some x → sc.Recorded g body n x p) {offset : Nat}
    (h : p.findings offset ≠ ([], [])) : g.Reaches body inputs offset := by
  by_cases hcode : ∀ i ∈ body.instructions, i.offset ≠ offset
  · exact absurd (hp.code offset hcode) h
  · obtain ⟨i, hi, hoffset⟩ : ∃ i ∈ body.instructions, i.offset = offset := by
      simpa using hcode
    obtain ⟨n, hn, hin⟩ := FlowGraph.exists_mem_codeOf hd hi
    obtain ⟨x, hx⟩ : ∃ x, inputs[n]? = some x := ⟨_, List.getElem?_eq_getElem (hlen ▸ hn)⟩
    refine ⟨n, x, i, hx, ?_, hin, hoffset⟩
    cases htop : x.isTop with
    | false => rfl
    | true => exact absurd (hoffset ▸ (hr n x hx).findings_of_isTop htop hin) h

namespace Context

variable {c : Context}

/-- **The record of an iteration is in order, and that of each block is that of one visit of it**,
    with the input the iteration ends with. -/
theorem iterate_recorded (hs : c.store.Tabled) (hm : c.store.Defines c.method) {body : Body}
    (hinc : body.Increasing) {g : FlowGraph} (hg : FlowGraph.ofBody body = .ok g)
    {session after : Session} (hf : session.memo.Faithful c.store) {solution : Solution State}
    {p : Progress} (h : (c.iterate body g).run session = (.ok (solution, p), after)) :
    after = p.session ∧ c.scanner.Tidy body p ∧ solution.inputs.length = g.blockCount ∧
      ∀ (n : Nat) (x : State), solution.inputs[n]? = some x → c.scanner.Recorded g body n x p := by
  obtain ⟨_, _, hd⟩ := FlowGraph.ofBody_inv hg
  have hrec : Recording (c.scanner.analysis g body) (c.scanner.Tidy body)
      (c.scanner.Recorded g body) := Scanner.recording hs hd hinc
  obtain ⟨memo, hmemo, hrun⟩ := run_iterate hm hf body g
  rw [hrun] at h
  generalize hsolve : solve g (c.scanner.analysis g body) c.config.maxVisits
    { session := ⟨memo, session.ledger⟩ } = result at h
  obtain ⟨(budget | b) | solution', p'⟩ := result
  · cases (Prod.mk.inj h).1
  · cases (Prod.mk.inj h).1
  · obtain ⟨hanswer, rfl⟩ := Prod.mk.inj h
    obtain ⟨rfl, rfl⟩ := Prod.mk.inj (Except.ok.inj hanswer)
    obtain ⟨it, hreach, _, hinputs, _, hobserved⟩ := Reachable.of_solve hsolve
    have hstart : c.scanner.Tidy body { session := ⟨memo, session.ledger⟩ } :=
      Scanner.tidy_fresh body hmemo
    obtain ⟨htidy, hrecorded⟩ := hrec.reachable hstart
      (fun n => Scanner.recorded_of_isTop rfl fun _ _ => rfl) hreach
    rw [hobserved] at htidy hrecorded
    rw [hinputs] at hrecorded
    exact ⟨rfl, htidy, hinputs ▸ hreach.length.1, hrecorded⟩

/-- **The record of an iteration is that of one visit of each block** with the inputs it ends
    with. -/
theorem iterate_replays (hs : c.store.Tabled) (hm : c.store.Defines c.method) {body : Body}
    (hinc : body.Increasing) {g : FlowGraph} (hg : FlowGraph.ofBody body = .ok g)
    {session fresh after : Session} (hf : session.memo.Faithful c.store)
    (hfresh : fresh.memo.Faithful c.store) {solution : Solution State} {p : Progress}
    (h : (c.iterate body g).run session = (.ok (solution, p), after)) :
    after = p.session ∧
    (∃ q, c.scanner.replay g body solution.inputs { session := fresh } = .ok q ∧
      p.log = q.log ∧ p.returns = q.returns) ∧
    ∀ offset, p.findings offset ≠ ([], []) → g.Reaches body solution.inputs offset := by
  obtain ⟨_, _, hd⟩ := FlowGraph.ofBody_inv hg
  obtain ⟨rfl, htidy, hlen, hrecorded⟩ := iterate_recorded hs hm hinc hg hf h
  have hblank : c.scanner.Tidy body { session := fresh } := Scanner.tidy_fresh body hfresh
  obtain ⟨q, hq, hqtidy, hqrecorded, _⟩ := Scanner.replayFrom_recorded (n := 0) hs hd hinc hblank
    (fun n x hx => by
      rw [Nat.zero_add]
      exact (hrecorded n x hx).completes)
    (fun _ _ _ _ => rfl)
  simp only [Nat.zero_add] at hqrecorded
  refine ⟨rfl, ⟨q, hq, ?_⟩, ?_⟩
  · exact Scanner.record_unique hd hlen htidy hqtidy hrecorded hqrecorded
  · intro offset hoffset
    exact Scanner.reaches_of_findings hd hlen htidy hrecorded hoffset

/-- **The outcome of an analysis is that of one visit of each block.** -/
structure Replayed (c : Context) (token : Token) (body : Body) (session fresh after : Session)
    (report : MethodReport) (g : FlowGraph) (solution : Solution State) (p q : Progress) :
    Prop where
  graph : FlowGraph.ofBody body = .ok g
  /-- The iteration ends with states at all borders and with a record, -/
  iterated : (c.iterate body g).run session = (.ok (solution, p), p.session)
  /-- and one visit of each block with the input it ends with, in another session, -/
  replayed : c.scanner.replay g body solution.inputs { session := fresh } = .ok q
  /-- gives the same observations in the same order and the same returned values. -/
  log : p.log = q.log
  returns : p.returns = q.returns
  /-- The report is read off this record, and its observations are acted on. -/
  reported : report = ⟨token, q.returned, .converged solution.visits, q.log.size, some solution⟩
  applied : after = ((c.applyAll q.log).run p.session).2
  /-- Blocks that nothing reaches are behind no observation, no returned value, -/
  observations : ∀ e ∈ q.log.entries, g.Reaches body solution.inputs e.1.1
  values : ∀ e ∈ q.returns, g.Reaches body solution.inputs e.1
  /-- no mark and no diagnostic. -/
  entries : ∃ l : Ledger, after.ledger = session.ledger ++ l ∧
    l.From fun o => ∃ offset, o = ⟨c.method.token, some offset⟩ ∧
      g.Reaches body solution.inputs offset

theorem replayed_of_iterate (hs : c.store.Tabled) (hm : c.store.Defines c.method) {body : Body}
    (hinc : body.Increasing) {g : FlowGraph} (hg : FlowGraph.ofBody body = .ok g)
    {session fresh session' : Session} (hf : session.memo.Faithful c.store)
    (hfresh : fresh.memo.Faithful c.store) {solution : Solution State} {p : Progress}
    (h : (c.iterate body g).run session = (.ok (solution, p), session')) (token : Token) :
    ∃ q, c.Replayed token body session fresh ((c.applyAll p.log).run session').2
      ⟨token, p.returned, .converged solution.visits, p.log.size, some solution⟩ g solution p q := by
  obtain ⟨rfl, ⟨q, hq, hlog, hreturns⟩, hreaches⟩ := iterate_replays hs hm hinc hg hf hfresh h
  have hobservations : ∀ e ∈ p.log.entries, g.Reaches body solution.inputs e.1.1 := by
    intro e he
    refine hreaches _ fun hnone => ?_
    rw [← Progress.mem_findings_log, hnone] at he
    cases he
  have hvalues : ∀ e ∈ p.returns, g.Reaches body solution.inputs e.1 := by
    intro e he
    refine hreaches _ fun hnone => ?_
    rw [← Progress.mem_findings_returns, hnone] at he
    cases he
  have hledger : p.session.ledger = session.ledger := by
    have := c.ledger_iterate body g session
    rwa [h] at this
  have hentries := c.entered_applyAll hobservations p.session
  rw [hledger] at hentries
  refine ⟨q, ?_⟩
  constructor
  case graph => exact hg
  case iterated => exact h
  case replayed => exact hq
  case log => exact hlog
  case returns => exact hreturns
  case reported =>
      unfold Progress.returned
      rw [hlog, hreturns]
  case applied => rw [hlog]
  case observations => exact hlog ▸ hobservations
  case values => exact hreturns ▸ hvalues
  case entries => exact hentries

end Context

/-- **What an analysis records, reports, marks and returns is what one visit of each block gives**,
    with the states the iteration ends with, however often blocks were visited before.  The store
    is built from any declarations, and both sessions may have any history. -/
theorem analyze_replays (ds : List Declaration) (config : Config) (token : Token)
    (typeArgs methodArgs : List TypeSig) {session fresh after : Session} {m : MethodDef}
    {body : Body} {report : MethodReport} (hsession : (ofList ds).Reached session)
    (hfresh : (ofList ds).Reached fresh) (hm : (ofList ds).methodDef? token = some m)
    (hb : (ofList ds).body? m.token = some body) (hinc : body.Increasing)
    (h : ((ofList ds).analyze config token typeArgs methodArgs).run session = (.ok report, after))
    (hc : report.hasConverged = true) :
    ∃ g solution p q, Context.Replayed ⟨ofList ds, config, m, typeArgs, methodArgs⟩ token body
      session fresh after report g solution p q := by
  have hs := tabled_ofList ds
  obtain ⟨g, solution, p, session', hg, hiterate, rfl, rfl⟩ :=
    Context.analyzeBody_ok (analyze_converged hm hb h hc)
  obtain ⟨q, hq⟩ := Context.replayed_of_iterate hs (hs.defines_methodDef? hm) hinc hg
    (hsession.faithful hs) (hfresh.faithful hs) hiterate token
  exact ⟨g, solution, p, q, hq⟩

namespace Search

/-- A library method that finds types by name, which has no body. -/
def getType : MethodDef where
  token := ⟨0x06000001⟩
  declaring := ⟨0x02000001⟩
  name := "GetType"
  flags := 0x16
  sig := ⟨false, false, 0, .classType ⟨0x02000001⟩, [.prim .string]⟩
  paramNames := []

def method : MethodDef where
  token := ⟨0x06000002⟩
  declaring := ⟨0x02000002⟩
  name := "M"
  flags := 0x16
  sig := ⟨false, false, 0, .prim .int32, []⟩
  paramNames := []

/-- Finds one type by name and then, in a loop, another one; nothing reaches the last search. -/
def body : Body where
  maxStack := 1
  initLocals := true
  locals := [.prim .string]
  instructions :=
    [⟨0, .ldstr, .string "N.C"⟩, ⟨5, .stloc0, .empty⟩,
     ⟨6, .ldloc0, .empty⟩, ⟨7, .call, .token getType.token⟩, ⟨12, .ldstr, .string "N.D"⟩,
     ⟨17, .stloc0, .empty⟩, ⟨18, .brtrueS, .target 6⟩,
     ⟨20, .ldcI45, .empty⟩, ⟨21, .ret, .empty⟩,
     ⟨22, .ldstr, .string "N.E"⟩, ⟨27, .call, .token getType.token⟩, ⟨32, .pop, .empty⟩,
     ⟨33, .ldcI47, .empty⟩, ⟨34, .ret, .empty⟩]
  clauses := []

def declarations : List Declaration :=
  [.type "lib" "System" "Type" 1 none, .type "app" "N" "C" 1 none, .type "app" "N" "D" 1 none,
   .type "app" "N" "E" 1 none, .method getType.declaring getType.name getType.flags getType.sig,
   .method method.declaring method.name method.flags method.sig, .body method.token body]

/-- The loop is visited twice, and the first visit sees one name only. -/
theorem converges :
    (((ofList declarations).analyze {} method.token).run {}).1.toOption.map MethodReport.outcome =
      some (.converged 7) ∧
    (((ofList declarations).analyze {} method.token).run {}).2.ledger.marks.map (·.origin) =
      [⟨method.token, some 7⟩, ⟨method.token, some 7⟩] := by
  decide +kernel

end Search

/-- One visit of each block gives the marks of the loop for both names, and none for the search that
    nothing reaches. -/
theorem search_replays : ∃ report after g solution p q,
    ((ofList Search.declarations).analyze {} Search.method.token).run {} = (.ok report, after) ∧
    after.ledger.marks.length = 2 ∧
    Context.Replayed ⟨ofList Search.declarations, {}, Search.method, [], []⟩ Search.method.token
      Search.body {} {} after report g solution p q := by
  obtain ⟨houtcome, hmarks⟩ := Search.converges
  generalize hanswer : ((ofList Search.declarations).analyze {} Search.method.token).run {} =
    answer at houtcome hmarks
  obtain ⟨fault | report, after⟩ := answer
  · cases houtcome
  · have hc : report.hasConverged = true := by
      unfold MethodReport.hasConverged
      rw [show report.outcome = .converged 7 from Option.some.inj houtcome]
    have hinc : Search.body.Increasing := by unfold Body.Increasing; decide
    obtain ⟨g, solution, p, q, hq⟩ := analyze_replays Search.declarations {} Search.method.token
      [] [] .fresh .fresh (m := Search.method) (by decide +kernel) (by decide +kernel) hinc hanswer hc
    exact ⟨report, after, g, solution, p, q, rfl, by simpa using congrArg List.length hmarks, hq⟩

end ReflectionFlow

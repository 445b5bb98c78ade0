/-
  File:      ReflectionFlow/Proofs/Scan/Termination.lean
  Subject:   When the analysis of a method ends.

  The iteration of a method ends only if there is a bound on how deep the stack gets on the paths
  through its body.  A loop that leaves something on the stack each time round has none, and no
  number of visits is enough for it.  For code that is confined to a range of values the bound is
  all it takes: the states that visits can leave behind are then finitely many, and visits are
  monotone.  Steady code is confined to what it brings in.

  * `Scanner.Confined`                such code; `Scanner.confined_brought` steady code
  * `Scanner.Confined.convergent`     confined code with bounded stacks
  * `Scanner.Confined.exists_budget`  a number of visits that is enough
  * `Store.converges_of_confined`     the same for reports
  * `Store.outcome_of_steady`         steady code converges or runs out of visits
  * `analyze_converges_or_exhausts`   the two conditions put together
  * `growing_exhausts`                a loop for which no number of visits is enough
-/
import ReflectionFlow.Proofs.Flow.Cycles
import ReflectionFlow.Proofs.Scan.Monotone
import ReflectionFlow.Proofs.Scan.Outcome
import ReflectionFlow.Proofs.State.Finite

namespace ReflectionFlow

/-! ## 1. Confined code with bounded stacks -/

namespace Scanner

variable {sc : Scanner} {session : Session} {g : FlowGraph} {body : Body} {U : Value → Prop}

/-- **Code that is confined to finitely many values.** -/
structure Confined (sc : Scanner) (session : Session) (body : Body) (U : Value → Prop) : Prop where
  calls : body.CallsQuietly sc (sc.context.store.answers session)
  range : sc.Range U
  tame : ∀ i ∈ body.instructions, sc.Tame session U i
  entry : ∀ e ∈ sc.entryArguments, U e.2
  finite : {v | U v}.Finite

/-- Steady code is confined to what it brings in. -/
theorem confined_brought (hb : body.Steady sc (sc.context.store.answers session)) :
    sc.Confined session body (Brought sc session body) where
  calls i hi := (hb i hi).callsQuietly
  range := (universe_brought hb).range
  tame i hi := (hb i hi).tame (universe_brought hb) (supplied_brought hb hi)
  entry e he := .entry e he
  finite := finite_brought sc session body

/-- How deep a stack can be when a block is left, if none is entered deeper than a bound. -/
def depthLeft (sc : Scanner) (g : FlowGraph) (body : Body) (bound : Nat) : Nat :=
  ((List.range g.blockCount).map fun b => depthAfter sc.stackEffect (g.codeOf body b) bound).sum

/-- States over a range of values, reached with a stack of bounded depth or not at all. -/
def leftStates (U : Value → Prop) (depth : Nat) : Set State :=
  {s | (s.Over (SetOf.Within U) ∧ s.Whole) ∧ s.stack.depth ≤ depth}

theorem finite_leftStates (hfin : {v | U v}.Finite) (depth : Nat) : (leftStates U depth).Finite :=
  (State.finite_over hfin depth).subset fun _ hs => ⟨hs.1.1, hs.2⟩

theorem succeeds_quiet (hb : body.CallsQuietly sc (sc.context.store.answers session)) :
    (sc.analysis g body).Succeeds
      (fun p => sc.context.store.answers p.session = sc.context.store.answers session)
      (sc.quietVisit session g body) := fun _ x _ hp => sc.transfer_quiet hb x hp

theorem Confined.boundary (h : sc.Confined session body U) :
    ∀ e ∈ (sc.analysis g body).boundary, e.2.Over (SetOf.Within U) ∧ e.2.Whole := by
  intro e he
  refine ⟨over_boundary (SetOf.within_single h.range.unknown) (fun e he => ?_) e he,
    whole_boundary e he⟩
  exact SetOf.within_single (h.entry e he)

/-- No run leaves a block with a deeper stack. -/
theorem depth_le_depthLeft {bound : Nat}
    (hbound : ∀ b d, g.DepthAt sc.stackEffect body b d → d ≤ bound) {p : Progress}
    {it : Iteration State Progress} (hr : Reachable g (sc.analysis g body) p it) {b : Nat} {y : State}
    (hy : it.outputs[b]? = some y) : y.stack.depth ≤ sc.depthLeft g body bound := by
  have hlt : b < g.blockCount := hr.length.2 ▸ (List.getElem?_eq_some_iff.mp hy).1
  have hout := ((depth_invariant.reachable trivial hr).outputs b y hy).2
  cases hk : y.stack with
  | top => exact Nat.zero_le _
  | slots l =>
      obtain ⟨n, hn, hl⟩ := hout l.length (by rw [hk]; rfl)
      have hle := depthAfter_mono sc.stackEffect (hbound b n hn) (g.codeOf body b)
      refine Nat.le_trans (hl ▸ hle) ?_
      exact List.le_sum_of_mem (List.mem_map_of_mem (List.mem_range.mpr hlt))

/-- **Confined code with bounded stacks** has all it takes to converge. -/
theorem Confined.convergent (h : sc.Confined session body U) (hd : FlowGraph.Drawn body g)
    {bound : Nat} (hbound : ∀ b d, g.DepthAt sc.stackEffect body b d → d ≤ bound) {p : Progress}
    (hp : sc.context.store.answers p.session = sc.context.store.answers session) :
    Convergent g (sc.analysis g body) (fun s => s.Over (SetOf.Within U) ∧ s.Whole) State.Covers
      (fun p => sc.context.store.answers p.session = sc.context.store.answers session)
      (sc.quietVisit session g body) p (leftStates U (sc.depthLeft g body bound)) := by
  have hO : MeetOrder (fun s : State => s.Over (SetOf.Within U) ∧ s.Whole) State.Covers :=
    (State.meetOrder U h.range.unknown).restrict (fun _ => rfl) fun _ _ => State.Whole.meet
  have hmono : MonotoneOn (fun s : State => s.Over (SetOf.Within U) ∧ s.Whole) State.Covers
      (sc.quietVisit session g body) :=
    monotone_quietVisit h.range h.tame
  have hok := succeeds_quiet (g := g) h.calls
  have hcan : ∀ {s : State}, s.Over (SetOf.Within U) → s.Over SetOf.Canonical := fun h =>
    h.mono fun _ h => h.toCanonical
  exact
    { order := hO
      antisymm := fun s t hs ht h h' => h.antisymm (hcan hs.1) (hcan ht.1) h'
      monotone := hmono
      succeeds := hok
      boundary := h.boundary
      start := hp
      finite := finite_leftStates h.finite _
      range := fun s hs => hs.1
      outputs := fun it hr b y hy =>
        ⟨((hO.invariant hmono hok.follows h.boundary).reachable hp hr).outputs b y hy,
          depth_le_depthLeft hbound hr hy⟩
      edges := fun e he => (hd.bounded e he).1 }

/-! ## 2. Budgets -/

/-- The scanner under another bound on the number of visits. -/
def withBudget (sc : Scanner) (budget : Nat) : Scanner :=
  { sc with context.config.maxVisits := budget }

theorem quietVisit_withBudget (sc : Scanner) (budget : Nat) (session : Session) (g : FlowGraph)
    (body : Body) : (sc.withBudget budget).quietVisit session g body = sc.quietVisit session g body :=
  (rfl)

theorem inputAt_withBudget (sc : Scanner) (budget : Nat) (g : FlowGraph) (body : Body) :
    ((sc.withBudget budget).analysis g body).inputAt g = (sc.analysis g body).inputAt g := by
  have hboundary : ((sc.withBudget budget).analysis g body).boundary = (sc.analysis g body).boundary :=
    rfl
  unfold Analysis.inputAt Analysis.boundaryAt
  rw [hboundary]

/-- What code is confined to does not depend on the bound on visits. -/
theorem Confined.withBudget (h : sc.Confined session body U) (budget : Nat) :
    (sc.withBudget budget).Confined session body U where
  calls := h.calls
  range := ⟨h.range.unknown, h.range.apart, h.range.fields, h.range.parameters, h.range.targets⟩
  tame i hi :=
    ⟨(h.tame i hi).supplied, (h.tame i hi).direct, (h.tame i hi).allocatesNot, (h.tame i hi).arrays⟩
  entry := h.entry
  finite := h.finite

/-- **A number of visits that is enough**, whatever else the bound on visits may be read for. -/
theorem Confined.exists_budget (h : sc.Confined session body U) (hd : FlowGraph.Drawn body g)
    (hbounded : g.StackBounded sc.stackEffect body) {p : Progress}
    (hp : sc.context.store.answers p.session = sc.context.store.answers session) :
    ∃ enough, ∀ budget, enough ≤ budget → ∃ solution final,
      solve g ((sc.withBudget budget).analysis g body) budget p = (.ok solution, final) := by
  obtain ⟨bound, hbound⟩ := hbounded
  refine ⟨(firstQueue g).length + g.graph.edges.length *
    (leftStates U (sc.depthLeft g body bound)).ncard, fun budget hle => ?_⟩
  exact solve_converges ((h.withBudget budget).convergent hd hbound hp) hle

end Scanner

/-! ## 3. Reports -/

namespace Store

variable {s : Store} {config : Config} {session : Session} {token : Token} {m : MethodDef}
  {body : Body} {g : FlowGraph}

/-- Steady code converges or runs out of visits; nothing else can go wrong. -/
theorem outcome_of_steady (hb : body.Steady (s.scannerOf config session m) (s.answers session)) :
    (∃ solution final, s.iterated config session m body g = (.ok solution, final)) ∨
      ∃ final, s.iterated config session m body g = (.error (.exhausted config.maxVisits), final) :=
  iterate_outcome (Scanner.succeeds_quiet fun i hi => (hb i hi).callsQuietly) _
    (run_askNeeds session m).2

/-- A method that converges with some number of visits has bounded stacks. -/
theorem bounded_of_iterated (hd : FlowGraph.Drawn body g) {n : Nat} {solution : Solution State}
    {final : Progress}
    (h : s.iterated { config with maxVisits := n } session m body g = (.ok solution, final)) :
    g.StackBounded (s.scannerOf config session m).stackEffect body := by
  have hbounded : g.StackBounded
      (s.scannerOf { config with maxVisits := n } session m).stackEffect body :=
    Scanner.bounded_of_solve hd h
  -- what an instruction does to the depth does not depend on the bound on visits
  exact hbounded

/-- Confined code with bounded stacks converges with every large enough number of visits. -/
theorem converges_of_confined {U : Value → Prop} (hm : s.methodDef? token = some m)
    (hbody : s.body? m.token = some body) (hg : FlowGraph.ofBody body = .ok g)
    (h : (s.scannerOf config session m).Confined session body U)
    (hbounded : g.StackBounded (s.scannerOf config session m).stackEffect body) :
    ∃ enough, ∀ n, enough ≤ n → ∃ report,
      ((s.analyze { config with maxVisits := n } token).run session).1 = .ok report ∧
        report.hasConverged = true := by
  obtain ⟨_, _, hd⟩ := FlowGraph.ofBody_inv hg
  obtain ⟨enough, hall⟩ := h.exists_budget hd hbounded
    (p := { session := ((s.askNeeds m).run session).2 }) (run_askNeeds session m).2
  refine ⟨enough, fun n hn => ?_⟩
  obtain ⟨solution, final, hsolve⟩ := hall n hn
  have hit : s.iterated { config with maxVisits := n } session m body g = (.ok solution, final) :=
    hsolve
  rw [analyze_eq hm hbody hg, hit]
  exact ⟨_, rfl, rfl⟩

theorem converges_of_bounded (hm : s.methodDef? token = some m) (hbody : s.body? m.token = some body)
    (hg : FlowGraph.ofBody body = .ok g)
    (hb : body.Steady (s.scannerOf config session m) (s.answers session)) :
    g.StackBounded (s.scannerOf config session m).stackEffect body →
      ∃ enough, ∀ n, enough ≤ n → ∃ report,
        ((s.analyze { config with maxVisits := n } token).run session).1 = .ok report ∧
          report.hasConverged = true :=
  converges_of_confined hm hbody hg (Scanner.confined_brought hb)

theorem exhausted_of_unbounded (config : Config) (session : Session)
    (hm : s.methodDef? token = some m)
    (hbody : s.body? m.token = some body) (hg : FlowGraph.ofBody body = .ok g)
    (hb : body.Steady (s.scannerOf config session m) (s.answers session))
    (hunbounded : ¬ g.StackBounded (s.scannerOf config session m).stackEffect body) (n : Nat) :
    ((s.analyze { config with maxVisits := n } token).run session).1 = .error (.exhausted n) := by
  obtain ⟨_, _, hd⟩ := FlowGraph.ofBody_inv hg
  have hb' : body.Steady (s.scannerOf { config with maxVisits := n } session m) (s.answers session) :=
    hb
  rw [analyze_eq hm hbody hg]
  rcases outcome_of_steady (g := g) hb' with ⟨solution, final, hit⟩ | ⟨final, hit⟩
  · exact absurd (bounded_of_iterated hd hit) hunbounded
  · rw [hit]
    rfl

/-- **If visits go round, no number of them is enough.** -/
theorem exhausted_of_round (config : Config) (session : Session)
    (hm : s.methodDef? token = some m)
    (hbody : s.body? m.token = some body) (hg : FlowGraph.ofBody body = .ok g)
    (hb : body.CallsQuietly (s.scannerOf config session m) (s.answers session))
    {Round : Snapshot State → Prop}
    (hround : ∀ x, Round x → x.queue ≠ [] ∧
      Round (x.next g (((s.scannerOf config session m).analysis g body).inputAt g)
        ((s.scannerOf config session m).quietVisit session g body)))
    (hstart : Round (.start g)) (n : Nat) :
    ((s.analyze { config with maxVisits := n } token).run session).1 = .error (.exhausted n) := by
  let sc := (s.scannerOf config session m).withBudget n
  have hround' : ∀ x, Round x → x.queue ≠ [] ∧
      Round (x.next g ((sc.analysis g body).inputAt g) (sc.quietVisit session g body)) := by
    rw [Scanner.quietVisit_withBudget, Scanner.inputAt_withBudget]
    exact hround
  have hok : (sc.analysis g body).Succeeds (fun p => s.answers p.session = s.answers session)
      (sc.quietVisit session g body) := Scanner.succeeds_quiet hb
  obtain ⟨final, hit⟩ : ∃ final, s.iterated { config with maxVisits := n } session m body g =
      (.error (.exhausted n), final) :=
    solve_exhausts hok hround' (run_askNeeds session m).2 hstart n
  rw [analyze_eq hm hbody hg, hit]
  rfl

end Store

/-- **When the analysis of a method ends.**  For every method with a control flow graph: if it
    converges with some number of visits, there is a bound on how deep the stack gets on the paths
    through the body.  If the code is steady and there is such a bound, it converges with every
    large enough number of visits; if the code is steady and there is none, no number is enough. -/
theorem analyze_converges_or_exhausts {s : Store} (config : Config) (session : Session)
    {token : Token} {m : MethodDef} {body : Body} {g : FlowGraph}
    (hm : s.methodDef? token = some m) (hbody : s.body? m.token = some body)
    (hg : FlowGraph.ofBody body = .ok g) :
    (∀ n report, ((s.analyze { config with maxVisits := n } token).run session).1 = .ok report →
      report.hasConverged = true →
      g.StackBounded (s.scannerOf config session m).stackEffect body) ∧
    (body.Steady (s.scannerOf config session m) (s.answers session) →
      (g.StackBounded (s.scannerOf config session m).stackEffect body →
        ∃ enough, ∀ n, enough ≤ n → ∃ report,
          ((s.analyze { config with maxVisits := n } token).run session).1 = .ok report ∧
            report.hasConverged = true) ∧
      (¬ g.StackBounded (s.scannerOf config session m).stackEffect body →
        ∀ n, ((s.analyze { config with maxVisits := n } token).run session).1 =
          .error (.exhausted n))) := by
  refine ⟨fun n report h hc => ?_, fun hb => ⟨?_, ?_⟩⟩
  · obtain ⟨_, _, hd⟩ := FlowGraph.ofBody_inv hg
    obtain ⟨g', solution, p, hg', hit, _, _⟩ := Store.iterated_of_hasConverged hm hbody h hc
    obtain rfl := Except.ok.inj (hg.symm.trans hg')
    exact Store.bounded_of_iterated hd hit
  · exact Store.converges_of_bounded hm hbody hg hb
  · exact Store.exhausted_of_unbounded config session hm hbody hg hb

/-! ## 4. Two loops -/

namespace Loop

/-- A method without parameters. -/
def method : MethodDef where
  token := ⟨0x06000001⟩
  declaring := ⟨0x02000001⟩
  name := "loop"
  flags := 0x16
  sig := ⟨false, false, 0, .prim .void, []⟩
  paramNames := []

/-- A program with this method alone. -/
def store (b : Body) : Store := { methods := [(method.token, method)], bodies := [(method.token, b)] }

/-- Pushes a number and drops it again, for ever. -/
def balanced : Body where
  maxStack := 1
  initLocals := false
  locals := []
  instructions := [⟨0, .ldcI40, .empty⟩, ⟨1, .pop, .empty⟩, ⟨2, .brS, .target 0⟩]
  clauses := []

/-- Pushes a number, for ever. -/
def growing : Body where
  maxStack := 1
  initLocals := false
  locals := []
  instructions := [⟨0, .ldcI40, .empty⟩, ⟨1, .brS, .target 0⟩]
  clauses := []

/-- The graph of a body that is one block with a jump to its start. -/
def graph (stop : Nat) : FlowGraph where
  graph :=
    { nodes := [.entry, .code ⟨none, 0, 0, stop⟩, .exit]
      edges := [⟨0, 1, .entry⟩, ⟨1, 1, .branch⟩] }
  handlers := []
  starts := [(0, 1)]

theorem ofBody_balanced : FlowGraph.ofBody balanced = .ok (graph 3) := by decide +kernel

theorem ofBody_growing : FlowGraph.ofBody growing = .ok (graph 2) := by decide +kernel

variable {sc : Scanner} {answers : Answers}

theorem steady_balanced : balanced.Steady sc answers := by
  intro i hi
  simp only [balanced, List.mem_cons, List.not_mem_nil, or_false] at hi
  rcases hi with rfl | rfl | rfl <;> trivial

theorem steady_growing : growing.Steady sc answers := by
  intro i hi
  simp only [growing, List.mem_cons, List.not_mem_nil, or_false] at hi
  rcases hi with rfl | rfl <;> trivial

/-- Every time round the stack is empty again. -/
theorem bounded_balanced : (graph 3).StackBounded sc.stackEffect balanced := by
  have hafter : ∀ b, depthAfter sc.stackEffect ((graph 3).codeOf balanced b) 0 = 0
    | 0 => rfl
    | 1 => rfl
    | 2 => rfl
    | _ + 3 => rfl
  refine ⟨0, fun b d h => Nat.le_of_eq ?_⟩
  induction h with
  | entry => rfl
  | handler h hh => cases hh
  | edge b c d _ _ ih => rw [ih, hafter]

/-- Every time round the stack is one slot deeper. -/
theorem unbounded_growing : ¬ (graph 2).StackBounded sc.stackEffect growing := by
  have hdepth : ∀ d, (graph 2).DepthAt sc.stackEffect growing 1 d := by
    intro d
    induction d with
    | zero => exact .edge 0 1 0 .entry (by decide)
    | succ d ih => exact .edge 1 1 d ih (by decide)
  rintro ⟨bound, hbound⟩
  exact absurd (hbound 1 (bound + 1) (hdepth _)) (Nat.not_succ_le_self bound)

end Loop

/-- The loop that keeps the stack level is analyzed to the end. -/
theorem balanced_converges : ∃ enough, ∀ n, enough ≤ n → ∃ report,
    (((Loop.store Loop.balanced).analyze { maxVisits := n } Loop.method.token).run {}).1 =
      .ok report ∧ report.hasConverged = true :=
  ((analyze_converges_or_exhausts {} {} (m := Loop.method) rfl rfl
    Loop.ofBody_balanced).2 Loop.steady_balanced).1 Loop.bounded_balanced

/-- **The loop that leaves a number on the stack has a graph, but no number of visits is enough.** -/
theorem growing_exhausts : FlowGraph.ofBody Loop.growing = .ok (Loop.graph 2) ∧
    ∀ n, (((Loop.store Loop.growing).analyze { maxVisits := n } Loop.method.token).run {}).1 =
      .error (.exhausted n) :=
  ⟨Loop.ofBody_growing, Store.exhausted_of_unbounded {} {} (m := Loop.method) rfl rfl
    Loop.ofBody_growing Loop.steady_growing Loop.unbounded_growing⟩

end ReflectionFlow

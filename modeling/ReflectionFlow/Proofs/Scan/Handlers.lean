/-
  File:      ReflectionFlow/Proofs/Scan/Handlers.lean
  Subject:   Nothing is known where an exception clause is entered.

  An exception may come from anywhere in the protected region, so handlers and filters are entered
  without knowledge of variables, and those that receive the exception find it, unknown, on top of
  the stack.  The state that says so is a boundary state of the block that starts there, and it
  comes first.  What flows in along edges is met with it and cannot add to it: an unknown set stays
  unknown whatever it is merged with, and stacks are aligned at the top.

  The kind of a block is that of the first clause that enters it.  Where clauses agree on whether
  the exception is pushed, it does not matter which of them that is.

  * `State.Blind`            the states in which clauses are entered
  * `State.Blind.meet`       they stay so whatever flows in
  * `Body.ClausesAgree`      entry points at one offset agree on the exception
  * `analyze_handlers`
-/
import ReflectionFlow.Proofs.Flow.Representation
import ReflectionFlow.Proofs.Scan.Depth
import ReflectionFlow.Proofs.Scan.Outcome

namespace ReflectionFlow

/-! ## 1. Blind states -/

/-- **Nothing is known of variables**, and if the exception is received, it lies on top of the stack
    and nothing is known of it. -/
structure State.Blind (receives : Bool) (x : State) : Prop where
  vars : x.vars = .unknown
  stack : x.stack.isTop = false
  top : receives = true → x.stack.peek? = some .unknown

theorem Variables.unknown_meet (n : Variables) : Variables.unknown.meet n = .unknown := by
  unfold meet
  split
  · rfl
  · refine List.foldlRecOn (motive := fun m => m = Variables.unknown) _ _ rfl fun m hm k _ => ?_
    rw [hm]
    rfl

theorem Stack.peek?_meet {s t : Stack} (h : s.peek? = some .unknown) :
    (s.meet t).peek? = some .unknown := by
  cases s with
  | top => cases h
  | slots a =>
      obtain ⟨rest, rfl⟩ := List.head?_eq_some_iff.mp h
      cases t with
      | top => rfl
      | slots b => cases b <;> rfl

theorem Stack.isTop_meet {s : Stack} (h : s.isTop = false) (t : Stack) :
    (s.meet t).isTop = false := by
  cases s with
  | top => cases h
  | slots a => cases t <;> rfl

namespace State

variable {receives : Bool} {x : State}

theorem Blind.isTop (h : x.Blind receives) : x.isTop = false := by
  unfold State.isTop
  rw [h.stack]
  rfl

/-- **A blind state stays blind whatever flows in.** -/
theorem Blind.meet (h : x.Blind receives) (y : State) : (x.meet y).Blind receives := by
  have hmeet : x.meet y = if y.isTop then x else ⟨x.vars.meet y.vars, x.stack.meet y.stack⟩ := by
    unfold State.meet
    rw [h.isTop]
    rfl
  rw [hmeet]
  split
  · exact h
  · refine ⟨?_, Stack.isTop_meet h.stack _, fun hr => Stack.peek?_meet (h.top hr)⟩
    rw [h.vars]
    exact Variables.unknown_meet _

theorem Blind.foldl_meet {α : Type} (h : x.Blind receives) (f : α → State) (l : List α) :
    (l.foldl (fun acc a => MeetLattice.meet acc (f a)) x).Blind receives :=
  List.foldlRecOn (motive := Blind receives) l _ h fun _ hacc a _ => hacc.meet (f a)

end State

theorem Scanner.blind_handlerState (kind : HandlerKind) :
    (handlerState kind).Blind kind.receivesException := by
  unfold handlerState
  split
  · exact ⟨rfl, rfl, fun _ => rfl⟩
  · next h => exact ⟨rfl, rfl, fun hr => absurd hr h⟩

/-! ## 2. Entry points -/

namespace Body

variable {b : Body}

/-- **Entry points of one offset agree on whether the exception is received**, be they of one clause
    or of several. -/
def ClausesAgree (b : Body) : Prop :=
  ∀ c ∈ b.clauses, ∀ c' ∈ b.clauses, ∀ e ∈ c.entryPoints, ∀ e' ∈ c'.entryPoints,
    e.1 = e'.1 → e.2.receivesException = e'.2.receivesException

/-- The handler that starts at an entry point is one of a clause that is entered there. -/
theorem exists_handlerAt? {clause : Clause} (hc : clause ∈ b.clauses) {e : Nat × HandlerKind}
    (he : e ∈ clause.entryPoints) : ∃ kind, b.handlerAt? e.1 = some kind ∧
      ∃ c ∈ b.clauses, (e.1, kind) ∈ c.entryPoints := by
  have hmem : e ∈ b.clauses.flatMap Clause.entryPoints := List.mem_flatMap.mpr ⟨clause, hc, he⟩
  cases hkind : b.handlerAt? e.1 with
  | none =>
      have hnone := List.lookup_eq_none_iff.mp hkind e hmem
      rw [bne_iff_ne] at hnone
      exact absurd rfl hnone
  | some kind =>
      obtain ⟨before, after, heq, _⟩ := List.lookup_eq_some_iff.mp hkind
      have hfound : (e.1, kind) ∈ b.clauses.flatMap Clause.entryPoints := by
        rw [heq]
        exact List.mem_append_right _ List.mem_cons_self
      exact ⟨kind, rfl, List.mem_flatMap.mp hfound⟩

theorem handler_of_block {k : Nat} {c : CodeBlock} (hk : b.blocks[k]? = some c) :
    c.handler = b.handlerAt? c.start := by
  rw [getElem?_blocks] at hk
  obtain ⟨first, _, rfl⟩ := Option.map_eq_some_iff.mp hk
  rfl

/-- A block is found at its start. -/
theorem Increasing.get?_starts (hb : b.Increasing) {k : Nat} {c : CodeBlock}
    (hk : b.blocks[k]? = some c) : b.starts.get? c.start = some (k + 1) := by
  rw [hb.starts_eq]
  refine Assoc.Keyed.get?_of_mem (hb.starts_pairwise.imp rankCompare_nat_lt_iff.mpr) ?_
  exact List.mem_map.mpr ⟨(k + 1, c), mem_numbered.mpr ⟨k, rfl, hk⟩, rfl⟩

theorem mem_jumps_of_clause {clause : Clause} (hc : clause ∈ b.clauses) {e : Nat × HandlerKind}
    (he : e ∈ clause.entryPoints) : (clause.tryOffset, e.1) ∈ b.jumps :=
  List.mem_append_right _
    (List.mem_flatMap.mpr ⟨clause, hc, List.mem_map.mpr ⟨e, he, rfl⟩⟩)

end Body

namespace FlowGraph

variable {b : Body} {g : FlowGraph}

/-- **At every entry point of a clause a block starts**, and it is listed as a handler that receives
    the exception if the clause does. -/
theorem exists_handler_block (hinc : b.Increasing) (hagree : b.ClausesAgree)
    (hg : ofBody b = .ok g) {clause : Clause} (hc : clause ∈ b.clauses) {e : Nat × HandlerKind}
    (he : e ∈ clause.entryPoints) : ∃ k c kind, g.blockAt? e.1 = some (k + 1) ∧
      b.blocks[k]? = some c ∧ c.start = e.1 ∧ c.handler = some kind ∧
      kind.receivesException = e.2.receivesException := by
  obtain ⟨_, hbad, hd⟩ := ofBody_inv hg
  obtain ⟨_, hstarts⟩ := ofBody_edges hg
  obtain ⟨k, c, x, hk, hx, hoffset⟩ := Body.exists_block_of_jump hbad (Body.mem_jumps_of_clause hc he)
  obtain ⟨kind, hkind, c', hc', hentry⟩ := Body.exists_handlerAt? hc he
  have hstart : c.start = e.1 := by
    rw [(Body.leaders_of_block hk).2.1, Body.offsetAt_of_getElem? hx]
    exact hoffset
  refine ⟨k, c, kind, ?_, hk, hstart, ?_, ?_⟩
  · unfold blockAt?
    rw [hstarts, ← hstart]
    exact hinc.get?_starts hk
  · rw [Body.handler_of_block hk, hstart]
    exact hkind
  · exact hagree c' hc' clause hc _ hentry e he rfl

end FlowGraph

/-! ## 3. Analyses -/

namespace Scanner

variable {sc : Scanner} {body : Body} {g : FlowGraph} {k : Nat} {c : CodeBlock} {kind : HandlerKind}

/-- **All boundary states of a block that starts a handler are blind**, and there is one. -/
theorem blind_statesAt (hd : FlowGraph.Drawn body g) (hk : body.blocks[k]? = some c)
    (hkind : c.handler = some kind) :
    (sc.analysis g body).statesAt (k + 1) ≠ [] ∧
      ∀ x ∈ (sc.analysis g body).statesAt (k + 1), x.Blind kind.receivesException := by
  constructor
  · have hlisted : (k + 1, kind) ∈ g.handlers := hd.mem_handlers.mpr ⟨k, c, rfl, hk, hkind⟩
    have hboundary : (k + 1, handlerState kind) ∈ (sc.analysis g body).boundary :=
      List.mem_cons_of_mem _ (List.mem_map.mpr ⟨_, hlisted, rfl⟩)
    have hstate : handlerState kind ∈ (sc.analysis g body).statesAt (k + 1) :=
      List.mem_map.mpr ⟨_, List.mem_filter.mpr ⟨hboundary, beq_self_eq_true _⟩, rfl⟩
    exact List.ne_nil_of_mem hstate
  · intro x hx
    obtain ⟨e, he, rfl⟩ := List.mem_map.mp hx
    obtain ⟨he, hn⟩ := List.mem_filter.mp he
    have hn : e.1 = k + 1 := eq_of_beq hn
    rcases List.mem_cons.mp he with rfl | he
    · -- the entry is no block of code
      cases hn
    · obtain ⟨h, hh, rfl⟩ := List.mem_map.mp he
      obtain ⟨j, c', hj, hc', hkind'⟩ := hd.mem_handlers.mp hh
      obtain rfl : j = k := Nat.succ.inj (hj.symm.trans hn)
      obtain rfl := Option.some.inj (hk.symm.trans hc')
      obtain rfl := Option.some.inj (hkind.symm.trans hkind')
      exact blind_handlerState h.2

/-- **A handler is entered blindly**, whatever the blocks before it are left with. -/
theorem blind_inputAt (hd : FlowGraph.Drawn body g) (hk : body.blocks[k]? = some c)
    (hkind : c.handler = some kind) (outputs : List State) :
    State.Blind kind.receivesException ((sc.analysis g body).inputAt g outputs (k + 1)) := by
  obtain ⟨hne, hblind⟩ : (sc.analysis g body).statesAt (k + 1) ≠ [] ∧
      ∀ x ∈ (sc.analysis g body).statesAt (k + 1), x.Blind kind.receivesException :=
    blind_statesAt hd hk hkind
  have hboundary : ∃ x, (sc.analysis g body).boundaryAt (k + 1) = some x ∧
      x.Blind kind.receivesException := by
    rw [Analysis.boundaryAt_eq]
    cases hstates : (sc.analysis g body).statesAt (k + 1) with
    | nil => exact absurd hstates hne
    | cons x rest =>
        rw [hstates] at hblind
        exact ⟨_, rfl, (hblind x List.mem_cons_self).foldl_meet id rest⟩
  obtain ⟨x, hx, hblind⟩ := hboundary
  unfold Analysis.inputAt
  rw [hx]
  exact hblind.foldl_meet _ _

end Scanner

/-- When no block waits, the input of a block that something has reached is the one that it was
    last visited with. -/
theorem Reachable.input_of_settled {L σ ε : Type} [MeetLattice L] {g : FlowGraph}
    {a : Analysis L σ ε} {s : σ} {it : Iteration L σ} (h : Reachable g a s it)
    (hqueue : it.queue = []) {n : Nat} (hn : n < g.blockCount)
    (hreached : MeetLattice.isTop (a.inputAt g it.outputs n) = false) :
    it.inputs[n]? = some (a.inputAt g it.outputs n) := by
  have hlasting : Lasting a (fun _ => True) fun _ _ _ _ => True :=
    ⟨fun _ _ _ _ _ _ _ => trivial, fun _ _ _ _ _ _ _ => trivial,
      fun _ _ _ _ _ _ _ _ _ _ _ => trivial⟩
  rcases h.settled hlasting trivial n hn (hqueue ▸ List.not_mem_nil) with htop | ⟨_, hinput, _⟩
  · rw [hreached] at htop
    cases htop
  · exact hinput

/-- **Exception entry is conservative.**  If the analysis of a method converges, whose clauses agree
    wherever they are entered at the same offset, then at every entry point of every clause a block
    starts, which is entered without knowledge of any variable, and, if the exception is received,
    with something unknown on top of the stack. -/
theorem analyze_handlers {s : Store} {config : Config} {token : Token}
    {typeArgs methodArgs : List TypeSig} {m : MethodDef} {body : Body} {session after : Session}
    {report : MethodReport} (hm : s.methodDef? token = some m) (hb : s.body? m.token = some body)
    (hinc : body.Increasing) (hagree : body.ClausesAgree)
    (h : (s.analyze config token typeArgs methodArgs).run session = (.ok report, after))
    (hc : report.hasConverged = true) :
    ∃ g solution, FlowGraph.ofBody body = .ok g ∧ report.states = some solution ∧
      ∀ clause ∈ body.clauses, ∀ e ∈ clause.entryPoints, ∃ n b x,
        g.blockAt? e.1 = some n ∧ g.block? n = some (.code b) ∧ b.start = e.1 ∧
        solution.inputs[n]? = some x ∧ (∀ k, x.vars.get k = .unknown) ∧
        (e.2.receivesException = true → x.stack.peek? = some .unknown) := by
  obtain ⟨g, solution, p, session', hg, hiterate, _, rfl⟩ :=
    Context.analyzeBody_ok (Store.analyze_converged hm hb h hc)
  obtain ⟨it, hreach, hqueue, hinputs, _, _⟩ := Reachable.of_solve (Context.iterate_ok hiterate)
  obtain ⟨_, _, hd⟩ := FlowGraph.ofBody_inv hg
  refine ⟨g, solution, hg, rfl, fun clause hclause e he => ?_⟩
  obtain ⟨k, c, kind, hat, hk, hstart, hkind, hreceives⟩ :=
    FlowGraph.exists_handler_block hinc hagree hg hclause he
  let sc := Scanner.ofContext ⟨s, config, m, typeArgs, methodArgs⟩ ((s.askNeeds m).run session).1
  have hblind : State.Blind kind.receivesException
      ((sc.analysis g body).inputAt g it.outputs (k + 1)) :=
    Scanner.blind_inputAt hd hk hkind it.outputs
  have hinput := hreach.input_of_settled hqueue (hd.succ_lt hk) hblind.isTop
  refine ⟨k + 1, c, _, hat, hd.block?_succ hk, hstart, hinputs ▸ hinput, fun key => ?_, fun hr => ?_⟩
  · rw [hblind.vars]
    rfl
  · exact hblind.top (hreceives.trans hr)

namespace Guarded

def method : MethodDef where
  token := ⟨0x06000001⟩
  declaring := ⟨0x02000001⟩
  name := "M"
  flags := 0x16
  sig := ⟨false, false, 0, .prim .void, []⟩
  paramNames := []

/-- A filter that control also runs into, with a variable set and two operands on the stack; the
    handler of its clause, which a typed clause enters as well; and a finally clause. -/
def body : Body where
  maxStack := 2
  initLocals := true
  locals := [.prim .object]
  instructions :=
    [⟨0, .ldnull, .empty⟩, ⟨1, .stloc0, .empty⟩, ⟨2, .ldnull, .empty⟩, ⟨3, .ldnull, .empty⟩,
     ⟨4, .pop, .empty⟩, ⟨5, .endfilter, .empty⟩,
     ⟨7, .pop, .empty⟩, ⟨8, .leaveS, .target 11⟩,
     ⟨10, .endfinally, .empty⟩,
     ⟨11, .ret, .empty⟩]
  clauses := [⟨1, 0, 4, 7, 3, none, some 4⟩, ⟨0, 0, 4, 7, 3, some ⟨0x02000001⟩, none⟩,
    ⟨2, 0, 10, 10, 1, none, none⟩]

def store : Store := .ofList
  [.type "app" "N" "C" 1 none, .method method.declaring method.name method.flags method.sig,
   .body method.token body]

theorem clausesAgree : body.ClausesAgree := by
  unfold Body.ClausesAgree
  decide

/-- The analysis converges, and two operands lie on the stack where the filter starts. -/
theorem reached : ((store.analyze {} method.token).run {}).1.toOption.map (fun report =>
      (report.hasConverged, report.states.map fun solution => solution.inputs.map (·.stack.depth))) =
    some (true, some [0, 0, 2, 1, 0, 0, 0]) := by
  decide +kernel

end Guarded

/-- The filter is entered from the code before it with two operands and with a variable that is
    null; yet nothing is known of the variable, nor of the exception on top of the stack.  The
    handler is entered by two clauses, and the finally clause without an exception. -/
theorem guarded_handlers : ∃ report after g solution,
    (Guarded.store.analyze {} Guarded.method.token).run {} = (.ok report, after) ∧
    FlowGraph.ofBody Guarded.body = .ok g ∧ report.states = some solution ∧
    solution.inputs.map (·.stack.depth) = [0, 0, 2, 1, 0, 0, 0] ∧
    ∀ e ∈ [(4, true), (7, true), (10, false)], ∃ n x, g.blockAt? e.1 = some n ∧
      solution.inputs[n]? = some x ∧ x.vars.get (.loc 0) = .unknown ∧
      (e.2 = true → x.stack.peek? = some .unknown) := by
  have hreached := Guarded.reached
  generalize hanswer : (Guarded.store.analyze {} Guarded.method.token).run {} = answer at hreached
  obtain ⟨fault | report, after⟩ := answer
  · cases hreached
  obtain ⟨hc, hdepths⟩ := Prod.mk.inj (Option.some.inj hreached)
  have hinc : Guarded.body.Increasing := by unfold Body.Increasing; decide
  obtain ⟨g, solution, hg, hsolution, hentered⟩ := analyze_handlers (m := Guarded.method)
    (by decide +kernel) (by decide +kernel) hinc Guarded.clausesAgree hanswer hc
  rw [hsolution] at hdepths
  refine ⟨report, after, g, solution, rfl, hg, hsolution, Option.some.inj hdepths, ?_⟩
  -- each of the three is an entry point of a clause
  have hpoints : ∀ e ∈ [(4, true), (7, true), (10, false)], ∃ clause ∈ Guarded.body.clauses,
      ∃ point ∈ clause.entryPoints, point.1 = e.1 ∧ point.2.receivesException = e.2 := by decide
  intro e he
  obtain ⟨clause, hclause, point, hpoint, hoffset, hreceives⟩ := hpoints e he
  obtain ⟨n, _, x, hn, _, _, hx, hvars, htop⟩ := hentered clause hclause point hpoint
  exact ⟨n, x, hoffset ▸ hn, hx, hvars _, fun hr => htop (hreceives.trans hr)⟩

end ReflectionFlow

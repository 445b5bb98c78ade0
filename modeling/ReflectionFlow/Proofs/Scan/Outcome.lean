/-
  File:      ReflectionFlow/Proofs/Scan/Outcome.lean
  Subject:   The report on a method is the answer of one iteration.

  Everything around the iteration is a fixed frame: the annotations of the method are asked
  for before, and observations are acted on afterwards, which changes the session but not the
  report.

  * `Store.iterated`       the iteration that analyzes a method
  * `Store.analyze_eq`     the report, read off its answer
  * `Context.analyzeBody_ok`, `Store.analyze_converged`   what a report of an ended iteration says
  * `Context.iterate_ok`, `Store.analyze_states`          which iteration its states come from
-/
import ReflectionFlow.Proofs.Scan.Steps
import ReflectionFlow.Scan.Method

namespace ReflectionFlow

/-- **A body is reported on after its iteration has ended and its observations are acted on.** -/
theorem Context.analyzeBody_ok {c : Context} {token : Token} {body : Body}
    {session after : Session} {report : MethodReport}
    (h : (c.analyzeBody token body).run session = (.ok report, after)) :
    ∃ g solution p session', FlowGraph.ofBody body = .ok g ∧
      (c.iterate body g).run session = (.ok (solution, p), session') ∧
      after = ((c.applyAll p.log).run session').2 ∧
      report = ⟨token, p.returned, .converged solution.visits, p.log.size, some solution⟩ := by
  unfold analyzeBody at h
  cases hg : FlowGraph.ofBody body with
  | error f =>
      rw [hg] at h
      cases (Prod.mk.inj h).1
  | ok g =>
      rw [hg] at h
      simp only [Act.run_bind] at h
      cases hiterate : (c.iterate body g).run session with
      | mk answer session' =>
          rw [hiterate] at h
          cases answer with
          | error f => cases (Prod.mk.inj h).1
          | ok answer =>
              obtain ⟨solution, p⟩ := answer
              obtain ⟨hreport, rfl⟩ := Prod.mk.inj h
              exact ⟨g, solution, p, session', rfl, hiterate, rfl, (Except.ok.inj hreport).symm⟩

/-- The iteration of a body, in a given session. -/
theorem Context.iterate_ok {c : Context} {body : Body} {g : FlowGraph} {session after : Session}
    {solution : Solution State} {p : Progress}
    (h : (c.iterate body g).run session = (.ok (solution, p), after)) :
    solve g ((Scanner.ofContext c ((c.store.askNeeds c.method).run session).1).analysis g body)
      c.config.maxVisits { session := ((c.store.askNeeds c.method).run session).2 } =
      (.ok solution, p) := by
  unfold iterate at h
  simp only [Act.run_bind, Act.run_get, Act.run_set, Act.run_pure] at h
  generalize solve g (L := State) _ _ _ = answer at h ⊢
  obtain ⟨(budget | b) | solution', p'⟩ := answer
  · cases (Prod.mk.inj h).1
  · cases (Prod.mk.inj h).1
  · obtain ⟨rfl, rfl⟩ := Prod.mk.inj (Except.ok.inj (Prod.mk.inj h).1)
    rfl

namespace Store

/-- **The states of a report are those in which an iteration has ended.** -/
theorem analyze_states {s : Store} {config : Config} {token : Token}
    {typeArgs methodArgs : List TypeSig} {session after : Session} {report : MethodReport}
    {solution : Solution State}
    (h : (s.analyze config token typeArgs methodArgs).run session = (.ok report, after))
    (hstates : report.states = some solution) :
    ∃ m body g needs start p, s.methodDef? token = some m ∧ s.body? m.token = some body ∧
      FlowGraph.ofBody body = .ok g ∧
      solve g ((Scanner.ofContext ⟨s, config, m, typeArgs, methodArgs⟩ needs).analysis g body)
        config.maxVisits { session := start } = (.ok solution, p) := by
  have htry : (s.tryAnalyze config token typeArgs methodArgs).run session = (.ok report, after) := by
    unfold analyze at h
    rw [Act.run_bind] at h
    generalize (s.tryAnalyze config token typeArgs methodArgs).run session = answer at h ⊢
    obtain ⟨f | report', session'⟩ := answer
    · obtain ⟨hreport, _⟩ := Prod.mk.inj h
      split at hreport
      · obtain rfl := Except.ok.inj hreport
        cases hstates
      · cases hreport
    · exact h
  unfold tryAnalyze at htry
  split at htry
  · cases (Prod.mk.inj htry).1
  · next m hm =>
    split at htry
    · cases (Prod.mk.inj htry).1
    · next body hb =>
      obtain ⟨g, solution', p, session', hg, hiterate, _, rfl⟩ := Context.analyzeBody_ok htry
      obtain rfl := Option.some.inj hstates
      exact ⟨m, body, g, _, _, p, hm, hb, hg, Context.iterate_ok hiterate⟩

/-- A method that is reported as converged is one whose body is reported on. -/
theorem analyze_converged {s : Store} {config : Config} {token : Token}
    {typeArgs methodArgs : List TypeSig} {m : MethodDef} {body : Body} {session after : Session}
    {report : MethodReport} (hm : s.methodDef? token = some m) (hb : s.body? m.token = some body)
    (h : (s.analyze config token typeArgs methodArgs).run session = (.ok report, after))
    (hc : report.hasConverged = true) :
    (Context.analyzeBody ⟨s, config, m, typeArgs, methodArgs⟩ token body).run session =
      (.ok report, after) := by
  unfold analyze tryAnalyze at h
  simp only [hm, hb, Act.run_bind] at h
  generalize (Context.analyzeBody ⟨s, config, m, typeArgs, methodArgs⟩ token body).run session =
    answer at h
  obtain ⟨f | report', session'⟩ := answer
  · obtain ⟨hreport, _⟩ := Prod.mk.inj h
    split at hreport
    · obtain rfl := Except.ok.inj hreport
      cases hc
    · cases hreport
  · exact h

/-- The method under analysis as the iteration sees it, in a given session. -/
def scannerOf (s : Store) (config : Config) (session : Session) (m : MethodDef) : Scanner :=
  Scanner.ofContext ⟨s, config, m, [], []⟩ ((s.askNeeds m).run session).1

/-- **The iteration that analyzes a method**, with what it observes. -/
def iterated (s : Store) (config : Config) (session : Session) (m : MethodDef) (body : Body)
    (g : FlowGraph) : Except (SolveFault BrokenPromise) (Solution State) × Progress :=
  solve g ((s.scannerOf config session m).analysis g body) config.maxVisits
    { session := ((s.askNeeds m).run session).2 }

/-- The report on a method whose iteration has ended. -/
def reportOf (token : Token) :
    Except (SolveFault BrokenPromise) (Solution State) × Progress → Except AnalysisFault MethodReport
  | (.ok solution, p) =>
    .ok ⟨token, p.returned, .converged solution.visits, p.log.size, some solution⟩
  | (.error (.exhausted budget), _) => .error (.exhausted budget)
  | (.error (.transfer b), _) => .error (.broken b)

/-- **The report is read off the answer of the iteration.** -/
theorem analyze_eq {s : Store} {config : Config} {session : Session} {token : Token}
    {m : MethodDef} {body : Body} {g : FlowGraph} (hm : s.methodDef? token = some m)
    (hb : s.body? m.token = some body) (hg : FlowGraph.ofBody body = .ok g) :
    ((s.analyze config token).run session).1 =
      reportOf token (s.iterated config session m body g) := by
  unfold iterated scannerOf analyze tryAnalyze
  simp only [hm, hb, Context.analyzeBody, hg, Context.iterate, Act.run_bind, Act.run_get,
    Act.run_set, Act.run_pure]
  generalize solve g (L := State) _ _ _ = answer
  obtain ⟨(budget | b) | solution, p⟩ := answer
  · rfl
  · rfl
  · rfl

/-- A method that is reported as converged has a graph, and its iteration has ended. -/
theorem iterated_of_hasConverged {s : Store} {config : Config} {session : Session} {token : Token}
    {m : MethodDef} {body : Body} {report : MethodReport} (hm : s.methodDef? token = some m)
    (hb : s.body? m.token = some body) (h : ((s.analyze config token).run session).1 = .ok report)
    (hc : report.hasConverged = true) :
    ∃ g solution p, FlowGraph.ofBody body = .ok g ∧
      s.iterated config session m body g = (.ok solution, p) ∧ report.returns = p.returned ∧
      report.states = some solution := by
  cases hg : FlowGraph.ofBody body with
  | error f =>
      -- without a graph there is no report, or one that says so
      have hf : ((s.analyze config token).run session).1 =
          if (AnalysisFault.flow m.token f).isFallback then
            .ok (fallbackReport token (.flow m.token f)) else .error (.flow m.token f) := by
        unfold analyze tryAnalyze
        simp only [hm, hb, Context.analyzeBody, hg, Act.run_bind, Act.run_pure]
      rw [h] at hf
      split at hf
      · obtain rfl := Except.ok.inj hf
        cases hc
      · cases hf
  | ok g =>
      rw [analyze_eq hm hb hg] at h
      generalize hs : s.iterated config session m body g = answer at h
      obtain ⟨(budget | b) | solution, p⟩ := answer
      · cases h
      · cases h
      · obtain rfl := Except.ok.inj h
        exact ⟨g, solution, p, rfl, hs, rfl, rfl⟩

end Store

end ReflectionFlow

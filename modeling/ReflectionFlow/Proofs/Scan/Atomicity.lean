/-
  File:      ReflectionFlow/Proofs/Scan/Atomicity.lean
  Subject:   An analysis that does not converge leaves no marks and no diagnostics.

  Entries are made only after the iteration has ended.  Until then every rule of the catalogue
  runs under a reporter that drops what it is told, however many visits there are and whichever
  of them fails.  What can fail is little: a jump that leads nowhere, too many visits, a rule that
  breaks a promise.

  * `Context.ledger_iterate`      the iteration leaves the ledger alone
  * `Store.tryAnalyze_error`      a failed analysis leaves it alone, and how it can fail
  * `analyze_atomic`
-/
import ReflectionFlow.Proofs.Flow.Representation
import ReflectionFlow.Proofs.Flow.Worklist
import ReflectionFlow.Proofs.Scan.Conduct
import ReflectionFlow.Proofs.Scan.Outcome

namespace ReflectionFlow

open Store

/-! ## 1. The iteration -/

/-- Asking for annotations leaves the ledger alone. -/
theorem Store.ledger_askNeeds (s : Store) (m : MethodDef) (session : Session) :
    ((s.askNeeds m).run session).2.ledger = session.ledger := by
  have h : s.Alike (fun _ => True) (fun _ => False) (s.askNeeds m) (s.askNeeds m) :=
    .askNeeds m trivial
  exact h.ledger_eq session

/-- **The iteration leaves the ledger alone**, whether it ends, is given up or fails. -/
theorem Context.ledger_iterate (c : Context) (body : Body) (g : FlowGraph) (session : Session) :
    ((c.iterate body g).run session).2.ledger = session.ledger := by
  have hask := c.store.ledger_askNeeds c.method session
  have hsolve : ∀ (sc : Scanner) (session' : Session), session'.ledger = session.ledger →
      (solve g (sc.analysis g body) c.config.maxVisits { session := session' }).2.session.ledger =
        session.ledger := by
    intro sc session' h
    refine observed_solve (fun p : Progress => p.session.ledger = session.ledger) ?_ h
    intro b x p hp
    exact (sc.ledger_transfer g body b x p).trans hp
  unfold iterate
  simp only [Act.run_bind, Act.run_get, Act.run_set, Act.run_pure]
  exact hsolve _ _ hask

/-! ## 2. Failures -/

/-- The faults that end an analysis: a jump that leads nowhere, too many visits, a broken
    promise. -/
inductive AnalysisFault.Escapes : AnalysisFault → Prop where
  | target (method : Token) (offset target : Nat) :
      Escapes (.flow method (.invalidTarget offset target))
  | visits (budget : Nat) : Escapes (.exhausted budget)
  | promise (b : BrokenPromise) : Escapes (.broken b)

/-- The names of these faults. -/
theorem AnalysisFault.Escapes.kindName {f : AnalysisFault} (h : f.Escapes) :
    f.kindName ∈ ["InvalidBranchTarget", "IterationLimit", "InternalError"] := by
  cases h with
  | target => exact List.mem_cons_self
  | visits => exact List.mem_cons_of_mem _ List.mem_cons_self
  | promise => exact List.mem_cons_of_mem _ (List.mem_cons_of_mem _ List.mem_cons_self)

/-- The iteration fails only by too many visits or a broken promise. -/
theorem Context.iterate_error {c : Context} {body : Body} {g : FlowGraph} {session : Session}
    {f : AnalysisFault} (h : ((c.iterate body g).run session).1 = .error f) : f.Escapes := by
  unfold iterate at h
  simp only [Act.run_bind, Act.run_get, Act.run_set, Act.run_pure] at h
  split at h
  · cases h
  · next budget _ =>
    obtain rfl := Except.error.inj h
    exact .visits budget
  · next b _ =>
    obtain rfl := Except.error.inj h
    exact .promise b

/-- A body that is not analyzed leaves the ledger alone. -/
theorem Context.analyzeBody_error {c : Context} {token : Token} {body : Body}
    {session after : Session} {f : AnalysisFault}
    (h : (c.analyzeBody token body).run session = (.error f, after)) :
    after.ledger = session.ledger ∧ (f.isFallback = true ∨ f.Escapes) := by
  unfold analyzeBody at h
  split at h
  · next fault hg =>
    obtain ⟨hf, rfl⟩ := Prod.mk.inj h
    obtain rfl := Except.error.inj hf
    refine ⟨rfl, ?_⟩
    rcases FlowGraph.ofBody_error hg with rfl | ⟨offset, target, rfl⟩
    · exact Or.inl rfl
    · exact Or.inr (.target _ offset target)
  · next g hg =>
    have hledger := c.ledger_iterate body g session
    have herror := @iterate_error c body g session
    rw [Act.run_bind] at h
    generalize (c.iterate body g).run session = answer at h hledger herror
    obtain ⟨f' | ⟨solution, p⟩, session'⟩ := answer
    · obtain ⟨hf, rfl⟩ := Prod.mk.inj h
      obtain rfl := Except.error.inj hf
      exact ⟨hledger, Or.inr (herror rfl)⟩
    · -- observations are acted on only where there is a report
      cases (Prod.mk.inj h).1

theorem Store.tryAnalyze_error {s : Store} {config : Config} {token : Token}
    {typeArgs methodArgs : List TypeSig} {session after : Session} {f : AnalysisFault}
    (h : (s.tryAnalyze config token typeArgs methodArgs).run session = (.error f, after)) :
    after.ledger = session.ledger ∧ (f.isFallback = true ∨ f.Escapes) := by
  unfold tryAnalyze at h
  split at h
  · obtain ⟨hf, rfl⟩ := Prod.mk.inj h
    obtain rfl := Except.error.inj hf
    exact ⟨rfl, Or.inl rfl⟩
  · split at h
    · obtain ⟨hf, rfl⟩ := Prod.mk.inj h
      obtain rfl := Except.error.inj hf
      exact ⟨rfl, Or.inl rfl⟩
    · exact Context.analyzeBody_error h

/-- What is reported without a fault has converged. -/
theorem Store.tryAnalyze_ok {s : Store} {config : Config} {token : Token}
    {typeArgs methodArgs : List TypeSig} {session after : Session} {report : MethodReport}
    (h : (s.tryAnalyze config token typeArgs methodArgs).run session = (.ok report, after)) :
    report.hasConverged = true := by
  unfold tryAnalyze at h
  split at h
  · cases h
  · split at h
    · cases h
    · obtain ⟨_, _, _, _, _, _, _, rfl⟩ := Context.analyzeBody_ok h
      rfl

/-! ## 3. Analyses -/

/-- **An analysis that fails, or has nothing to analyze, makes no marks and reports nothing**, in
    any session; and it fails only by a jump that leads nowhere, too many visits or a broken
    promise. -/
theorem analyze_atomic (s : Store) (config : Config) (token : Token)
    (typeArgs methodArgs : List TypeSig) (session after : Session) :
    (∀ fault, (s.analyze config token typeArgs methodArgs).run session = (.error fault, after) →
      after.ledger = session.ledger ∧
      fault.kindName ∈ ["InvalidBranchTarget", "IterationLimit", "InternalError"]) ∧
    (∀ report, (s.analyze config token typeArgs methodArgs).run session = (.ok report, after) →
      report.hasConverged = false → after.ledger = session.ledger) := by
  have herror := @tryAnalyze_error s config token typeArgs methodArgs session
  have hok := @tryAnalyze_ok s config token typeArgs methodArgs session
  unfold analyze
  rw [Act.run_bind]
  generalize (s.tryAnalyze config token typeArgs methodArgs).run session = answer at herror hok
  obtain ⟨f | report, session'⟩ := answer
  · obtain ⟨hledger, hkind⟩ := herror rfl
    constructor
    · intro fault h
      obtain ⟨hf, rfl⟩ := Prod.mk.inj h
      split at hf
      · cases hf
      · next hfallback =>
        obtain rfl := Except.error.inj hf
        exact ⟨hledger, (hkind.resolve_left hfallback).kindName⟩
    · intro report h _
      obtain ⟨_, rfl⟩ := Prod.mk.inj h
      exact hledger
  · constructor
    · intro fault h
      cases (Prod.mk.inj h).1
    · intro report' h hc
      obtain ⟨hr, rfl⟩ := Prod.mk.inj h
      obtain rfl := Except.ok.inj hr
      rw [hok rfl] at hc
      cases hc

namespace Cut

/-- A method that finds its own type by name, and the library method it calls, which has no body. -/
def finder : Token := ⟨0x06000002⟩

def library : Token := ⟨0x06000001⟩

def store : Store := .ofList
  [.type "lib" "System" "Type" 1 none, .type "app" "N" "C" 1 none,
   .method ⟨0x02000001⟩ "GetType" 0x16
    ⟨false, false, 0, .classType ⟨0x02000001⟩, [.prim .string]⟩,
   .method ⟨0x02000002⟩ "M" 0x16 ⟨false, false, 0, .prim .void, []⟩,
   .body finder
    { maxStack := 1
      initLocals := false
      locals := []
      instructions := [⟨0, .ldstr, .string "N.C"⟩, ⟨5, .call, .token library⟩, ⟨10, .pop, .empty⟩,
        ⟨11, .ret, .empty⟩]
      clauses := [] }]

/-- Two visits are not enough, although the call is interpreted in the second one. -/
theorem finder_exhausted :
    ((store.analyze { maxVisits := 2 } finder).run {}).1 = .error (.exhausted 2) := by
  decide +kernel

theorem library_fallback : ((store.analyze {} library).run {}).1 =
    .ok (fallbackReport library (.missingBody library)) := by
  decide +kernel

end Cut

/-- The call is marked once the iteration has ended, and not when it is given up before or there is
    nothing to iterate. -/
theorem finder_atomic :
    ((Cut.store.analyze { maxVisits := 3 } Cut.finder).run {}).2.ledger.marks.length = 1 ∧
    ((Cut.store.analyze { maxVisits := 2 } Cut.finder).run {}).2.ledger = {} ∧
    ((Cut.store.analyze {} Cut.library).run {}).2.ledger = {} := by
  refine ⟨by decide +kernel, ?_, ?_⟩
  · have hrun := Cut.finder_exhausted
    generalize hanswer : (Cut.store.analyze { maxVisits := 2 } Cut.finder).run {} = answer at hrun ⊢
    obtain ⟨_, after⟩ := answer
    obtain rfl := hrun
    exact ((analyze_atomic _ _ _ _ _ _ after).1 _ hanswer).1
  · have hrun := Cut.library_fallback
    generalize hanswer : (Cut.store.analyze {} Cut.library).run {} = answer at hrun ⊢
    obtain ⟨_, after⟩ := answer
    obtain rfl := hrun
    exact (analyze_atomic _ _ _ _ _ _ after).2 _ hanswer rfl

end ReflectionFlow

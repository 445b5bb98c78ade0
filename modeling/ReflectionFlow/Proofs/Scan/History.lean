/-
  File:      ReflectionFlow/Proofs/Scan/History.lean
  Subject:   After any number of analyses a session still remembers right answers only.

  The record of an analysis is kept from visit to visit, also past a visit that fails.  It stays in
  order, holds entries for instructions of the body only, and the calls in it are of methods that
  stand under their own tokens; this is what acting on them later relies on.

  * `Scanner.transfer_cases`                  what a visit can do
  * `Scanner.Tidy`, `Scanner.Tidy.transfer`   what visits keep of the record and of the memo
  * `Context.run_iterate`                     the iteration in a session with right answers
  * `Store.Reached`                           the sessions that analyses lead to
  * `Store.Reached.faithful`                  what they remember is right
-/
import ReflectionFlow.Proofs.Flow.Worklist
import ReflectionFlow.Proofs.Scan.Conduct

namespace ReflectionFlow

open Store

/-! ## 1. Visits -/

namespace Scanner

/-- **What visits keep**: right answers in the memo, and a record in order that holds observations
    of instructions of the body, with calls of methods that stand under their tokens. -/
structure Tidy (sc : Scanner) (body : Body) (p : Progress) : Prop where
  memo : p.session.memo.Faithful sc.context.store
  sorted : p.Sorted
  calls : ∀ e ∈ p.log.entries, e.2.Calls sc.context.store.Defines
  code : ∀ offset, (∀ i ∈ body.instructions, i.offset ≠ offset) → p.findings offset = ([], [])

variable {sc : Scanner} {g : FlowGraph} {body : Body} {p : Progress}

theorem tidy_fresh (body : Body) {session : Session}
    (h : session.memo.Faithful sc.context.store) : sc.Tidy body { session := session } where
  memo := h
  sorted := ⟨List.Pairwise.nil, List.Pairwise.nil⟩
  calls _ he := absurd he List.not_mem_nil
  code _ _ := rfl

theorem Tidy.forget (h : sc.Tidy body p) (first last : Nat) {memo : Memo}
    (hmemo : memo.Faithful sc.context.store) (ledger : Ledger) :
    sc.Tidy body { p.forget first last with session := ⟨memo, ledger⟩ } where
  memo := hmemo
  sorted := ⟨(h.sorted.forget first last).log, (h.sorted.forget first last).returns⟩
  calls e he := h.calls e (List.mem_filter.mp he).1
  code offset ho := by
    show (p.forget first last).findings offset = ([], [])
    by_cases hin : first ≤ offset ∧ offset ≤ last
    · exact Progress.findings_forget_inside hin.1 hin.2
    · exact (Progress.findings_forget_outside hin).trans (h.code offset ho)

theorem Tidy.file (h : sc.Tidy body p) {t : Trace}
    (hobserved : ∀ e ∈ t.observed, (∃ i ∈ body.instructions, e.1 = i.offset) ∧
      e.2.Calls sc.context.store.Defines)
    (hreturned : ∀ e ∈ t.returned, ∃ i ∈ body.instructions, e.1 = i.offset) :
    sc.Tidy body (p.file t) where
  memo := h.memo
  sorted := h.sorted.file t
  calls := by
    refine List.foldlRecOn (motive := fun log : ObservationLog Observation =>
      ∀ e ∈ log.entries, e.2.Calls sc.context.store.Defines) t.observed _ h.calls ?_
    intro log hlog e he f hf
    rcases Assoc.mem_of_mem_insert hf with rfl | hf
    · exact (hobserved e he).2
    · exact hlog f hf
  code offset ho := by
    rw [Progress.findings_file_of_not_noted h.sorted]
    · exact h.code offset ho
    · intro e he heq
      obtain ⟨⟨i, hi, hei⟩, _⟩ := hobserved e he
      exact ho i hi (hei.symm.trans heq)
    · intro e he heq
      obtain ⟨i, hi, hei⟩ := hreturned e he
      exact ho i hi (hei.symm.trans heq)

/-- What a visit leaves when its code ends in a given way. -/
def filed (p : Progress) (first last : Nat) (session : Session) :
    Except BrokenPromise Trace → Except BrokenPromise State × Progress
  | .error b => (.error b, { p.forget first last with session := session })
  | .ok t => (.ok t.state, { p.forget first last with session := session }.file t)

/-- **A visit in a session with right answers**: the memo does not decide about anything. -/
theorem transfer_of_gives {n : Nat} {x : State} {i : Instruction} {rest : List Instruction}
    {result : Except BrokenPromise Trace} (hcode : g.codeOf body n = i :: rest)
    (hgives : sc.context.store.Gives (sc.steps n (i :: rest) { state := x.entered }) result {})
    (hp : p.session.memo.Faithful sc.context.store) :
    ∃ memo, Memo.Faithful sc.context.store memo ∧ sc.transfer g body n x p =
      filed p i.offset ((i :: rest).getLastD i).offset ⟨memo, p.session.ledger⟩ result := by
  obtain ⟨memo, hmemo, hrun⟩ := hgives p.session hp
  refine ⟨memo, hmemo, ?_⟩
  rw [Ledger.append_empty] at hrun
  unfold transfer
  rw [hcode]
  simp only [Progress.forget, hrun]
  cases result with
  | error b => rfl
  | ok t => rfl

/-- **What a visit can do** in a store that is built from declarations. -/
theorem transfer_cases (hs : sc.context.store.Tabled) (hp : p.session.memo.Faithful sc.context.store)
    (g : FlowGraph) (body : Body) (n : Nat) (x : State) :
    (g.codeOf body n = [] ∧ sc.transfer g body n x p = (.ok x.entered, p)) ∨
    ∃ i rest result memo, g.codeOf body n = i :: rest ∧
      sc.context.store.Gives (sc.steps n (g.codeOf body n) { state := x.entered }) result {} ∧
      Memo.Faithful sc.context.store memo ∧ sc.transfer g body n x p =
        filed p i.offset ((i :: rest).getLastD i).offset ⟨memo, p.session.ledger⟩ result := by
  cases hcode : g.codeOf body n with
  | nil =>
      refine Or.inl ⟨rfl, ?_⟩
      unfold transfer
      rw [hcode]
  | cons i rest =>
      obtain ⟨result, hgives⟩ := gives_steps hs n (i :: rest) { state := x.entered }
      obtain ⟨memo, hmemo, htransfer⟩ := transfer_of_gives hcode hgives hp
      exact Or.inr ⟨i, rest, result, memo, rfl, hgives, hmemo, htransfer⟩

/-- What a block notes, it notes at instructions of the body. -/
theorem noted_in_body (hs : sc.context.store.Tabled) {n : Nat} {x : State} {t : Trace}
    (hgives : sc.context.store.Gives (sc.steps n (g.codeOf body n) { state := x.entered })
      (.ok t) {}) :
    (∀ e ∈ t.observed, (∃ i ∈ g.codeOf body n, e.1 = i.offset) ∧
      e.2.Calls sc.context.store.Defines) ∧
    (∀ e ∈ t.returned, ∃ i ∈ g.codeOf body n, e.1 = i.offset) := by
  obtain ⟨memo, _, hrun⟩ := hgives {} (faithful_empty _)
  obtain ⟨hobserved, hreturned⟩ := offset_of_noted (Context.refers_defines hs) hrun
  refine ⟨fun e he => ?_, fun e he => ?_⟩
  · exact (hobserved e he).resolve_left List.not_mem_nil
  · exact (hreturned e he).resolve_left List.not_mem_nil

/-- **A visit keeps the record tidy**, also one that fails. -/
theorem Tidy.transfer (hs : sc.context.store.Tabled) (h : sc.Tidy body p) (g : FlowGraph) (n : Nat)
    (x : State) : sc.Tidy body (sc.transfer g body n x p).2 := by
  obtain ⟨_, htransfer⟩ | ⟨i, rest, result, memo, _, hgives, hmemo, htransfer⟩ :=
    transfer_cases hs h.memo g body n x
  · rw [htransfer]
    exact h
  · rw [htransfer]
    have hforget := h.forget i.offset ((i :: rest).getLastD i).offset hmemo p.session.ledger
    cases result with
    | error b => exact hforget
    | ok t =>
        obtain ⟨hobserved, hreturned⟩ := noted_in_body hs hgives
        refine hforget.file (fun e he => ?_) fun e he => ?_
        · obtain ⟨⟨j, hj, hej⟩, hcalls⟩ := hobserved e he
          exact ⟨⟨j, FlowGraph.mem_of_mem_codeOf hj, hej⟩, hcalls⟩
        · obtain ⟨j, hj, hej⟩ := hreturned e he
          exact ⟨j, FlowGraph.mem_of_mem_codeOf hj, hej⟩

end Scanner

/-! ## 2. The iteration -/

namespace Context

/-- The method as the iteration sees it in a session with right answers. -/
def scanner (c : Context) : Scanner := .ofContext c (c.store.needs c.method)

/-- What an iteration comes to. -/
def answer : Except (SolveFault BrokenPromise) (Solution State) × Progress →
    Except AnalysisFault (Solution State × Progress)
  | (.ok solution, p) => .ok (solution, p)
  | (.error (.exhausted budget), _) => .error (.exhausted budget)
  | (.error (.transfer b), _) => .error (.broken b)

variable {c : Context} {session : Session}

/-- **The iteration in a session with right answers.** -/
theorem run_iterate (hm : c.store.Defines c.method) (hf : session.memo.Faithful c.store)
    (body : Body) (g : FlowGraph) : ∃ memo, Memo.Faithful c.store memo ∧
      (c.iterate body g).run session =
        (answer (solve g (c.scanner.analysis g body) c.config.maxVisits
            { session := ⟨memo, session.ledger⟩ }),
          (solve g (c.scanner.analysis g body) c.config.maxVisits
            { session := ⟨memo, session.ledger⟩ }).2.session) := by
  obtain ⟨memo, hmemo, hrun⟩ := gives_askNeeds hm session hf
  rw [Ledger.append_empty] at hrun
  refine ⟨memo, hmemo, ?_⟩
  unfold iterate
  simp only [Act.run_bind, Act.run_get, Act.run_set, Act.run_pure, hrun]
  show _ = (answer (solve g (c.scanner.analysis g body) c.config.maxVisits _), _)
  unfold scanner
  generalize solve g (L := State) _ _ _ = result
  obtain ⟨(budget | b) | solution, p⟩ := result
  · rfl
  · rfl
  · rfl

/-- The record of an iteration is tidy, however it ends. -/
theorem tidy_solve (hs : c.store.Tabled) {memo : Memo} (hf : memo.Faithful c.store)
    (ledger : Ledger) (body : Body) (g : FlowGraph) :
    c.scanner.Tidy body (solve g (c.scanner.analysis g body) c.config.maxVisits
      { session := ⟨memo, ledger⟩ }).2 := by
  refine observed_solve (c.scanner.Tidy body) ?_ (Scanner.tidy_fresh body hf)
  intro n x p hp
  exact hp.transfer hs g n x

/-- What the observations of a tidy record enter does not depend on what is remembered. -/
theorem gives_applyAll (hm : c.store.Defines c.method) {body : Body} {p : Progress}
    (hp : c.scanner.Tidy body p) : ∃ l, c.store.Gives (c.applyAll p.log) () l := by
  have hlog : ∀ e ∈ p.log.toList, True ∧ e.2.Calls c.store.Defines := by
    intro e he
    obtain ⟨f, hf, rfl⟩ := List.mem_map.mp he
    exact ⟨trivial, hp.calls f hf⟩
  obtain ⟨_, l, _, hgives, _⟩ := (alike_applyAll (P := fun _ => True) hm hlog).gives
  exact ⟨l, hgives⟩

/-- Acting on the observations of a tidy record keeps the answers right. -/
theorem faithful_applyAll (hm : c.store.Defines c.method) {body : Body} {p : Progress}
    (hp : c.scanner.Tidy body p) (hf : session.memo.Faithful c.store) :
    ((c.applyAll p.log).run session).2.memo.Faithful c.store := by
  obtain ⟨l, hgives⟩ := gives_applyAll hm hp
  obtain ⟨memo, hmemo, hrun⟩ := hgives session hf
  rw [hrun]
  exact hmemo

theorem faithful_analyzeBody (hs : c.store.Tabled) (hm : c.store.Defines c.method)
    (hf : session.memo.Faithful c.store) (token : Token) (body : Body) :
    ((c.analyzeBody token body).run session).2.memo.Faithful c.store := by
  unfold analyzeBody
  split
  · exact hf
  · next g _ =>
    obtain ⟨memo, hmemo, hrun⟩ := run_iterate hm hf body g
    have htidy := tidy_solve hs hmemo session.ledger body g
    rw [Act.run_bind, hrun]
    generalize solve g (c.scanner.analysis g body) c.config.maxVisits _ = result at htidy
    obtain ⟨(budget | b) | solution, p⟩ := result
    · exact htidy.memo
    · exact htidy.memo
    · exact faithful_applyAll hm htidy htidy.memo

end Context

/-! ## 3. Sessions -/

namespace Store

variable {s : Store}

/-- **An analysis keeps the answers of a session right**, however it ends. -/
theorem faithful_analyze (hs : s.Tabled) {session : Session} (hf : session.memo.Faithful s)
    (config : Config) (token : Token) (typeArgs methodArgs : List TypeSig) :
    ((s.analyze config token typeArgs methodArgs).run session).2.memo.Faithful s := by
  have htry : ((s.tryAnalyze config token typeArgs methodArgs).run session).2.memo.Faithful s := by
    unfold tryAnalyze
    split
    · exact hf
    · next m hm =>
      split
      · exact hf
      · next body _ =>
        exact Context.faithful_analyzeBody (c := ⟨s, config, m, typeArgs, methodArgs⟩) hs
          (hs.defines_methodDef? hm) hf token body
  unfold analyze
  rw [Act.run_bind]
  generalize (s.tryAnalyze config token typeArgs methodArgs).run session = answer at htry
  obtain ⟨_ | _, session'⟩ := answer
  · exact htry
  · exact htry

/-- **The sessions that analyses lead to**, from a new one, of whatever methods and however they
    end. -/
inductive Reached (s : Store) : Session → Prop where
  | fresh : Reached s {}
  | analyze (session : Session) (h : Reached s session) (config : Config) (token : Token)
      (typeArgs methodArgs : List TypeSig) :
      Reached s ((s.analyze config token typeArgs methodArgs).run session).2

/-- **What a session remembers after any number of analyses is right.** -/
theorem Reached.faithful (hs : s.Tabled) {session : Session} (h : s.Reached session) :
    session.memo.Faithful s := by
  induction h with
  | fresh => exact faithful_empty s
  | analyze session _ config token typeArgs methodArgs ih =>
      exact faithful_analyze hs ih config token typeArgs methodArgs

end Store

end ReflectionFlow

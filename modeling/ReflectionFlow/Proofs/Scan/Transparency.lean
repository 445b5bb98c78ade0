/-
  File:      ReflectionFlow/Proofs/Scan/Transparency.lean
  Subject:   What a session remembers does not show, and neither does the order of analyses.

  Analyses share a session only for its answers, and an answer that is remembered is the one that
  would be found again.  So an analysis gives the same report and enters the same marks and
  diagnostics whatever was analyzed before it.  A batch may then be worked off in any order: the
  reports are the same, and the ledgers differ in the order of their entries only.

  * `Scanner.Same`, `Scanner.Same.transfer`   iterations that differ in what they remember
  * `Store.gives_analyze`                     an analysis gives one report and one set of entries
  * `Store.analyzeInOrder`                    a batch worked off in a given order
  * `analyze_transparent`
-/
import ReflectionFlow.Proofs.Scan.Atomicity
import ReflectionFlow.Proofs.Scan.History

namespace ReflectionFlow

open Store

/-! ## 1. Iterations -/

namespace Scanner

/-- **Iterations that differ in what they remember only**, all of it right. -/
structure Same (sc : Scanner) (p q : Progress) : Prop where
  left : p.session.memo.Faithful sc.context.store
  right : q.session.memo.Faithful sc.context.store
  log : p.log = q.log
  returns : p.returns = q.returns

/-- **A visit does the same to iterations that differ in what they remember.** -/
theorem Same.transfer {sc : Scanner} (hs : sc.context.store.Tabled) {g : FlowGraph} {body : Body}
    (n : Nat) (x : State) (p q : Progress) (h : sc.Same p q) :
    (sc.transfer g body n x p).1 = (sc.transfer g body n x q).1 ∧
      sc.Same (sc.transfer g body n x p).2 (sc.transfer g body n x q).2 := by
  obtain ⟨hcode, hp⟩ | ⟨i, rest, result, memo, hcode, hgives, hmemo, hp⟩ :=
    transfer_cases hs h.left g body n x
  · have hq : sc.transfer g body n x q = (.ok x.entered, q) := by
      unfold Scanner.transfer
      rw [hcode]
    rw [hp, hq]
    exact ⟨rfl, h⟩
  · rw [hcode] at hgives
    obtain ⟨memo', hmemo', hq⟩ := transfer_of_gives hcode hgives h.right
    have hlog : ∀ first last, (p.forget first last).log = (q.forget first last).log := fun _ _ => by
      simp only [Progress.forget, h.log]
    have hreturns : ∀ first last, (p.forget first last).returns = (q.forget first last).returns :=
      fun _ _ => by simp only [Progress.forget, h.returns]
    rw [hp, hq]
    cases result with
    | error b => exact ⟨rfl, ⟨hmemo, hmemo', hlog _ _, hreturns _ _⟩⟩
    | ok t =>
        refine ⟨rfl, ⟨hmemo, hmemo', ?_, ?_⟩⟩
        · simp only [filed, Progress.file, hlog]
        · simp only [filed, Progress.file, hreturns]

end Scanner

/-! ## 2. Analyses -/

namespace Context

variable {c : Context}

/-- The iteration from another session with right answers: it ends the same way, with the same
    record, and has entered nothing. -/
theorem solve_same (hs : c.store.Tabled) {memo memo' : Memo} (hf : memo.Faithful c.store)
    (hf' : memo'.Faithful c.store) (ledger ledger' : Ledger) (body : Body) (g : FlowGraph) :
    (solve g (c.scanner.analysis g body) c.config.maxVisits { session := ⟨memo, ledger⟩ }).1 =
      (solve g (c.scanner.analysis g body) c.config.maxVisits { session := ⟨memo', ledger'⟩ }).1 ∧
    c.scanner.Same
      (solve g (c.scanner.analysis g body) c.config.maxVisits { session := ⟨memo, ledger⟩ }).2
      (solve g (c.scanner.analysis g body) c.config.maxVisits { session := ⟨memo', ledger'⟩ }).2 :=
  solve_congr (Scanner.Same.transfer hs) ⟨hf, hf', rfl, rfl⟩

/-- The analysis of a body gives one report and one set of entries. -/
theorem gives_analyzeBody (hs : c.store.Tabled) (hm : c.store.Defines c.method) (token : Token)
    (body : Body) : ∃ answer l, c.store.Gives (c.analyzeBody token body) answer l := by
  cases hg : FlowGraph.ofBody body with
  | error f =>
      refine ⟨.error (.flow c.method.token f), {}, ?_⟩
      unfold analyzeBody
      rw [hg]
      exact gives_pure _
  | ok g =>
      -- the iteration in a new session stands for those in all others
      have htidy := tidy_solve (c := c) hs (faithful_empty c.store) {} body g
      have hsolve : ∀ session : Session, session.memo.Faithful c.store → ∃ memo,
          Memo.Faithful c.store memo ∧ (c.iterate body g).run session =
            (answer (solve g (c.scanner.analysis g body) c.config.maxVisits
              { session := ⟨memo, session.ledger⟩ }),
            (solve g (c.scanner.analysis g body) c.config.maxVisits
              { session := ⟨memo, session.ledger⟩ }).2.session) := fun session hf =>
        run_iterate hm hf body g
      have hsame := fun (memo : Memo) (hf : memo.Faithful c.store) (ledger : Ledger) =>
        solve_same (c := c) hs (faithful_empty c.store) hf {} ledger body g
      have hledger := fun session : Session => c.ledger_iterate body g session
      generalize solve g (c.scanner.analysis g body) c.config.maxVisits
        { session := ⟨{}, {}⟩ } = fresh at htidy hsame
      obtain ⟨result, p⟩ := fresh
      obtain ⟨l, hl⟩ := gives_applyAll hm htidy
      cases result with
      | error f =>
          have hanswer : ∃ fault, ∀ q, answer (.error f, q) = .error fault := by
            cases f with
            | exhausted budget => exact ⟨_, fun _ => rfl⟩
            | transfer b => exact ⟨_, fun _ => rfl⟩
          obtain ⟨fault, hfault⟩ := hanswer
          refine ⟨.error fault, {}, fun session hf => ?_⟩
          obtain ⟨memo, hmemo, hrun⟩ := hsolve session hf
          obtain ⟨hval, hsame⟩ := hsame memo hmemo session.ledger
          have hkeep := hledger session
          rw [hrun] at hkeep
          generalize solve g (c.scanner.analysis g body) c.config.maxVisits _ = other at *
          obtain ⟨result, q⟩ := other
          obtain rfl : Except.error f = result := hval
          refine ⟨q.session.memo, hsame.right, ?_⟩
          unfold analyzeBody
          rw [hg, Act.run_bind, hrun, hfault, Ledger.append_empty, ← hkeep]
          rfl
      | ok solution =>
          refine ⟨.ok ⟨token, p.returned, .converged solution.visits, p.log.size, some solution⟩, l,
            fun session hf => ?_⟩
          obtain ⟨memo, hmemo, hrun⟩ := hsolve session hf
          obtain ⟨hval, hsame⟩ := hsame memo hmemo session.ledger
          have hkeep := hledger session
          rw [hrun] at hkeep
          generalize solve g (c.scanner.analysis g body) c.config.maxVisits _ = other at *
          obtain ⟨result, q⟩ := other
          obtain rfl : Except.ok solution = result := hval
          obtain ⟨memo', hmemo', happly⟩ := hl q.session hsame.right
          refine ⟨memo', hmemo', ?_⟩
          have hreturned : p.returned = q.returned := by
            unfold Progress.returned
            rw [show p.returns = q.returns from hsame.returns]
          unfold analyzeBody
          rw [hg, Act.run_bind, hrun, hreturned, hsame.log]
          rw [hsame.log] at happly
          show ((c.applyAll q.log >>= fun _ => _).run q.session) = _
          rw [Act.run_bind, happly, ← hkeep]
          rfl

end Context

namespace Store

variable {s : Store}

/-- **An analysis gives one report and one set of entries**, whatever is remembered. -/
theorem gives_analyze (hs : s.Tabled) (config : Config) (token : Token)
    (typeArgs methodArgs : List TypeSig) :
    ∃ answer l, s.Gives (s.analyze config token typeArgs methodArgs) answer l := by
  have htry : ∃ answer l, s.Gives (s.tryAnalyze config token typeArgs methodArgs) answer l := by
    unfold tryAnalyze
    split
    · exact ⟨_, _, gives_pure _⟩
    · next m hm =>
      split
      · exact ⟨_, _, gives_pure _⟩
      · exact Context.gives_analyzeBody (c := ⟨s, config, m, typeArgs, methodArgs⟩) hs
          (hs.defines_methodDef? hm) token _
  obtain ⟨answer, l, hgives⟩ := htry
  unfold analyze
  cases answer with
  | ok report => exact ⟨_, _, hgives.bind (gives_pure _)⟩
  | error f => exact ⟨_, _, hgives.bind (gives_pure _)⟩

/-- What an action gives shows in a new session. -/
theorem Gives.fresh {α : Type} {x : Act α} {a : α} {l : Ledger} (h : s.Gives x a l) :
    (x.run {}).1 = a ∧ (x.run {}).2.ledger = l := by
  obtain ⟨memo, _, hrun⟩ := h {} (faithful_empty s)
  rw [hrun]
  exact ⟨rfl, rfl⟩

/-- The report on a method in a new session. -/
def report (s : Store) (config : Config) (token : Token) : Except AnalysisFault MethodReport :=
  ((s.analyze config token).run {}).1

/-- What the analysis of a method enters in a new session. -/
def entries (s : Store) (config : Config) (token : Token) : Ledger :=
  ((s.analyze config token).run {}).2.ledger

theorem gives_report (hs : s.Tabled) (config : Config) (token : Token) :
    s.Gives (s.analyze config token) (s.report config token) (s.entries config token) := by
  obtain ⟨answer, l, hgives⟩ := gives_analyze hs config token [] []
  obtain ⟨hanswer, hl⟩ := hgives.fresh
  unfold report entries
  rw [hanswer, hl]
  exact hgives

end Store

/-! ## 3. Batches -/

namespace Ledger

/-- Ledgers one after the other. -/
def concat (ls : List Ledger) : Ledger := ⟨ls.flatMap marks, ls.flatMap diagnostics⟩

theorem concat_cons (l : Ledger) (ls : List Ledger) : concat (l :: ls) = l ++ concat ls := rfl

/-- Ledgers with the same entries in any order. -/
structure Shuffled (l l' : Ledger) : Prop where
  marks : l.marks.Perm l'.marks
  diagnostics : l.diagnostics.Perm l'.diagnostics

theorem shuffled_concat {ls ls' : List Ledger} (h : ls.Perm ls') :
    (concat ls).Shuffled (concat ls') :=
  ⟨h.flatMap_right _, h.flatMap_right _⟩

theorem Shuffled.after {l l' : Ledger} (h : l.Shuffled l') (before : Ledger) :
    (before ++ l).Shuffled (before ++ l') :=
  ⟨h.marks.append_left _, h.diagnostics.append_left _⟩

/-- **The marked members do not depend on the order of the marks,** -/
theorem Shuffled.members {l l' : Ledger} (h : l.Shuffled l') : l.members = l'.members := by
  have hperm := h.marks.map Mark.member
  refine ascending_ext (ascending_unionSorted _ List.Pairwise.nil)
    (ascending_unionSorted _ List.Pairwise.nil) fun m => ?_
  show m ∈ unionSorted [] _ ↔ m ∈ unionSorted [] _
  rw [mem_unionSorted, mem_unionSorted, hperm.mem_iff]

/-- **and sorted diagnostics do not depend on the order of the reports.** -/
theorem Shuffled.sortedDiagnostics {l l' : Ledger} (h : l.Shuffled l') :
    l.sortedDiagnostics = l'.sortedDiagnostics := sortedByRank_congr h.diagnostics

end Ledger

namespace Store

variable {s : Store}

/-- Analyzes methods in a given order of their positions.  The result on a method stands at the
    position of the method. -/
def analyzeInOrder (s : Store) (config : Config) (tokens : List Token) (order : List Nat) :
    Act (List (Option (Except AnalysisFault MethodReport))) :=
  order.foldlM
    (fun results i => do
      match tokens[i]? with
      | none => return results
      | some t => return results.set i (some (← s.analyze config t)))
    (tokens.map fun _ => none)

theorem gives_analyzeAll (hs : s.Tabled) (config : Config) (tokens : List Token) :
    s.Gives (s.analyzeAll config tokens) (tokens.map (s.report config))
      (Ledger.concat (tokens.map (s.entries config))) := by
  unfold analyzeAll
  induction tokens with
  | nil => exact gives_pure _
  | cons t tokens ih =>
      rw [List.mapM_cons]
      have hrest := ih.bind (f := fun reports => pure (s.report config t :: reports)) (gives_pure _)
      rw [Ledger.append_empty] at hrest
      rw [List.map_cons, List.map_cons, Ledger.concat_cons]
      exact (gives_report hs config t).bind hrest

/-- The results of a batch whose positions are worked off one after the other. -/
theorem gives_analyzeInOrder (hs : s.Tabled) (config : Config) (tokens : List Token)
    (order : List Nat) : s.Gives (s.analyzeInOrder config tokens order)
      (order.foldl (fun results i => results.set i (tokens[i]?.map (s.report config)))
        (tokens.map fun _ => none))
      (Ledger.concat ((order.filterMap (tokens[·]?)).map (s.entries config))) := by
  unfold analyzeInOrder
  generalize htable : tokens.map (fun _ => (none : Option (Except AnalysisFault MethodReport))) =
    results
  have hlen : results.length = tokens.length := by rw [← htable, List.length_map]
  clear htable
  induction order generalizing results with
  | nil => exact gives_pure _
  | cons i order ih =>
      rw [List.foldlM_cons, List.foldl_cons]
      have hstep := ih (results.set i (tokens[i]?.map (s.report config)))
        (by rw [List.length_set, hlen])
      cases ht : tokens[i]? with
      | none =>
          have hout : results.length ≤ i := by
            rw [hlen]
            exact List.getElem?_eq_none_iff.mp ht
          rw [List.set_eq_of_length_le hout] at hstep ⊢
          rw [List.filterMap_cons_none ht]
          exact hstep
      | some t =>
          rw [ht] at hstep
          rw [List.filterMap_cons_some ht, List.map_cons, Ledger.concat_cons]
          have hset := (gives_report hs config t).bind
            (f := fun report => pure (results.set i (some report))) (gives_pure _)
          rw [Ledger.append_empty] at hset
          exact hset.bind hstep

/-- Once every position was written, all hold what was written to them. -/
theorem foldl_set_eq {α : Type} {f : Nat → α} {order : List Nat} {table : List α} {l : List α}
    (hlen : table.length = l.length)
    (h : ∀ (i : Nat) (x : α), l[i]? = some x → if i ∈ order then x = f i else table[i]? = some x) :
    order.foldl (fun table i => table.set i (f i)) table = l := by
  induction order generalizing table with
  | nil =>
      refine List.ext_getElem? fun i => ?_
      cases hx : l[i]? with
      | some x => exact h i x hx
      | none =>
          rw [List.getElem?_eq_none_iff] at hx
          exact List.getElem?_eq_none_iff.mpr (hlen ▸ hx)
  | cons j order ih =>
      rw [List.foldl_cons]
      refine ih (by rw [List.length_set, hlen]) fun i x hx => ?_
      have hi := h i x hx
      by_cases hmem : i ∈ order
      · rw [if_pos (List.mem_cons_of_mem j hmem)] at hi
        rwa [if_pos hmem]
      · rw [if_neg hmem]
        by_cases hij : i = j
        · subst hij
          rw [if_pos List.mem_cons_self] at hi
          have hlt : i < table.length := by
            rw [hlen]
            exact (List.getElem?_eq_some_iff.mp hx).1
          rw [List.getElem?_set_self hlt, hi]
        · rw [if_neg (fun hc => (List.mem_cons.mp hc).elim hij hmem)] at hi
          rwa [List.getElem?_set_ne (Ne.symm hij)]

theorem filterMap_getElem?_range {α : Type} (l : List α) :
    (List.range l.length).filterMap (l[·]?) = l := by
  have hmap : (List.range l.length).map (l[·]?) = l.map some := by
    refine List.ext_getElem? fun i => ?_
    rw [List.getElem?_map, List.getElem?_map]
    by_cases hi : i < l.length
    · simp [List.getElem?_range hi, List.getElem?_eq_getElem hi]
    · simp [hi]
  have := congrArg (List.filterMap id) hmap
  simpa [List.filterMap_map] using this

/-- **A batch in any order** gives the reports in input order and all entries, in some order. -/
theorem gives_analyzeInOrder_perm (hs : s.Tabled) (config : Config) {tokens : List Token}
    {order : List Nat} (horder : order.Perm (List.range tokens.length)) :
    ∃ l, s.Gives (s.analyzeInOrder config tokens order)
        (tokens.map fun t => some (s.report config t)) l ∧
      l.Shuffled (Ledger.concat (tokens.map (s.entries config))) := by
  have hgives := gives_analyzeInOrder hs config tokens order
  have hall : ∀ i, i < tokens.length → i ∈ order := fun i hi =>
    horder.mem_iff.mpr (List.mem_range.mpr hi)
  rw [foldl_set_eq (l := tokens.map fun t => some (s.report config t))] at hgives
  · refine ⟨_, hgives, Ledger.shuffled_concat (List.Perm.map _ ?_)⟩
    have htokens := horder.filterMap (tokens[·]?)
    rwa [filterMap_getElem?_range] at htokens
  · rw [List.length_map, List.length_map]
  · intro i x hx
    obtain ⟨t, ht, rfl⟩ := Option.map_eq_some_iff.mp (List.getElem?_map ▸ hx)
    rw [if_pos (hall i (List.getElem?_eq_some_iff.mp ht).1), ht]
    rfl

end Store

/-! ## 4. Sessions with a history -/

/-- **What a session remembers does not show.**  In a session that any analyses led to, the
    analysis of a method, with any arguments for generic parameters, gives what it gives in a new
    session and enters the same marks and diagnostics.  So methods may be analyzed in any order:
    the results in input order, the marked members and the sorted diagnostics stay the same. -/
theorem analyze_transparent (ds : List Declaration) (config : Config) {session : Session}
    (hsession : (ofList ds).Reached session) :
    (∀ token typeArgs methodArgs,
      let shared := ((ofList ds).analyze config token typeArgs methodArgs).run session
      let fresh := ((ofList ds).analyze config token typeArgs methodArgs).run {}
      shared.1 = fresh.1 ∧ shared.2.ledger = session.ledger ++ fresh.2.ledger) ∧
    ∀ (tokens : List Token) (order : List Nat), order.Perm (List.range tokens.length) →
      let reordered := ((ofList ds).analyzeInOrder config tokens order).run session
      let batch := ((ofList ds).analyzeAll config tokens).run session
      batch.1 = tokens.map (fun t => (((ofList ds).analyze config t).run {}).1) ∧
      reordered.1 = batch.1.map some ∧
      reordered.2.ledger.members = batch.2.ledger.members ∧
      reordered.2.ledger.sortedDiagnostics = batch.2.ledger.sortedDiagnostics := by
  have hs := tabled_ofList ds
  have hf := hsession.faithful hs
  constructor
  · intro token typeArgs methodArgs
    obtain ⟨answer, l, hgives⟩ := gives_analyze hs config token typeArgs methodArgs
    obtain ⟨hanswer, hl⟩ := hgives.fresh
    obtain ⟨memo, _, hrun⟩ := hgives session hf
    dsimp only
    rw [hanswer, hl, hrun]
    exact ⟨rfl, rfl⟩
  · intro tokens order horder
    obtain ⟨memo, _, hbatch⟩ := gives_analyzeAll hs config tokens session hf
    obtain ⟨l, hgives, hshuffled⟩ := gives_analyzeInOrder_perm hs config horder
    obtain ⟨memo', _, hreordered⟩ := hgives session hf
    have hledger := hshuffled.after session.ledger
    dsimp only
    rw [hbatch, hreordered]
    refine ⟨rfl, ?_, hledger.members, hledger.sortedDiagnostics⟩
    rw [List.map_map]
    rfl

namespace Twins

/-- A library method that finds types by name, which has no body. -/
def library : Token := ⟨0x06000001⟩

def first : Token := ⟨0x06000002⟩

def second : Token := ⟨0x06000003⟩

/-- Finds types by the name it is given and by another one. -/
def body : Body where
  maxStack := 1
  initLocals := false
  locals := []
  instructions :=
    [⟨0, .ldarg0, .empty⟩, ⟨1, .call, .token library⟩, ⟨6, .pop, .empty⟩,
     ⟨7, .ldstr, .string "N.C"⟩, ⟨12, .call, .token library⟩, ⟨17, .pop, .empty⟩, ⟨18, .ret, .empty⟩]
  clauses := []

/-- Two methods with the same body. -/
def declarations : List Declaration :=
  [.type "lib" "System" "Type" 1 none, .type "app" "N" "C" 1 none,
   .method ⟨0x02000001⟩ "GetType" 0x16
    ⟨false, false, 0, .classType ⟨0x02000001⟩, [.prim .string]⟩,
   .method ⟨0x02000002⟩ "M" 0x16 ⟨false, false, 0, .prim .void, [.prim .string]⟩,
   .method ⟨0x02000002⟩ "L" 0x16 ⟨false, false, 0, .prim .void, [.prim .string]⟩,
   .body first body, .body second body]

/-- The session after one of the methods was analyzed, which remembers what the name names. -/
def session : Session := (((ofList declarations).analyze {} first).run {}).2

/-- Each analysis reports the name it is given, so the reports come in the order of the analyses. -/
theorem order_shows :
    session.memo.typeNames = [("N.C", some [⟨0x02000002⟩])] ∧
    (((ofList declarations).analyzeInOrder {} [first, second] [1, 0]).run session).2.ledger.diagnostics.map
      (·.origin.method) = [first, second, first] ∧
    (((ofList declarations).analyzeAll {} [first, second]).run session).2.ledger.diagnostics.map
      (·.origin.method) = [first, first, second] := by
  decide +kernel

end Twins

/-- In other order the two methods give the same results, members and sorted diagnostics, although
    the reports come in another order. -/
theorem twins_transparent :
    let reordered := ((ofList Twins.declarations).analyzeInOrder {} [Twins.first, Twins.second]
      [1, 0]).run Twins.session
    let batch := ((ofList Twins.declarations).analyzeAll {} [Twins.first, Twins.second]).run Twins.session
    reordered.2.ledger ≠ batch.2.ledger ∧ reordered.1 = batch.1.map some ∧
      reordered.2.ledger.members = batch.2.ledger.members ∧
      reordered.2.ledger.sortedDiagnostics = batch.2.ledger.sortedDiagnostics := by
  obtain ⟨_, hreordered, hbatch⟩ := Twins.order_shows
  have hreached : (ofList Twins.declarations).Reached Twins.session := .analyze _ .fresh _ _ _ _
  have horder : [1, 0].Perm (List.range [Twins.first, Twins.second].length) := by decide
  obtain ⟨_, hbatches⟩ := analyze_transparent Twins.declarations {} hreached
  refine ⟨fun heq => ?_, (hbatches _ _ horder).2⟩
  rw [heq, hbatch] at hreordered
  cases hreordered

end ReflectionFlow

/-
  File:      ReflectionFlow/Proofs/Code/Consistency.lean
  Subject:   The assembler refuses exactly the inconsistent programs.

  Faults arise at three times: when an instruction is emitted, when a label is placed, and when the
  finished body asks for labels.  What can be wrong with a program is said here of the program
  alone, without the assembler's state: operands and opcodes one statement at a time, labels over
  the whole program, before or after their use.

  A fault that is reported is one the program has, and a body that is finished shows that there is
  none.  As one of the two always happens, both are equivalences.

  * `Consistent`                       programs with nothing wrong
  * `Accuses`                          what a fault says about a program
  * `LabelAt`, `Resolved`              what a finished body is made of
  * `Assembler.accuses_of_mem_faults`  faults that are noted on the way
  * `assemble_iff_consistent`
-/
import Mathlib.Data.List.Induction
import ReflectionFlow.Proofs.Code.Labels
import ReflectionFlow.Proofs.Flow.Representation

namespace ReflectionFlow

/-! ## 1. Programs -/

/-- The labels a clause names: the bounds of its two regions, and the start of its filter. -/
def LabelledClause.labels (c : LabelledClause) : List String :=
  [c.tryStart, c.tryEnd, c.handlerStart, c.handlerEnd] ++ c.filterStart.toList

namespace Statement

/-- The labels a statement asks for. -/
def uses : Statement → List String
  | .branch _ name => [name]
  | .switch names => names
  | .clause c => c.labels
  | _ => []

/-- The label a statement places. -/
def places? : Statement → Option String
  | .label name => some name
  | _ => none

/-- The clause a statement adds. -/
def clause? : Statement → Option LabelledClause
  | .clause c => some c
  | _ => none

theorem places?_eq_some_iff {s : Statement} {name : String} :
    s.places? = some name ↔ s = .label name := by
  cases s <;> simp [places?]

end Statement

/-- The labels a program places, in order. -/
def placedLabels (program : List Statement) : List String :=
  program.filterMap Statement.places?

theorem mem_placedLabels {program : List Statement} {name : String} :
    name ∈ placedLabels program ↔ .label name ∈ program := by
  simp [placedLabels, Statement.places?_eq_some_iff]

theorem placedLabels_concat (program : List Statement) (s : Statement) :
    placedLabels (program ++ [s]) = placedLabels program ++ s.places?.toList := by
  cases hs : s.places? <;> simp [placedLabels, hs]

/-- **A consistent program:** operands are of the kind their opcodes take, jumps to labels are
    branches, no label is placed twice, and every label that is asked for is placed somewhere. -/
structure Consistent (program : List Statement) : Prop where
  fits : ∀ op operand, .emit op operand ∈ program → op.operandKind.fits operand = true
  jumps : ∀ op name, .branch op name ∈ program → op.isBranch = true
  once : (placedLabels program).Nodup
  placed : ∀ s ∈ program, ∀ name ∈ s.uses, .label name ∈ program

/-- **What a fault says about the program it is reported for.** -/
inductive Accuses (program : List Statement) : AssemblyFault → Prop where
  | operand (before after : List Statement) (op : Opcode) (operand : Operand)
      (hprogram : program = before ++ .emit op operand :: after)
      (hfits : op.operandKind.fits operand = false) :
      Accuses program (.operandMismatch operand op (Assembler.run before).position)
  | branch (op : Opcode) (name : String) (hs : .branch op name ∈ program)
      (hop : op.isBranch = false) : Accuses program (.notABranch op)
  | twice (before after : List Statement) (name : String)
      (hprogram : program = before ++ .label name :: after) (hplaced : .label name ∈ before) :
      Accuses program (.labelTwice name)
  | missing (s : Statement) (name : String) (hs : s ∈ program) (hname : name ∈ s.uses)
      (hplaced : .label name ∉ program) : Accuses program (.labelMissing name)

/-- A consistent program gives no ground for a fault. -/
theorem Accuses.not_consistent {program : List Statement} {fault : AssemblyFault}
    (h : Accuses program fault) : ¬ Consistent program := by
  intro hc
  cases h with
  | operand before after op operand hprogram hfits =>
      have hfit := hc.fits op operand (by simp [hprogram])
      rw [hfits] at hfit
      cases hfit
  | branch op name hs hop =>
      have hbranch := hc.jumps op name hs
      rw [hop] at hbranch
      cases hbranch
  | twice before after name hprogram hplaced =>
      have hsplit : placedLabels program = placedLabels before ++ name :: placedLabels after := by
        simp [placedLabels, hprogram, Statement.places?]
      have honce := hc.once
      rw [hsplit, List.nodup_append] at honce
      exact honce.2.2 name (mem_placedLabels.mpr hplaced) name List.mem_cons_self rfl
  | missing s name hs hname hplaced => exact hplaced (hc.placed s hs name hname)

/-! ## 2. Finished bodies, told by positions -/

/-- **The position at which a program places a label.** -/
def LabelAt (program : List Statement) (name : String) (position : Nat) : Prop :=
  ∃ before after, program = before ++ .label name :: after ∧
    (Assembler.run before).position = position

/-- What becomes of an emitted operand: labels turn into the positions at which they are placed. -/
inductive ResolvedOperand (program : List Statement) : PendingOperand → Operand → Prop where
  | ready (operand : Operand) : ResolvedOperand program (.ready operand) operand
  | label (name : String) (t : Nat) (ht : LabelAt program name t) :
      ResolvedOperand program (.label name) (.target t)
  | labels (names : List String) (ts : List Nat) (hts : List.Forall₂ (LabelAt program) names ts) :
      ResolvedOperand program (.labels names) (.switch ts)

/-- What becomes of a clause: a region has the length from its start to its end label, and none if
    the end does not come after the start. -/
structure ResolvedClause (program : List Statement) (c : LabelledClause) (d : Clause) : Prop where
  flags : d.flags = c.flags
  catchType : d.catchType = c.catchType
  tryOffset : LabelAt program c.tryStart d.tryOffset
  tryLength : ∃ stop, LabelAt program c.tryEnd stop ∧ d.tryLength = stop - d.tryOffset
  handlerOffset : LabelAt program c.handlerStart d.handlerOffset
  handlerLength : ∃ stop, LabelAt program c.handlerEnd stop ∧
    d.handlerLength = stop - d.handlerOffset
  filterOffset : Option.Rel (LabelAt program) c.filterStart d.filterOffset

/-- **A body that holds what the program emits and the clauses it adds, one by one.** -/
structure Resolved (program : List Statement) (body : Body) : Prop where
  instructions : List.Forall₂
    (fun e i => i.opcode = e.1 ∧ ResolvedOperand program e.2 i.operand)
    (emissions program) body.instructions
  clauses : List.Forall₂ (ResolvedClause program) (program.filterMap Statement.clause?) body.clauses

namespace Assembler

variable {a : Assembler} {program : List Statement}

/-! ## 3. Labels and clauses of a run -/

theorem run_concat (program : List Statement) (s : Statement) :
    run (program ++ [s]) = (run program).step s := by
  rw [run_append]
  rfl

/-- **What a run keeps in a log was put there by one of its statements**, in the state that is left
    by the statements before it, if statements only add to the log. -/
theorem mem_log_run {α : Type} {log : Assembler → List α} {new : Assembler → Statement → List α}
    (hstart : log {} = []) (hstep : ∀ a s, log (a.step s) = log a ++ new a s) {x : α} :
    x ∈ log (run program) ↔
      ∃ before s after, program = before ++ s :: after ∧ x ∈ new (run before) s := by
  induction program using List.reverseRecOn with
  | nil => simp [run, hstart]
  | append_singleton program last ih =>
      rw [run_concat, hstep, List.mem_append, ih]
      constructor
      · rintro (⟨before, s, after, rfl, hx⟩ | hx)
        · exact ⟨before, s, after ++ [last], by simp, hx⟩
        · exact ⟨program, last, [], rfl, hx⟩
      · rintro ⟨before, s, after, hprogram, hx⟩
        rcases List.eq_nil_or_concat after with rfl | ⟨after, s', rfl⟩
        · obtain ⟨rfl, hlast⟩ := List.append_inj' hprogram rfl
          obtain rfl := List.singleton_inj.mp hlast
          exact Or.inr hx
        · rw [List.concat_eq_append, ← List.cons_append, ← List.append_assoc] at hprogram
          exact Or.inl ⟨before, s, after, (List.append_inj' hprogram rfl).1, hx⟩

theorem labels_check (a : Assembler) (ok : Bool) (fault : AssemblyFault) :
    (a.check ok fault).labels = a.labels := by
  cases ok <;> rfl

theorem clauses_check (a : Assembler) (ok : Bool) (fault : AssemblyFault) :
    (a.check ok fault).clauses = a.clauses := by
  cases ok <;> rfl

/-- One statement places at most its own label. -/
theorem labels_step (a : Assembler) (s : Statement) :
    (a.step s).labels.map Prod.fst = s.places?.toList ++ a.labels.map Prod.fst := by
  cases s <;> simp [step, push, labels_check, Statement.places?]

/-- The labels that are known are those that were placed, the latest first. -/
theorem labels_run (program : List Statement) :
    (run program).labels.map Prod.fst = (placedLabels program).reverse := by
  induction program using List.reverseRecOn with
  | nil => rfl
  | append_singleton program s ih =>
      rw [run_concat, labels_step, ih, placedLabels_concat]
      cases s.places? <;> simp

/-- One statement adds at most its own clause. -/
theorem clauses_step_eq (a : Assembler) (s : Statement) :
    (a.step s).clauses = a.clauses ++ s.clause?.toList := by
  cases s <;> simp [step, push, clauses_check, Statement.clause?]

/-- The clauses of a run are those of the program, in order. -/
theorem clauses_run (program : List Statement) :
    (run program).clauses = program.filterMap Statement.clause? := by
  induction program using List.reverseRecOn with
  | nil => rfl
  | append_singleton program s ih =>
      rw [run_concat, clauses_step_eq, ih]
      cases hs : s.clause? <;> simp [hs]

/-- A label is unknown exactly if it was never placed. -/
theorem lookup_run_eq_none_iff {name : String} :
    (run program).labels.lookup name = none ↔ .label name ∉ program := by
  have hkeys : name ∈ (run program).labels.map Prod.fst ↔ .label name ∈ program := by
    rw [labels_run, List.mem_reverse, mem_placedLabels]
  rw [← hkeys, List.lookup_eq_none_iff]
  simp only [List.mem_map, bne_iff_ne]
  constructor
  · rintro h ⟨p, hp, rfl⟩
    exact h p hp rfl
  · intro h p hp heq
    exact h ⟨p, hp, heq.symm⟩

theorem resolve_error {name : String} {fault : AssemblyFault}
    (h : (run program).resolve name = .error fault) :
    fault = .labelMissing name ∧ .label name ∉ program := by
  unfold resolve at h
  split at h
  · cases h
  · next hnone => exact ⟨(Except.error.inj h).symm, lookup_run_eq_none_iff.mp hnone⟩

/-- **Without faults a label is resolved to the position at which it is placed.** -/
theorem labelAt_of_resolve (hf : (run program).faults = []) {name : String} {position : Nat}
    (h : (run program).resolve name = .ok position) : LabelAt program name position := by
  have hplaced : .label name ∈ program := by
    by_contra hmissing
    rw [resolve, lookup_run_eq_none_iff.mpr hmissing] at h
    cases h
  obtain ⟨before, after, rfl⟩ := List.append_of_mem hplaced
  refine ⟨before, after, rfl, ?_⟩
  rw [resolve, lookup_label before after hf] at h
  exact Except.ok.inj h

/-! ## 4. Faults that are noted on the way -/

/-- The fault a statement gives rise to. -/
def fault? (a : Assembler) : Statement → Option AssemblyFault
  | .emit op operand =>
    if op.operandKind.fits operand then none else some (.operandMismatch operand op a.position)
  | .branch op _ => if op.isBranch then none else some (.notABranch op)
  | .label name => if (a.labels.lookup name).isNone then none else some (.labelTwice name)
  | _ => none

theorem fault?_label {name : String} :
    a.fault? (.label name) = none ↔ a.labels.lookup name = none := by
  cases hl : a.labels.lookup name with
  | none => simp only [fault?, hl, Option.isNone_none, if_true]
  | some position => simp only [fault?, hl, Option.isNone_some, Bool.false_eq_true, if_false,
      reduceCtorEq]

theorem faults_check (a : Assembler) (ok : Bool) (fault : AssemblyFault) :
    (a.check ok fault).faults = a.faults ++ (if ok then none else some fault).toList := by
  cases ok <;> simp [check]

/-- **One statement notes at most its own fault.** -/
theorem faults_step (a : Assembler) (s : Statement) :
    (a.step s).faults = a.faults ++ (a.fault? s).toList := by
  cases s <;> simp [step, push, faults_check, fault?]

/-- **The faults of a run are those of its statements**, each in the state that is left by the
    statements before it. -/
theorem mem_faults_run {fault : AssemblyFault} :
    fault ∈ (run program).faults ↔
      ∃ before s after, program = before ++ s :: after ∧ (run before).fault? s = some fault := by
  rw [mem_log_run rfl faults_step]
  simp only [Option.mem_toList]

/-- **A fault that is noted on the way accuses the program.** -/
theorem accuses_of_mem_faults {fault : AssemblyFault} (h : fault ∈ (run program).faults) :
    Accuses program fault := by
  obtain ⟨before, s, after, hprogram, hs⟩ := mem_faults_run.mp h
  have hmem : s ∈ program := by simp [hprogram]
  cases s with
  | emit op operand =>
      obtain ⟨hfits, rfl⟩ : op.operandKind.fits operand = false ∧ _ = fault := by
        simpa [fault?] using hs
      exact .operand before after op operand hprogram hfits
  | branch op name =>
      obtain ⟨hop, rfl⟩ : op.isBranch = false ∧ _ = fault := by simpa [fault?] using hs
      exact .branch op name hmem hop
  | label name =>
      have hplaced : .label name ∈ before := by
        by_contra hnew
        rw [fault?_label.mpr (lookup_run_eq_none_iff.mpr hnew)] at hs
        cases hs
      obtain rfl : .labelTwice name = fault := (by simpa [fault?] using hs : _ ∧ _).2
      exact .twice before after name hprogram hplaced
  | switch names => cases hs
  | clause c => cases hs
  | declare sig => cases hs
  | maxStack n => cases hs

/-- Without faults nothing is wrong with a statement where it stands. -/
theorem fault?_eq_none (hf : (run program).faults = []) {before after : List Statement}
    {s : Statement} (hprogram : program = before ++ s :: after) : (run before).fault? s = none := by
  cases hs : (run before).fault? s with
  | none => rfl
  | some fault =>
      have hmem := mem_faults_run.mpr ⟨before, s, after, hprogram, hs⟩
      rw [hf] at hmem
      cases hmem

/-- Without faults no label is placed twice. -/
theorem nodup_placedLabels (hf : (run program).faults = []) : (placedLabels program).Nodup := by
  induction program using List.reverseRecOn with
  | nil => exact List.nodup_nil
  | append_singleton program s ih =>
      have hnodup := ih ((continues_run program [s]).faults hf)
      have hnone := fault?_eq_none hf rfl
      rw [placedLabels_concat]
      cases hs : s.places? with
      | none => simpa using hnodup
      | some name =>
          obtain rfl := Statement.places?_eq_some_iff.mp hs
          have hnew := lookup_run_eq_none_iff.mp (fault?_label.mp hnone)
          rw [← mem_placedLabels] at hnew
          refine List.nodup_append.mpr ⟨hnodup, by simp, ?_⟩
          intro other hother one hone heq
          rw [List.mem_singleton.mp hone] at heq
          exact hnew (heq ▸ hother)

/-! ## 5. Labels that are asked for at the end -/

/-- An operand that cannot be finished has a label that was never placed. -/
theorem finishOperand_error {operand : PendingOperand} {fault : AssemblyFault}
    (h : (run program).finishOperand operand = .error fault) :
    ∃ name ∈ operand.names, fault = .labelMissing name ∧ .label name ∉ program := by
  cases operand with
  | ready operand => cases h
  | label name =>
      rcases FlowGraph.error_of_bind h with h | ⟨t, _, h⟩
      · exact ⟨name, List.mem_singleton_self name, resolve_error h⟩
      · cases h
  | labels names =>
      rcases FlowGraph.error_of_bind h with h | ⟨ts, _, h⟩
      · obtain ⟨name, hname, h⟩ := FlowGraph.mapM_error h
        exact ⟨name, hname, resolve_error h⟩
      · cases h

/-- A clause that cannot be finished has a label that was never placed. -/
theorem finishClause_error {c : LabelledClause} {fault : AssemblyFault}
    (h : (run program).finishClause c = .error fault) :
    ∃ name ∈ c.labels, fault = .labelMissing name ∧ .label name ∉ program := by
  have hnamed : ∀ {name}, name ∈ c.labels → (run program).resolve name = .error fault →
      ∃ name ∈ c.labels, fault = .labelMissing name ∧ .label name ∉ program :=
    fun hname h => ⟨_, hname, resolve_error h⟩
  rcases FlowGraph.error_of_bind h with h | ⟨tryOffset, _, h⟩
  · exact hnamed (by simp [LabelledClause.labels]) h
  rcases FlowGraph.error_of_bind h with h | ⟨handlerOffset, _, h⟩
  · exact hnamed (by simp [LabelledClause.labels]) h
  rcases FlowGraph.error_of_bind h with h | ⟨filterOffset, _, h⟩
  · cases hfilter : c.filterStart with
    | none =>
        rw [hfilter] at h
        cases h
    | some name =>
        rw [hfilter] at h
        rcases FlowGraph.error_of_bind h with h | ⟨offset, _, h⟩
        · exact hnamed (by simp [LabelledClause.labels, hfilter]) h
        · cases h
  rcases FlowGraph.error_of_bind h with h | ⟨tryEnd, _, h⟩
  · exact hnamed (by simp [LabelledClause.labels]) h
  rcases FlowGraph.error_of_bind h with h | ⟨handlerEnd, _, h⟩
  · exact hnamed (by simp [LabelledClause.labels]) h
  cases h

/-- The labels of an emitted operand are those its statement asks for. -/
theorem exists_uses_of_mem {p : PendingInstruction} (hp : p ∈ (run program).instructions) :
    ∃ s ∈ program, s.uses = p.operand.names := by
  have hmem : (p.opcode, p.operand) ∈ program.filterMap Statement.emitted? := by
    rw [← (orderly_run program).emitted]
    exact List.mem_map_of_mem hp
  obtain ⟨s, hs, hemitted⟩ := List.mem_filterMap.mp hmem
  refine ⟨s, hs, ?_⟩
  cases s with
  | emit op operand | branch op name | switch names =>
      rw [← (Prod.mk.inj (Option.some.inj hemitted)).2]
      rfl
  | _ => cases hemitted

/-- **A fault that is reported accuses the program.** -/
theorem accuses_of_body {fault : AssemblyFault} (h : (run program).body = .error fault) :
    Accuses program fault := by
  unfold Assembler.body at h
  split at h
  next first rest hfaults =>
    obtain rfl := Except.error.inj h
    exact accuses_of_mem_faults (by simp [hfaults])
  next hfaults =>
    rcases FlowGraph.error_of_bind h with h | ⟨instructions, _, h⟩
    · obtain ⟨p, hp, h⟩ := FlowGraph.mapM_error h
      rcases FlowGraph.error_of_bind h with h | ⟨operand, _, h⟩
      · obtain ⟨name, hname, rfl, hplaced⟩ := finishOperand_error h
        obtain ⟨s, hs, huses⟩ := exists_uses_of_mem hp
        exact .missing s name hs (huses ▸ hname) hplaced
      · cases h
    rcases FlowGraph.error_of_bind h with h | ⟨clauses, _, h⟩
    · obtain ⟨c, hc, h⟩ := FlowGraph.mapM_error h
      obtain ⟨name, hname, rfl, hplaced⟩ := finishClause_error h
      exact .missing (.clause c) name (mem_of_mem_clauses hc) hname hplaced
    · cases h

/-! ## 6. Finished bodies -/

/-- **Labels of a finished operand are the positions at which they are placed.** -/
theorem resolvedOperand_of_finish (hf : (run program).faults = []) {operand : PendingOperand}
    {o : Operand} (h : (run program).finishOperand operand = .ok o) :
    ResolvedOperand program operand o := by
  cases operand with
  | ready operand =>
      obtain rfl := Except.ok.inj h
      exact .ready operand
  | label name =>
      obtain ⟨t, ht, h⟩ := FlowGraph.ok_of_bind h
      obtain rfl := Except.ok.inj h
      exact .label name t (labelAt_of_resolve hf ht)
  | labels names =>
      obtain ⟨ts, hts, h⟩ := FlowGraph.ok_of_bind h
      obtain rfl := Except.ok.inj h
      exact .labels names ts ((forall₂_of_mapM hts).imp fun _ _ ht => labelAt_of_resolve hf ht)

/-- **Regions of a finished clause reach from label to label.** -/
theorem resolvedClause_of_finish (hf : (run program).faults = []) {c : LabelledClause} {d : Clause}
    (h : (run program).finishClause c = .ok d) : ResolvedClause program c d := by
  obtain ⟨tryOffset, htry, h⟩ := FlowGraph.ok_of_bind h
  obtain ⟨handlerOffset, hhandler, h⟩ := FlowGraph.ok_of_bind h
  obtain ⟨filterOffset, hfilter, h⟩ := FlowGraph.ok_of_bind h
  obtain ⟨tryEnd, htryEnd, h⟩ := FlowGraph.ok_of_bind h
  obtain ⟨handlerEnd, hhandlerEnd, h⟩ := FlowGraph.ok_of_bind h
  obtain rfl := Except.ok.inj h
  have hfilterAt : Option.Rel (LabelAt program) c.filterStart filterOffset := by
    cases hstart : c.filterStart with
    | none =>
        rw [hstart] at hfilter
        obtain rfl := Except.ok.inj hfilter
        exact .none
    | some name =>
        rw [hstart] at hfilter
        obtain ⟨offset, hoffset, hfilter⟩ := FlowGraph.ok_of_bind hfilter
        obtain rfl := Except.ok.inj hfilter
        exact .some (labelAt_of_resolve hf hoffset)
  constructor
  case flags => rfl
  case catchType => rfl
  case tryOffset => exact labelAt_of_resolve hf htry
  case tryLength => exact ⟨tryEnd, labelAt_of_resolve hf htryEnd, rfl⟩
  case handlerOffset => exact labelAt_of_resolve hf hhandler
  case handlerLength => exact ⟨handlerEnd, labelAt_of_resolve hf hhandlerEnd, rfl⟩
  case filterOffset => exact hfilterAt

/-- **A finished body holds what the program says, one by one.** -/
theorem Finishes.resolved {body : Body} (h : (run program).Finishes body) :
    Resolved program body := by
  constructor
  case instructions =>
      rw [emissions, ← (orderly_run program).emitted, List.forall₂_map_left_iff]
      refine h.instructions.imp fun p i hfinish => ?_
      obtain ⟨_, hop, hoperand⟩ := finishInstruction_inv hfinish
      exact ⟨hop, resolvedOperand_of_finish h.faults hoperand⟩
  case clauses =>
      rw [← clauses_run]
      exact h.clauses.imp fun c d hfinish => resolvedClause_of_finish h.faults hfinish

end Assembler

/-! ## 7. Consistent programs assemble -/

section

variable {program : List Statement} {body : Body}

theorem LabelAt.mem {name : String} {position : Nat} (h : LabelAt program name position) :
    .label name ∈ program := by
  obtain ⟨before, after, rfl, _⟩ := h
  simp

theorem ResolvedOperand.placed {operand : PendingOperand} {o : Operand}
    (h : ResolvedOperand program operand o) {name : String} (hname : name ∈ operand.names) :
    .label name ∈ program := by
  cases h with
  | ready => cases hname
  | label label t ht =>
      obtain rfl := List.mem_singleton.mp hname
      exact ht.mem
  | labels names ts hts =>
      obtain ⟨t, _, ht⟩ := Assembler.mem_of_forall₂ hts.flip hname
      exact LabelAt.mem ht

theorem ResolvedClause.placed {c : LabelledClause} {d : Clause} (h : ResolvedClause program c d)
    {name : String} (hname : name ∈ c.labels) : .label name ∈ program := by
  obtain ⟨tryEnd, htryEnd, _⟩ := h.tryLength
  obtain ⟨handlerEnd, hhandlerEnd, _⟩ := h.handlerLength
  have hfilter : ∀ start ∈ c.filterStart, .label start ∈ program := by
    intro start hstart
    have hrel := h.filterOffset
    rw [Option.mem_def.mp hstart] at hrel
    generalize d.filterOffset = offset at hrel
    cases hrel with
    | some hat => exact LabelAt.mem hat
  simp only [LabelledClause.labels, List.mem_append, List.mem_cons, List.not_mem_nil, or_false,
    Option.mem_toList] at hname
  rcases hname with (rfl | rfl | rfl | rfl) | hname
  · exact h.tryOffset.mem
  · exact htryEnd.mem
  · exact h.handlerOffset.mem
  · exact hhandlerEnd.mem
  · exact hfilter name hname

/-- A body that holds what the program says shows that every label it asks for is placed. -/
theorem Resolved.placed (h : Resolved program body) {s : Statement} (hs : s ∈ program)
    {name : String} (hname : name ∈ s.uses) : .label name ∈ program := by
  have hoperand : ∀ {op operand}, s.emitted? = some (op, operand) → name ∈ operand.names →
      .label name ∈ program := by
    intro op operand hemitted hname
    have hmem : (op, operand) ∈ emissions program := List.mem_filterMap.mpr ⟨s, hs, hemitted⟩
    obtain ⟨i, _, _, hresolved⟩ := Assembler.mem_of_forall₂ h.instructions.flip hmem
    exact hresolved.placed hname
  cases s with
  | branch op label => exact hoperand rfl hname
  | switch names => exact hoperand rfl hname
  | clause c =>
      have hmem : c ∈ program.filterMap Statement.clause? := List.mem_filterMap.mpr ⟨_, hs, rfl⟩
      obtain ⟨d, _, hresolved⟩ := Assembler.mem_of_forall₂ h.clauses.flip hmem
      exact hresolved.placed hname
  | _ => cases hname

theorem Assembler.Finishes.consistent (h : (run program).Finishes body) : Consistent program := by
  constructor
  case fits =>
      intro op operand hs
      obtain ⟨a, ha⟩ := faults_step_of_mem h.faults hs
      exact (check_eq ha).1
  case jumps => exact fun op name hs => isBranch_of_mem h.faults hs
  case once => exact nodup_placedLabels h.faults
  case placed => exact fun s hs name hname => h.resolved.placed hs hname

end

/-- **A program assembles exactly if it is consistent.**  The body then holds what was emitted, with
    labels as the positions at which they were placed; otherwise the fault names something that is
    wrong with the program. -/
theorem assemble_iff_consistent (program : List Statement) :
    ((∃ body, assemble program = .ok body) ↔ Consistent program) ∧
      (∀ body, assemble program = .ok body → Resolved program body) ∧
      (¬ Consistent program →
        ∃ fault, assemble program = .error fault ∧ Accuses program fault) := by
  have hok : ∀ {body}, assemble program = .ok body → (Assembler.run program).Finishes body :=
    fun h => Assembler.finishes_of_body h
  cases h : assemble program with
  | ok body =>
      have hconsistent := (hok h).consistent
      refine ⟨⟨fun _ => hconsistent, fun _ => ⟨body, rfl⟩⟩, ?_, fun hnot => absurd hconsistent hnot⟩
      intro body' hbody'
      exact (hok (h.trans hbody')).resolved
  | error fault =>
      have haccuses : Accuses program fault := Assembler.accuses_of_body h
      refine ⟨⟨?_, fun hc => absurd hc haccuses.not_consistent⟩, ?_,
        fun _ => ⟨fault, rfl, haccuses⟩⟩
      · rintro ⟨body, hbody⟩
        cases hbody
      · intro body hbody
        cases hbody

end ReflectionFlow

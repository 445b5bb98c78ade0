/-
  File:      ReflectionFlow/Proofs/Code/Labels.lean
  Subject:   A label is the offset of the first instruction that is emitted after it.

  A statement only adds to what the assembler knows.  So the position a label had when it was placed
  is the position it is resolved to, whether it is used before or after, and the next instruction
  that is emitted stands there: labels, clauses and declarations do not move the position.  As every
  instruction takes at least a byte, offsets ascend while the code stays below the size of a word.

  * `PlacedAt`                           how much is emitted before a label is placed
  * `Assembler.Continues`                statements only add
  * `Assembler.lookup_label`             the position of a label
  * `Assembler.Finishes.emission`, `resolve_eq`, `increasing`    finished bodies
  * `Assembler.targets_of_finishOperand`, `entryPoints_of_finishClause`
-/
import ReflectionFlow.Proofs.Code.Layout

namespace ReflectionFlow

/-! ## 1. Emissions -/

/-- What a program emits, in order. -/
def emissions (program : List Statement) : List (Opcode × PendingOperand) :=
  program.filterMap Statement.emitted?

/-- **The program places a label after it has emitted `n` instructions.** -/
def PlacedAt (program : List Statement) (name : String) (n : Nat) : Prop :=
  ∃ before after, program = before ++ .label name :: after ∧ (emissions before).length = n

theorem placedAt_of_getElem? {program : List Statement} {i : Nat} {name : String}
    (h : program[i]? = some (.label name)) :
    PlacedAt program name (emissions (program.take i)).length := by
  obtain ⟨hi, hlabel⟩ := List.getElem?_eq_some_iff.mp h
  refine ⟨program.take i, program.drop (i + 1), ?_, rfl⟩
  rw [← hlabel, List.getElem_cons_drop, List.take_append_drop]

/-- The instruction after those that were emitted before a position stands at it. -/
theorem Packed.offset_eq {start stop middle : Nat} {l rest : List PendingInstruction}
    {p : PendingInstruction} (h : Packed start (l ++ p :: rest) stop) (hl : Packed start l middle) :
    p.offset = middle := by
  induction l generalizing start with
  | nil =>
      obtain rfl : middle = start := hl
      exact h.1
  | cons q l ih => exact ih h.2 hl.2

namespace Assembler

variable {a a' a'' : Assembler} {program : List Statement} {body : Body}

theorem length_instructions_run (program : List Statement) :
    (run program).instructions.length = (emissions program).length := by
  rw [emissions, ← (orderly_run program).emitted, List.length_map]

theorem run_append (before after : List Statement) :
    run (before ++ after) = after.foldl step (run before) :=
  List.foldl_append

/-! ## 2. Statements only add -/

/-- **What a later state of the assembler keeps of an earlier one.** -/
structure Continues (a a' : Assembler) : Prop where
  instructions : a.instructions <+: a'.instructions
  faults : a'.faults = [] → a.faults = []
  /-- A label that is placed twice is a fault. -/
  labels : a'.faults = [] → ∀ name position, a.labels.lookup name = some position →
    a'.labels.lookup name = some position

theorem Continues.refl (a : Assembler) : a.Continues a :=
  ⟨List.prefix_rfl, id, fun _ _ _ h => h⟩

theorem Continues.trans (h : a.Continues a') (h' : a'.Continues a'') : a.Continues a'' :=
  ⟨h.instructions.trans h'.instructions, fun hf => h.faults (h'.faults hf),
    fun hf name position hl => h'.labels hf name position (h.labels (h'.faults hf) name position hl)⟩

theorem continues_check (a : Assembler) (ok : Bool) (fault : AssemblyFault) :
    a.Continues (a.check ok fault) := by
  cases ok with
  | true => exact Continues.refl a
  | false => exact ⟨List.prefix_rfl, fun h => absurd h (by simp [check]),
      fun h => absurd h (by simp [check])⟩

theorem continues_push (a : Assembler) (op : Opcode) (operand : PendingOperand) :
    a.Continues (a.push op operand) :=
  ⟨List.prefix_append _ _, id, fun _ _ _ h => h⟩

/-- **One statement only adds.** -/
theorem continues_step (a : Assembler) (s : Statement) : a.Continues (a.step s) := by
  cases s with
  | emit op operand => exact (continues_check a _ _).trans (continues_push _ _ _)
  | branch op name => exact (continues_check a _ _).trans (continues_push _ _ _)
  | switch names => exact continues_push a _ _
  | label name =>
      have hcheck := continues_check a (a.labels.lookup name).isNone (.labelTwice name)
      refine ⟨hcheck.instructions, hcheck.faults, fun hf other position hl => ?_⟩
      have hnew : (a.labels.lookup name).isNone = true := (check_eq hf).1
      have hne : other ≠ name := by
        rintro rfl
        rw [hl] at hnew
        cases hnew
      rw [step, List.lookup_cons, beq_false_of_ne hne]
      exact hl
  | clause c => exact ⟨List.prefix_rfl, id, fun _ _ _ h => h⟩
  | declare sig => exact ⟨List.prefix_rfl, id, fun _ _ _ h => h⟩
  | maxStack n => exact ⟨List.prefix_rfl, id, fun _ _ _ h => h⟩

theorem continues_foldl (a : Assembler) (rest : List Statement) :
    a.Continues (rest.foldl step a) := by
  induction rest generalizing a with
  | nil => exact Continues.refl a
  | cons s rest ih => exact (continues_step a s).trans (ih (a.step s))

/-- **A program only adds to what its first statements leave.** -/
theorem continues_run (before after : List Statement) :
    (run before).Continues (run (before ++ after)) := by
  rw [run_append]
  exact continues_foldl _ after

/-- Whatever is checked at a statement of a program without faults has passed. -/
theorem faults_step_of_mem (hf : (run program).faults = []) {s : Statement} (hs : s ∈ program) :
    ∃ a : Assembler, (a.step s).faults = [] := by
  obtain ⟨before, after, rfl⟩ := List.append_of_mem hs
  rw [List.append_cons] at hf
  refine ⟨run before, ?_⟩
  have h := (continues_run (before ++ [s]) after).faults hf
  rw [run_append] at h
  exact h

/-- Without faults a label is only sent control by opcodes that branch. -/
theorem isBranch_of_mem (hf : (run program).faults = []) {op : Opcode} {name : String}
    (hs : Statement.branch op name ∈ program) : op.isBranch = true := by
  obtain ⟨a, ha⟩ := faults_step_of_mem hf hs
  exact (check_eq ha).1

theorem clauses_step (a : Assembler) (s : Statement) {c : LabelledClause}
    (hc : c ∈ (a.step s).clauses) : c ∈ a.clauses ∨ s = .clause c := by
  have hcheck : ∀ ok fault, (a.check ok fault).clauses = a.clauses := by
    intro ok fault
    cases ok <;> rfl
  cases s with
  | emit op operand => exact Or.inl (hcheck _ _ ▸ hc)
  | branch op name => exact Or.inl (hcheck _ _ ▸ hc)
  | label name => exact Or.inl (hcheck _ _ ▸ hc)
  | clause d =>
      rcases List.mem_append.mp hc with hc | hc
      · exact Or.inl hc
      · exact Or.inr (List.mem_singleton.mp hc ▸ rfl)
  | switch names => exact Or.inl hc
  | declare sig => exact Or.inl hc
  | maxStack n => exact Or.inl hc

/-- Every clause is one of the program's. -/
theorem mem_of_mem_clauses {c : LabelledClause} (hc : c ∈ (run program).clauses) :
    .clause c ∈ program := by
  have h : ∀ (rest : List Statement) (a : Assembler), c ∈ (rest.foldl step a).clauses →
      c ∈ a.clauses ∨ .clause c ∈ rest := by
    intro rest
    induction rest with
    | nil => exact fun a h => Or.inl h
    | cons s rest ih =>
        intro a h
        rcases ih (a.step s) h with h | h
        · rcases clauses_step a s h with h | rfl
          · exact Or.inl h
          · exact Or.inr List.mem_cons_self
        · exact Or.inr (List.mem_cons_of_mem s h)
  rcases h program {} hc with h | h
  · cases h
  · exact h

/-! ## 3. Labels and positions -/

/-- **A label keeps the position at which it is placed.** -/
theorem lookup_label (before after : List Statement) {name : String}
    (hf : (run (before ++ .label name :: after)).faults = []) :
    (run (before ++ .label name :: after)).labels.lookup name = some (run before).position := by
  rw [List.append_cons] at hf ⊢
  refine (continues_run (before ++ [.label name]) after).labels hf _ _ ?_
  rw [run_append]
  exact List.lookup_cons_self

/-- **The instruction emitted next after a label stands at its position.** -/
theorem exists_instruction_of_placedAt (hf : (run program).faults = []) {name : String} {n : Nat}
    (hplaced : PlacedAt program name n) (hn : n < (emissions program).length) :
    ∃ p, (run program).instructions[n]? = some p ∧
      (run program).labels.lookup name = some p.offset := by
  obtain ⟨before, after, rfl, rfl⟩ := hplaced
  obtain ⟨more, hmore⟩ := (continues_run before (.label name :: after)).instructions
  simp only [← length_instructions_run] at hn ⊢
  have hlookup := lookup_label before after hf
  cases more with
  | nil =>
      rw [← hmore, List.append_nil] at hn
      exact absurd hn (Nat.lt_irrefl _)
  | cons p more =>
      have hpacked := (orderly_run (before ++ .label name :: after)).packed
      rw [← hmore] at hpacked
      have hoffset := hpacked.offset_eq (orderly_run before).packed
      refine ⟨p, ?_, hoffset ▸ hlookup⟩
      rw [← hmore, List.getElem?_append_right (Nat.le_refl _), Nat.sub_self]
      rfl

/-! ## 4. Finished bodies -/

/-- **What a finished body is made of.** -/
structure Finishes (a : Assembler) (body : Body) : Prop where
  faults : a.faults = []
  instructions :
    List.Forall₂ (fun p x => a.finishInstruction p = .ok x) a.instructions body.instructions
  clauses : List.Forall₂ (fun c d => a.finishClause c = .ok d) a.clauses body.clauses

theorem finishes_of_body (h : a.body = .ok body) : a.Finishes body := by
  unfold Assembler.body at h
  split at h
  next => cases h
  next hfaults =>
    obtain ⟨instructions, hinstructions, h⟩ := FlowGraph.ok_of_bind h
    obtain ⟨clauses, hclauses, h⟩ := FlowGraph.ok_of_bind h
    obtain rfl := Except.ok.inj h
    exact ⟨hfaults, forall₂_of_mapM hinstructions, forall₂_of_mapM hclauses⟩

theorem finishInstruction_inv {p : PendingInstruction} {x : Instruction}
    (h : a.finishInstruction p = .ok x) :
    x.offset = p.offset ∧ x.opcode = p.opcode ∧ a.finishOperand p.operand = .ok x.operand := by
  obtain ⟨operand, hoperand, h⟩ := FlowGraph.ok_of_bind h
  obtain rfl := Except.ok.inj h
  exact ⟨rfl, rfl, hoperand⟩

theorem getElem?_of_forall₂ {α β : Type} {R : α → β → Prop} {l : List α} {r : List β}
    (h : List.Forall₂ R l r) {i : Nat} {y : β} (hy : r[i]? = some y) :
    ∃ x, l[i]? = some x ∧ R x y := by
  induction h generalizing i with
  | nil => cases hy
  | @cons x z l r hxz _ ih =>
      cases i with
      | zero =>
          obtain rfl := Option.some.inj hy
          exact ⟨x, rfl, hxz⟩
      | succ i => exact ih hy

theorem mem_of_forall₂ {α β : Type} {R : α → β → Prop} {l : List α} {r : List β}
    (h : List.Forall₂ R l r) {y : β} (hy : y ∈ r) : ∃ x ∈ l, R x y := by
  obtain ⟨i, hi⟩ := List.getElem?_of_mem hy
  obtain ⟨x, hx, hxy⟩ := getElem?_of_forall₂ h hi
  exact ⟨x, List.mem_of_getElem? hx, hxy⟩

/-- **An instruction of a finished body is what the program emits at its index.** -/
theorem Finishes.emission (h : (run program).Finishes body) {i : Nat} {x : Instruction}
    (hx : body.instructions[i]? = some x) :
    ∃ operand, (emissions program)[i]? = some (x.opcode, operand) ∧
      (run program).finishOperand operand = .ok x.operand := by
  obtain ⟨p, hp, hfinish⟩ := getElem?_of_forall₂ h.instructions hx
  obtain ⟨_, hop, hoperand⟩ := finishInstruction_inv hfinish
  refine ⟨p.operand, ?_, hoperand⟩
  rw [emissions, ← (orderly_run program).emitted, List.getElem?_map, hp, hop]
  rfl

theorem Finishes.length_eq (h : (run program).Finishes body) :
    body.instructions.length = (emissions program).length := by
  rw [← h.instructions.length_eq, length_instructions_run]

/-- A finished body has the opcodes that were emitted, in order. -/
theorem Finishes.opcodes_eq (h : (run program).Finishes body) :
    body.instructions.map Instruction.opcode = (emissions program).map Prod.fst := by
  refine List.ext_getElem? fun i => ?_
  rw [List.getElem?_map, List.getElem?_map]
  cases hx : body.instructions[i]? with
  | some x =>
      obtain ⟨operand, hi, _⟩ := h.emission hx
      rw [hi]
      rfl
  | none =>
      rw [List.getElem?_eq_none_iff, h.length_eq] at hx
      rw [List.getElem?_eq_none hx]
      rfl

/-- **A label is the offset of the instruction that is emitted next.** -/
theorem Finishes.resolve_eq (h : (run program).Finishes body) {name : String} {n : Nat}
    (hplaced : PlacedAt program name n) {x : Instruction} (hx : body.instructions[n]? = some x) :
    (run program).resolve name = .ok x.offset := by
  have hn := (List.getElem?_eq_some_iff.mp hx).1
  rw [h.length_eq] at hn
  obtain ⟨p, hp, hlookup⟩ := exists_instruction_of_placedAt h.faults hplaced hn
  obtain ⟨q, hq, hfinish⟩ := getElem?_of_forall₂ h.instructions hx
  obtain rfl := Option.some.inj (hp.symm.trans hq)
  unfold resolve
  rw [hlookup, (finishInstruction_inv hfinish).1]

end Assembler

/-! ## 5. Offsets ascend -/

theorem PendingInstruction.room_pos (p : PendingInstruction) : 0 < p.room := by
  have hop : 0 < p.opcode.size := by
    unfold Opcode.size
    split <;> decide
  unfold room
  omega

/-- Where no offset wraps, every instruction stands behind the one before it. -/
theorem Packed.ascends {ps : List PendingInstruction} {is : List Instruction} {start stop : Nat}
    (hp : Packed start ps stop)
    (h : List.Forall₂ (fun p i => i.offset = p.offset ∧ p.room ≤ i.size) ps is)
    (hsize : start + totalSize is < UInt32.size) :
    (∀ i ∈ is, start ≤ i.offset) ∧ is.Pairwise fun i j => i.offset < j.offset := by
  induction h generalizing start with
  | nil => exact ⟨fun _ hi => (List.not_mem_nil hi).elim, .nil⟩
  | @cons p i ps is hpi _ ih =>
      obtain ⟨hoffset, hroom⟩ := hpi
      have hpos := p.room_pos
      have hstart : i.offset = start := hoffset.trans hp.1
      rw [totalSize] at hsize
      have hend : wrapOffset (start + p.room) = start + p.room := Nat.mod_eq_of_lt (by omega)
      obtain ⟨hlater, hsorted⟩ := ih (hend ▸ hp.2) (by omega)
      refine ⟨?_, List.pairwise_cons.mpr ⟨?_, hsorted⟩⟩
      · intro j hj
        rcases List.mem_cons.mp hj with rfl | hj
        · exact Nat.le_of_eq hstart.symm
        · have := hlater j hj
          omega
      · intro j hj
        have := hlater j hj
        omega

/-- **The offsets of an assembled body ascend**, as long as none wraps. -/
theorem Assembler.Finishes.increasing {program : List Statement} {body : Body}
    (h : (run program).Finishes body) (hsize : totalSize body.instructions < UInt32.size) :
    body.Increasing := by
  have horderly := orderly_run program
  have hfinish := (List.forall₂_and_left _ _).mpr ⟨horderly.fits h.faults, h.instructions⟩
  refine (horderly.packed.ascends (hfinish.imp fun p x hpx => ?_) (by simpa using hsize)).2
  obtain ⟨hoffset, hroom⟩ := size_of_finish hpx.1 hpx.2
  exact ⟨hoffset, by omega⟩

/-! ## 6. Labels that receive control -/

/-- The labels of an operand, in order. -/
def PendingOperand.names : PendingOperand → List String
  | .ready _ => []
  | .label name => [name]
  | .labels names => names

/-- The labels at which a clause lets control in: the handler, and the filter of a filter clause. -/
def LabelledClause.entryLabels (c : LabelledClause) : List String :=
  c.handlerStart :: if c.flags &&& 1 != 0 then c.filterStart.toList else []

/-- The labels a statement sends control to. -/
def Statement.entryLabels : Statement → List String
  | .branch _ name => [name]
  | .switch names => names
  | .clause c => c.entryLabels
  | _ => []

namespace Assembler

variable {a : Assembler}

/-- **Targets are the labels of the operand**, one by one, unless they were resolved before. -/
theorem targets_of_finishOperand {operand : PendingOperand} {x : Instruction}
    (h : a.finishOperand operand = .ok x.operand)
    (htarget : ∀ t, operand ≠ .ready (.target t)) (hswitch : ∀ ts, operand ≠ .ready (.switch ts)) :
    List.Forall₂ (fun name t => a.resolve name = .ok t) operand.names x.targets := by
  cases operand with
  | ready operand =>
      obtain rfl := Except.ok.inj h
      unfold Instruction.targets
      split
      · next t ht => exact absurd (congrArg PendingOperand.ready ht) (htarget t)
      · next ts hts => exact absurd (congrArg PendingOperand.ready hts) (hswitch ts)
      · exact .nil
  | label name =>
      obtain ⟨t, ht, h⟩ := FlowGraph.ok_of_bind h
      unfold Instruction.targets
      rw [← Except.ok.inj h]
      exact .cons ht .nil
  | labels names =>
      obtain ⟨ts, hts, h⟩ := FlowGraph.ok_of_bind h
      unfold Instruction.targets
      rw [← Except.ok.inj h]
      exact forall₂_of_mapM hts

/-- **Entry points are the entry labels of the clause**, one by one. -/
theorem entryPoints_of_finishClause {c : LabelledClause} {d : Clause}
    (h : a.finishClause c = .ok d) :
    List.Forall₂ (fun name e => a.resolve name = .ok e.1) c.entryLabels d.entryPoints := by
  obtain ⟨tryOffset, _, h⟩ := FlowGraph.ok_of_bind h
  obtain ⟨handlerOffset, hhandler, h⟩ := FlowGraph.ok_of_bind h
  obtain ⟨filterOffset, hfilter, h⟩ := FlowGraph.ok_of_bind h
  obtain ⟨tryEnd, _, h⟩ := FlowGraph.ok_of_bind h
  obtain ⟨handlerEnd, _, h⟩ := FlowGraph.ok_of_bind h
  obtain rfl := Except.ok.inj h
  refine .cons hhandler ?_
  cases hf : c.filterStart with
  | none =>
      rw [hf] at hfilter
      obtain rfl := Except.ok.inj hfilter
      simp
  | some name =>
      rw [hf] at hfilter
      obtain ⟨offset, hoffset, hfilter⟩ := FlowGraph.ok_of_bind hfilter
      obtain rfl := Except.ok.inj hfilter
      cases hflag : (c.flags &&& 1 != 0) with
      | true => simp [Clause.isFilter, hflag, hoffset]
      | false => simp [Clause.isFilter, hflag]

end Assembler

end ReflectionFlow

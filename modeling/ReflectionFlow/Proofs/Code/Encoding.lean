/-
  File:      ReflectionFlow/Proofs/Code/Encoding.lean
  Subject:   When the operands of an assembled body can be encoded.

  Each opcode leaves a fixed number of bytes for its operand.  The assembler checks the kind of an
  operand, and of a byte-sized constant also the range.  It checks neither the range of a short
  variable index, nor whether a variable is a local or an argument, nor how far a short jump goes,
  so a body that is finished need not be one that can be written down.

  The three are all that is missing: a finished body can be encoded exactly if the variables of the
  program fit and its short jumps stay in reach.  The statements that choose the shortest form for a
  variable always fit.

  * `Instruction.Encodable`         the operand fits the bytes behind the opcode
  * `FitsInline`                    the same, told of the program
  * `variableFits_shortest`         shortest forms
  * `assemble_encodable_iff`
-/
import ReflectionFlow.Proofs.Code.Consistency

namespace ReflectionFlow

/-! ## 1. Operands and the bytes behind an opcode -/

namespace Opcode

/-- Does the operand name a local variable? -/
def takesLocal : Opcode → Bool
  | .ldloc | .ldloca | .stloc | .ldlocS | .ldlocaS | .stlocS => true
  | _ => false

/-- Does the operand name an argument? -/
def takesArgument : Opcode → Bool
  | .ldarg | .ldarga | .starg | .ldargS | .ldargaS | .stargS => true
  | _ => false

/-- The opcodes with a variable behind them are those that name a local or an argument. -/
theorem takesVariable_iff (op : Opcode) :
    op.takesLocal = true ∨ op.takesArgument = true ↔
      op.operandKind = .shortVar ∨ op.operandKind = .var := by
  cases op <;> decide

end Opcode

/-- **A variable that can stand behind an opcode:** of the sort the opcode names, and behind a short
    form one of the first 256. -/
structure VariableFits (op : Opcode) (operand : Operand) : Prop where
  short : op.operandKind = .shortVar →
    ∀ n, operand = .loc n ∨ operand = .arg n → n.toNat < 256
  loc : op.takesLocal = true → ∃ n, operand = .loc n
  arg : op.takesArgument = true → ∃ n, operand = .arg n

/-- The distance from one offset to another is a signed byte. -/
def InReach (start stop : Nat) : Prop :=
  -128 ≤ (stop : Int) - start ∧ (stop : Int) - start ≤ 127

instance (start stop : Nat) : Decidable (InReach start stop) :=
  inferInstanceAs (Decidable (_ ∧ _))

/-- **An instruction whose operand fits the bytes behind its opcode.** -/
structure Instruction.Encodable (i : Instruction) : Prop where
  kind : i.opcode.operandKind.fits i.operand = true
  vars : VariableFits i.opcode i.operand
  shortInt : i.opcode.operandKind = .shortInt →
    ∀ n, i.operand = .int32 n → -128 ≤ n.toInt ∧ n.toInt ≤ 127
  shortBranch : i.opcode.operandKind = .shortBranch →
    ∀ t, i.operand = .target t → InReach i.next t

/-- An opcode without a variable behind it asks nothing of variables. -/
theorem variableFits_of_kind {op : Opcode} (hshort : op.operandKind ≠ .shortVar)
    (hlong : op.operandKind ≠ .var) (operand : Operand) : VariableFits op operand := by
  have hnone : ¬ (op.takesLocal = true ∨ op.takesArgument = true) := by
    rw [op.takesVariable_iff]
    rintro (h | h)
    · exact hshort h
    · exact hlong h
  exact ⟨fun h => absurd h hshort, fun h => absurd (Or.inl h) hnone,
    fun h => absurd (Or.inr h) hnone⟩

/-! ## 2. Shortest forms -/

theorem variableFits_loc {op : Opcode} {n : UInt16} (hop : op.takesArgument = false)
    (hindex : op.operandKind ≠ .shortVar ∨ n ≤ 0xFF) : VariableFits op (.loc n) := by
  constructor
  case short =>
      rintro hshort m (hm | hm)
      · obtain rfl := Operand.loc.inj hm
        have hbyte := UInt16.le_iff_toNat_le.mp (hindex.resolve_left (absurd hshort))
        exact Nat.lt_succ_of_le hbyte
      · cases hm
  case loc => exact fun _ => ⟨n, rfl⟩
  case arg => exact fun h => absurd h (by simp [hop])

theorem variableFits_arg {op : Opcode} {n : UInt16} (hop : op.takesLocal = false)
    (hindex : op.operandKind ≠ .shortVar ∨ n ≤ 0xFF) : VariableFits op (.arg n) := by
  constructor
  case short =>
      rintro hshort m (hm | hm)
      · cases hm
      · obtain rfl := Operand.arg.inj hm
        have hbyte := UInt16.le_iff_toNat_le.mp (hindex.resolve_left (absurd hshort))
        exact Nat.lt_succ_of_le hbyte
  case loc => exact fun h => absurd h (by simp [hop])
  case arg => exact fun _ => ⟨n, rfl⟩

/-- **Statements that choose the shortest form for a variable fit**, whatever its index. -/
theorem variableFits_shortest (n : UInt16) {op : Opcode} {operand : Operand}
    (h : .emit op operand ∈ [Statement.loadArgument n, .loadLocal n, .storeLocal n,
      .storeArgument n, .argumentAddress n, .localAddress n]) : VariableFits op operand := by
  have hplain : ∀ {p : Opcode}, p.operandKind = .empty → .emit op operand = Statement.plain p →
      VariableFits op operand := by
    intro p hp h
    obtain ⟨rfl, rfl⟩ := Statement.emit.inj h
    exact variableFits_of_kind (by simp [hp]) (by simp [hp]) _
  have hloc : ∀ {p : Opcode}, p.takesArgument = false → p.operandKind ≠ .shortVar ∨ n ≤ 0xFF →
      .emit op operand = Statement.emit p (.loc n) → VariableFits op operand := by
    intro p hp hindex h
    obtain ⟨rfl, rfl⟩ := Statement.emit.inj h
    exact variableFits_loc hp hindex
  have harg : ∀ {p : Opcode}, p.takesLocal = false → p.operandKind ≠ .shortVar ∨ n ≤ 0xFF →
      .emit op operand = Statement.emit p (.arg n) → VariableFits op operand := by
    intro p hp hindex h
    obtain ⟨rfl, rfl⟩ := Statement.emit.inj h
    exact variableFits_arg hp hindex
  simp only [List.mem_cons, List.not_mem_nil, or_false] at h
  rcases h with h | h | h | h | h | h
  · unfold Statement.loadArgument at h
    split_ifs at h with _ _ _ _ hbyte
    iterate 4 exact hplain rfl h
    · exact harg rfl (Or.inr hbyte) h
    · exact harg rfl (Or.inl (by decide)) h
  · unfold Statement.loadLocal at h
    split_ifs at h with _ _ _ _ hbyte
    iterate 4 exact hplain rfl h
    · exact hloc rfl (Or.inr hbyte) h
    · exact hloc rfl (Or.inl (by decide)) h
  · unfold Statement.storeLocal at h
    split_ifs at h with _ _ _ _ hbyte
    iterate 4 exact hplain rfl h
    · exact hloc rfl (Or.inr hbyte) h
    · exact hloc rfl (Or.inl (by decide)) h
  · unfold Statement.storeArgument at h
    split_ifs at h with hbyte
    · exact harg rfl (Or.inr hbyte) h
    · exact harg rfl (Or.inl (by decide)) h
  · unfold Statement.argumentAddress at h
    split_ifs at h with hbyte
    · exact harg rfl (Or.inr hbyte) h
    · exact harg rfl (Or.inl (by decide)) h
  · unfold Statement.localAddress at h
    split_ifs at h with hbyte
    · exact hloc rfl (Or.inr hbyte) h
    · exact hloc rfl (Or.inl (by decide)) h

/-! ## 3. Programs -/

/-- A short jump of a program, and where it leads. -/
inductive ShortJump (program : List Statement) : Statement → Nat → Prop where
  | target (op : Opcode) (t : Nat) (hop : op.operandKind = .shortBranch) :
      ShortJump program (.emit op (.target t)) t
  | label (op : Opcode) (name : String) (t : Nat) (hop : op.operandKind = .shortBranch)
      (ht : LabelAt program name t) : ShortJump program (.branch op name) t

/-- **A program whose operands fit behind their opcodes:** the variables do, and every short jump
    leads to a position in reach of the position after it. -/
structure FitsInline (program : List Statement) : Prop where
  vars : ∀ op operand, .emit op operand ∈ program → VariableFits op operand
  jumps : ∀ before s after t, program = before ++ s :: after → ShortJump program s t →
    InReach (Assembler.run (before ++ [s])).position t

namespace Assembler

variable {program : List Statement} {body : Body}

/-! ## 4. Instructions and their statements -/

theorem instructions_check (a : Assembler) (ok : Bool) (fault : AssemblyFault) :
    (a.check ok fault).instructions = a.instructions ∧
      (a.check ok fault).position = a.position := by
  cases ok <;> exact ⟨rfl, rfl⟩

/-- One statement adds at most its own instruction, at the current position. -/
theorem instructions_step (a : Assembler) (s : Statement) :
    (a.step s).instructions =
      a.instructions ++ (s.emitted?.map fun e => ⟨a.position, e.1, e.2⟩).toList := by
  cases s <;> simp [step, push, instructions_check, Statement.emitted?]

/-- An instruction moves the position by the room it is left. -/
theorem position_step {a : Assembler} {s : Statement} {op : Opcode} {operand : PendingOperand}
    (h : s.emitted? = some (op, operand)) :
    (a.step s).position =
      wrapOffset (a.position + PendingInstruction.room ⟨a.position, op, operand⟩) := by
  cases s with
  | emit op operand | branch op name | switch names =>
      obtain ⟨rfl, rfl⟩ := Prod.mk.inj (Option.some.inj h)
      simp [step, push, instructions_check, PendingInstruction.room]
  | _ => cases h

/-- **The instructions of a run are those of its statements**, each at the position that is left by
    the statements before it. -/
theorem mem_instructions_run {p : PendingInstruction} :
    p ∈ (run program).instructions ↔ ∃ before s after, program = before ++ s :: after ∧
      s.emitted? = some (p.opcode, p.operand) ∧ p.offset = (run before).position := by
  rw [mem_log_run rfl instructions_step]
  obtain ⟨offset, op, operand⟩ := p
  refine exists_congr fun before => exists_congr fun s => exists_congr fun after =>
    and_congr_right fun _ => ?_
  simp only [Option.mem_toList, Option.map_eq_some_iff, PendingInstruction.mk.injEq]
  constructor
  · rintro ⟨⟨op', operand'⟩, hs, rfl, rfl, rfl⟩
    exact ⟨hs, rfl⟩
  · rintro ⟨hs, rfl⟩
    exact ⟨(op, operand), hs, rfl, rfl, rfl⟩

/-- **What a statement becomes in a finished body.** -/
inductive Becomes (program before : List Statement) : Statement → Instruction → Prop where
  | emit (op : Opcode) (operand : Operand) :
      Becomes program before (.emit op operand) ⟨(run before).position, op, operand⟩
  | branch (op : Opcode) (name : String) (t : Nat) (ht : LabelAt program name t) :
      Becomes program before (.branch op name) ⟨(run before).position, op, .target t⟩
  | switch (names : List String) (ts : List Nat) (hts : List.Forall₂ (LabelAt program) names ts) :
      Becomes program before (.switch names) ⟨(run before).position, .switch, .switch ts⟩

theorem becomes_of_finish (hf : (run program).faults = []) {before : List Statement} {s : Statement}
    {p : PendingInstruction} {i : Instruction} (hs : s.emitted? = some (p.opcode, p.operand))
    (hoffset : p.offset = (run before).position)
    (hfinish : (run program).finishInstruction p = .ok i) : Becomes program before s i := by
  obtain ⟨offset, op, operand⟩ := i
  obtain ⟨rfl, rfl, hoperand⟩ := finishInstruction_inv hfinish
  have hresolved := resolvedOperand_of_finish hf hoperand
  dsimp only at hresolved ⊢
  rw [hoffset]
  cases s with
  | emit op operand =>
      obtain ⟨hop, hready⟩ := Prod.mk.inj (Option.some.inj hs)
      rw [← hready] at hresolved
      rw [← hop]
      cases hresolved with
      | ready => exact .emit op operand
  | branch op name =>
      obtain ⟨hop, hlabel⟩ := Prod.mk.inj (Option.some.inj hs)
      rw [← hlabel] at hresolved
      rw [← hop]
      cases hresolved with
      | label _ t ht => exact .branch op name t ht
  | switch names =>
      obtain ⟨hop, hlabels⟩ := Prod.mk.inj (Option.some.inj hs)
      rw [← hlabels] at hresolved
      rw [← hop]
      cases hresolved with
      | labels _ ts hts => exact .switch names ts hts
  | _ => cases hs

/-- **Every instruction of a finished body is what one of the statements becomes.** -/
theorem Finishes.exists_statement (h : (run program).Finishes body) {i : Instruction}
    (hi : i ∈ body.instructions) :
    ∃ before s after, program = before ++ s :: after ∧ Becomes program before s i := by
  obtain ⟨p, hp, hfinish⟩ := mem_of_forall₂ h.instructions hi
  obtain ⟨before, s, after, hprogram, hs, hoffset⟩ := mem_instructions_run.mp hp
  exact ⟨before, s, after, hprogram, becomes_of_finish h.faults hs hoffset hfinish⟩

/-- **Every statement that emits becomes an instruction of the finished body.** -/
theorem Finishes.exists_instruction (h : (run program).Finishes body)
    {before after : List Statement} {s : Statement} (hprogram : program = before ++ s :: after)
    {op : Opcode} {operand : PendingOperand} (hs : s.emitted? = some (op, operand)) :
    ∃ i ∈ body.instructions, Becomes program before s i := by
  have hp : ⟨(run before).position, op, operand⟩ ∈ (run program).instructions :=
    mem_instructions_run.mpr ⟨before, s, after, hprogram, hs, rfl⟩
  obtain ⟨i, hi, hfinish⟩ := mem_of_forall₂ h.instructions.flip hp
  exact ⟨i, hi, becomes_of_finish h.faults hs rfl hfinish⟩

/-! ## 5. What every finished instruction has -/

variable {before : List Statement} {s : Statement} {i : Instruction}

/-- The kind of the operand is right, whatever it was written as. -/
theorem Becomes.fits (h : Becomes program before s i) (hc : Consistent program) (hs : s ∈ program) :
    i.opcode.operandKind.fits i.operand = true := by
  cases h with
  | emit op operand => exact hc.fits op operand hs
  | branch op name t ht =>
      have hbranch := hc.jumps op name hs
      simp only [Opcode.isBranch, Bool.or_eq_true, beq_iff_eq] at hbranch
      rcases hbranch with hkind | hkind <;> simp only [hkind, OperandKind.fits]
  | switch names ts hts => rfl

/-- A jump ends where the assembler stands after its statement. -/
theorem Becomes.next_eq (h : Becomes program before s i) {t : Nat} (ht : i.operand = .target t) :
    i.next = (run (before ++ [s])).position := by
  rw [run_concat]
  cases h with
  | emit op operand =>
      obtain rfl : operand = .target t := ht
      rw [position_step rfl]
      rfl
  | branch op name =>
      rw [position_step rfl]
      rfl
  | switch => cases ht

/-- Without faults a label stands at one position. -/
theorem labelAt_unique (hf : (run program).faults = []) {name : String} {t t' : Nat}
    (h : LabelAt program name t) (h' : LabelAt program name t') : t = t' := by
  obtain ⟨before, after, rfl, rfl⟩ := h
  obtain ⟨before', after', hprogram, rfl⟩ := h'
  have hlookup := lookup_label before after hf
  rw [hprogram] at hf hlookup
  exact Option.some.inj (hlookup.symm.trans (lookup_label before' after' hf))

end Assembler

/-! ## 6. Assembled bodies -/

/-- A byte-sized constant is what the kind of the operand asks for. -/
theorem byte_of_fits {n : Int32} (h : OperandKind.shortInt.fits (.int32 n) = true) :
    -128 ≤ n.toInt ∧ n.toInt ≤ 127 := by
  simpa [OperandKind.fits, isByteSized] using h

open Assembler in
/-- **An assembled body can be encoded exactly if the variables of the program fit behind their
    opcodes and its short jumps stay in reach.** -/
theorem assemble_encodable_iff {program : List Statement} {body : Body}
    (h : assemble program = .ok body) :
    (∀ i ∈ body.instructions, i.Encodable) ↔ FitsInline program := by
  have hfinish := finishes_of_body h
  constructor
  · intro hall
    constructor
    case vars =>
        intro op operand hs
        obtain ⟨before, after, hprogram⟩ := List.append_of_mem hs
        obtain ⟨i, hi, hbecomes⟩ := hfinish.exists_instruction hprogram rfl
        cases hbecomes with
        | emit => exact (hall _ hi).vars
    case jumps =>
        intro before s after t hprogram hjump
        have hreach : ∀ i ∈ body.instructions, Becomes program before s i →
            i.opcode.operandKind = .shortBranch → i.operand = .target t →
            InReach (run (before ++ [s])).position t := by
          intro i hi hbecomes hop ht
          rw [← hbecomes.next_eq ht]
          exact (hall i hi).shortBranch hop t ht
        cases hjump with
        | target op t hop =>
            obtain ⟨i, hi, hbecomes⟩ := hfinish.exists_instruction hprogram rfl
            have hinstruction := hreach i hi hbecomes
            cases hbecomes with
            | emit => exact hinstruction hop rfl
        | label op name t hop ht =>
            obtain ⟨i, hi, hbecomes⟩ := hfinish.exists_instruction hprogram rfl
            have hinstruction := hreach i hi hbecomes
            cases hbecomes with
            | branch _ _ t' ht' =>
                obtain rfl := labelAt_unique hfinish.faults ht ht'
                exact hinstruction hop rfl
  · intro hfits i hi
    obtain ⟨before, s, after, hprogram, hbecomes⟩ := hfinish.exists_statement hi
    have hs : s ∈ program := by simp [hprogram]
    have hkind := hbecomes.fits hfinish.consistent hs
    constructor
    case kind => exact hkind
    case vars =>
        cases hbecomes with
        | emit op operand => exact hfits.vars op operand hs
        | branch op name t ht =>
            have hbranch := hfinish.consistent.jumps op name hs
            simp only [Opcode.isBranch, Bool.or_eq_true, beq_iff_eq] at hbranch
            exact variableFits_of_kind (by rcases hbranch with hk | hk <;> simp [hk])
              (by rcases hbranch with hk | hk <;> simp [hk]) _
        | switch names ts hts =>
            have hswitch : VariableFits .switch (.switch ts) :=
              variableFits_of_kind (by decide) (by decide) _
            exact hswitch
    case shortInt =>
        intro hshort n hn
        rw [hshort, hn] at hkind
        exact byte_of_fits hkind
    case shortBranch =>
        intro hshort t ht
        have hnext := hbecomes.next_eq ht
        rw [hnext]
        refine hfits.jumps before s after t hprogram ?_
        cases hbecomes with
        | emit op operand =>
            obtain rfl : operand = .target t := ht
            exact .target op t hshort
        | branch op name t' ht' =>
            obtain rfl := Operand.target.inj ht
            exact .label op name t' hshort ht'
        | switch => cases ht

/-- A program with a jump forward, a jump back and variables in short and long forms. -/
def circling : List Statement :=
  [.loadArgument 7, .storeLocal 300, .label "top", .branch .brtrueS "end", .loadLocal 300,
    .branch .brS "top", .label "end", .plain .ret]

theorem circling_encodable :
    ∃ body, assemble circling = .ok body ∧ ∀ i ∈ body.instructions, i.Encodable := by
  have hbody : assemble circling = .ok
      ⟨8, true, [], [⟨0, .ldargS, .arg 7⟩, ⟨2, .stloc, .loc 300⟩, ⟨6, .brtrueS, .target 14⟩,
        ⟨8, .ldloc, .loc 300⟩, ⟨12, .brS, .target 6⟩, ⟨14, .ret, .empty⟩], []⟩ := by rfl
  have hfaults := (Assembler.finishes_of_body hbody).faults
  have hend : LabelAt circling "end" 14 := ⟨circling.take 6, [.plain .ret], rfl, by rfl⟩
  have htop : LabelAt circling "top" 6 := ⟨circling.take 2, circling.drop 3, rfl, by rfl⟩
  have hsplit : circling = [.emit .ldargS (.arg 7), .emit .stloc (.loc 300), .label "top",
      .branch .brtrueS "end", .emit .ldloc (.loc 300), .branch .brS "top", .label "end",
      .emit .ret .empty] := by rfl
  refine ⟨_, hbody, (assemble_encodable_iff hbody).mpr ⟨?_, ?_⟩⟩
  · intro op operand hs
    simp only [circling, List.mem_cons, List.not_mem_nil, or_false, reduceCtorEq, false_or] at hs
    rcases hs with hs | hs | hs | hs
    · exact variableFits_shortest 7 (by simp [← hs])
    · exact variableFits_shortest 300 (by simp [← hs])
    · exact variableFits_shortest 300 (by simp [← hs])
    · obtain ⟨rfl, rfl⟩ := Statement.emit.inj hs
      exact variableFits_of_kind (by decide) (by decide) _
  · intro before s after t hprogram hjump
    cases hjump with
    | target op t hop =>
        have hs : .emit op (.target t) ∈ circling := by simp [hprogram]
        simp [hsplit] at hs
    | label op name t hop ht =>
        rw [hsplit] at hprogram
        simp only [List.cons_eq_append_iff, List.cons.injEq, reduceCtorEq, false_and, and_false,
          Statement.branch.injEq, List.nil_eq, List.append_eq_nil_iff, exists_const, or_self,
          or_false, ↓existsAndEq, true_and, false_or] at hprogram
        obtain ⟨rest, rfl, ⟨rfl, ⟨rfl, rfl⟩, rfl⟩ | ⟨rfl, ⟨rfl, rfl⟩, rfl⟩⟩ := hprogram
        · obtain rfl := Assembler.labelAt_unique hfaults ht hend
          decide
        · obtain rfl := Assembler.labelAt_unique hfaults ht htop
          decide

/-- **Operands that no encoding holds are accepted:** an index beyond a byte behind a short form, an
    argument behind an opcode for locals, and a short jump over a long table. -/
theorem unchecked_accepted :
    (∃ body, assemble [.emit .ldlocS (.loc 300)] = .ok body ∧
      ¬ ∀ i ∈ body.instructions, i.Encodable) ∧
    (∃ body, assemble [.emit .ldloc (.arg 0)] = .ok body ∧
      ¬ ∀ i ∈ body.instructions, i.Encodable) ∧
    (∃ body,
      assemble [.branch .brS "end", .switch (List.replicate 32 "end"), .label "end"] = .ok body ∧
      ¬ ∀ i ∈ body.instructions, i.Encodable) := by
  refine ⟨⟨_, rfl, fun h => ?_⟩, ⟨_, rfl, fun h => ?_⟩, ⟨_, rfl, fun h => ?_⟩⟩
  · have hshort := (h ⟨0, .ldlocS, .loc 300⟩ (by decide)).vars.short rfl 300 (Or.inl rfl)
    exact absurd hshort (by decide)
  · obtain ⟨n, hn⟩ := (h ⟨0, .ldloc, .arg 0⟩ (by decide)).vars.loc rfl
    cases hn
  · have hreach := (h ⟨0, .brS, .target 135⟩ (by decide)).shortBranch rfl 135 rfl
    exact absurd hreach (by decide)

end ReflectionFlow

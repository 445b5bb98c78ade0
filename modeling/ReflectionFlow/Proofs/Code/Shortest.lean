/-
  File:      ReflectionFlow/Proofs/Code/Shortest.lean
  Subject:   The shortest form of a constant or a variable.

  A constant and the index of a variable can be written in several ways: as a part of the opcode, in
  one byte behind it, or in full.  Seven statements choose among them.  What they choose is accepted
  wherever it is written, is read back as the value it was written for, and no instruction of the
  same family that can be encoded and is read back as the same value takes fewer bytes.

  The six families for variables differ only in their opcodes, so there is one argument for them:
  `VariableForms` holds the opcodes of a family with what is decided about them once.

  * `Spells`, `ShortestForm`        what is proved of each statement
  * `shortestForm_emit`           from a single instruction to all programs
  * `Spells.constantSize_le`        lower bound for constants
  * `VariableForms.shortest`      the argument for variables
  * `shortest_forms`
-/
import ReflectionFlow.Proofs.Code.Encoding
import ReflectionFlow.Code.Role

namespace ReflectionFlow

/-! ## 1. Forms of a value -/

section

variable {α : Type}

/-- An instruction of a family that can be encoded and is read as a value. -/
structure Spells (family : Role) (decode : Instruction → Option α) (x : α) (i : Instruction) :
    Prop where
  role : i.opcode.role = family
  encodable : i.Encodable
  decoded : decode i = some x

/-- **A statement that is the shortest form of a value.**  It never is the reason that a program is
    refused; and where it is written, there stands an instruction that spells the value in at most as
    many bytes as any instruction of any assembled body that spells it. -/
structure ShortestForm (family : Role) (decode : Instruction → Option α) (x : α) (s : Statement) :
    Prop where
  accepted : ∀ before after, (∃ body, assemble (before ++ s :: after) = .ok body) ↔
    ∃ body, assemble (before ++ after) = .ok body
  least : ∀ before after body, assemble (before ++ s :: after) = .ok body →
    ∃ i, body.instructions[(emissions before).length]? = some i ∧
      i.offset = (Assembler.run before).position ∧ Spells family decode x i ∧
      ∀ program other j, assemble program = .ok other → j ∈ other.instructions →
        Spells family decode x j → i.size ≤ j.size

end

/-! ## 2. Where a statement stands -/

namespace Assembler

variable {program before after : List Statement} {body : Body}

theorem exists_body_iff : (∃ body, assemble program = .ok body) ↔ Consistent program := by
  constructor
  · intro ⟨body, h⟩
    exact (finishes_of_body h).consistent
  · intro hc
    cases h : assemble program with
    | ok body => exact ⟨body, rfl⟩
    | error fault => exact absurd hc (accuses_of_body h).not_consistent

/-- An operand that fits makes no program inconsistent, and mends none. -/
theorem consistent_insert_iff {op : Opcode} {operand : Operand}
    (hfits : op.operandKind.fits operand = true) :
    Consistent (before ++ .emit op operand :: after) ↔ Consistent (before ++ after) := by
  have hmem : ∀ s, s ∈ before ++ .emit op operand :: after ↔
      s = .emit op operand ∨ s ∈ before ++ after := by
    intro s
    simp only [List.mem_append, List.mem_cons]
    exact or_left_comm
  have hplaced : placedLabels (before ++ .emit op operand :: after) =
      placedLabels (before ++ after) := by
    have hnone : (Statement.emit op operand).places? = none := rfl
    simp [placedLabels, List.filterMap_cons_none hnone]
  constructor
  · intro h
    refine ⟨fun o x hs => h.fits o x ((hmem _).mpr (Or.inr hs)),
      fun o name hs => h.jumps o name ((hmem _).mpr (Or.inr hs)), hplaced ▸ h.once, ?_⟩
    intro s hs name hname
    have hlabel := h.placed s ((hmem s).mpr (Or.inr hs)) name hname
    simpa [hmem] using hlabel
  · intro h
    refine ⟨?_, ?_, hplaced ▸ h.once, ?_⟩
    · intro o x hs
      rcases (hmem _).mp hs with heq | hs
      · obtain ⟨rfl, rfl⟩ := Statement.emit.inj heq
        exact hfits
      · exact h.fits o x hs
    · intro o name hs
      exact h.jumps o name (((hmem _).mp hs).resolve_left (by simp))
    · intro s hs name hname
      rcases (hmem s).mp hs with rfl | hs
      · cases hname
      · exact (hmem _).mpr (Or.inr (h.placed s hs name hname))

/-- **An emitted operand stands where its statement does.** -/
theorem Finishes.getElem?_emit {op : Opcode} {operand : Operand}
    (h : (run (before ++ .emit op operand :: after)).Finishes body) :
    body.instructions[(emissions before).length]? =
      some ⟨(run before).position, op, operand⟩ := by
  have hpending : (run (before ++ .emit op operand :: after)).instructions[
      (emissions before).length]? = some ⟨(run before).position, op, .ready operand⟩ := by
    have hcontinues := continues_run (before ++ [.emit op operand]) after
    rw [List.append_assoc, List.singleton_append] at hcontinues
    obtain ⟨more, hmore⟩ := hcontinues.instructions
    rw [← hmore, run_concat, instructions_step, ← length_instructions_run]
    simp [Statement.emitted?]
  obtain ⟨i, hi, hfinish⟩ := getElem?_of_forall₂ h.instructions.flip hpending
  obtain ⟨hoffset, hop, hoperand⟩ := finishInstruction_inv hfinish
  have hready : operand = i.operand := Except.ok.inj hoperand
  rw [hi, hready]
  exact congrArg some (Instruction.mk.injEq .. ▸ ⟨hoffset, hop, rfl⟩)

end Assembler

open Assembler in
/-- **An instruction that is as short as any is the shortest form wherever it is written.** -/
theorem shortestForm_emit {α : Type} {family : Role} {decode : Instruction → Option α} {x : α}
    {op : Opcode} {operand : Operand}
    (hspells : ∀ offset, Spells family decode x ⟨offset, op, operand⟩)
    (hleast : ∀ offset j, Spells family decode x j →
      (⟨offset, op, operand⟩ : Instruction).size ≤ j.size) :
    ShortestForm family decode x (.emit op operand) := by
  constructor
  case accepted =>
      intro before after
      rw [exists_body_iff, exists_body_iff]
      exact consistent_insert_iff (hspells 0).encodable.kind
  case least =>
      intro before after body hbody
      have hstands := (finishes_of_body hbody).getElem?_emit
      exact ⟨_, hstands, rfl, hspells _, fun _ _ j _ _ hj => hleast _ j hj⟩

/-- An instruction without an operand can be encoded. -/
theorem encodable_plain {op : Opcode} (hop : op.operandKind = .empty) (offset : Nat) :
    (⟨offset, op, .empty⟩ : Instruction).Encodable := by
  refine ⟨by simp [hop, OperandKind.fits], variableFits_of_kind (by simp [hop]) (by simp [hop]) _,
    ?_, ?_⟩
  · intro _ n hn
    cases hn
  · intro _ t ht
    cases ht

/-- No instruction takes less than one byte, so an opcode of one byte that needs no operand is the
    shortest form of what it spells. -/
theorem shortestForm_plain {α : Type} {family : Role} {decode : Instruction → Option α} {x : α}
    {op : Opcode} (hkind : op.operandKind = .empty) (hsize : op.size = 1) (hrole : op.role = family)
    (hdecoded : ∀ offset, decode ⟨offset, op, .empty⟩ = some x) :
    ShortestForm family decode x (.plain op) := by
  refine shortestForm_emit (fun offset => ⟨hrole, encodable_plain hkind offset, hdecoded offset⟩)
    fun offset j _ => ?_
  simp only [Instruction.size, hkind, hsize, OperandKind.size]
  exact j.size_pos

/-! ## 3. Constants -/

/-- What is decided for each opcode of the table holds of every opcode. -/
theorem Opcode.forall_of_all {P : Opcode → Prop} (h : ∀ op ∈ all, P op) (op : Opcode) : P op :=
  h op (mem_all op)

theorem Opcode.role_eq_loadInt_iff : ∀ op : Opcode, op.role = .loadInt ↔
    op ∈ [.ldcI4M1, .ldcI40, .ldcI41, .ldcI42, .ldcI43, .ldcI44, .ldcI45, .ldcI46, .ldcI47, .ldcI48,
      .ldcI4S, .ldcI4] :=
  forall_of_all (by decide +kernel)

/-- The bytes the shortest form of a constant takes. -/
def constantSize (n : Int32) : Nat :=
  if n ∈ [-1, 0, 1, 2, 3, 4, 5, 6, 7, 8] then 1 else if isByteSized n then 2 else 5

theorem constantSize_le (n : Int32) : constantSize n ≤ 5 := by
  unfold constantSize
  split_ifs <;> decide

theorem constantSize_le_of_byte {n : Int32} (h : isByteSized n = true) : constantSize n ≤ 2 := by
  unfold constantSize
  split_ifs <;> decide

/-- **No instruction spells a constant in fewer bytes.** -/
theorem Spells.constantSize_le {n : Int32} {j : Instruction}
    (h : Spells .loadInt Instruction.constant? n j) : constantSize n ≤ j.size := by
  obtain ⟨offset, op, operand⟩ := j
  have hop := op.role_eq_loadInt_iff.mp h.role
  have hdecoded := h.decoded
  have hkind := h.encodable.kind
  have hdirect : ∀ m : Int32, constantSize m = 1 → some m = some n →
      constantSize n ≤ (⟨offset, op, operand⟩ : Instruction).size := by
    intro m hm heq
    rw [← Option.some.inj heq, hm]
    exact Instruction.size_pos _
  simp only [List.mem_cons, List.not_mem_nil, or_false] at hop
  rcases hop with rfl | rfl | rfl | rfl | rfl | rfl | rfl | rfl | rfl | rfl | rfl | rfl
  iterate 10 exact hdirect _ (by decide) hdecoded
  · cases operand with
    | int32 m =>
        obtain rfl := Option.some.inj hdecoded
        exact constantSize_le_of_byte hkind
    | _ => cases hkind
  · cases operand with
    | int32 m =>
        obtain rfl := Option.some.inj hdecoded
        exact ReflectionFlow.constantSize_le m
    | _ => cases hkind

/-- A constant can be encoded in full, and in a byte if it is small. -/
theorem encodable_int32 (op : Opcode) {n : Int32} (hop : op.operandKind.fits (.int32 n) = true)
    (hkind : op.operandKind = .shortInt ∨ op.operandKind = .int32) (offset : Nat) :
    (⟨offset, op, .int32 n⟩ : Instruction).Encodable := by
  refine ⟨hop, variableFits_of_kind ?_ ?_ _, ?_, ?_⟩
  · rcases hkind with hkind | hkind <;> simp [hkind]
  · rcases hkind with hkind | hkind <;> simp [hkind]
  · intro hshort m hm
    obtain rfl := Operand.int32.inj hm
    rw [show op.operandKind = .shortInt from hshort] at hop
    exact byte_of_fits hop
  · intro _ t ht
    cases ht

/-- **A constant is written in its shortest form.** -/
theorem shortest_constant (n : Int32) :
    ShortestForm .loadInt Instruction.constant? n (.constant n) := by
  by_cases hsmall : n ∈ [-1, 0, 1, 2, 3, 4, 5, 6, 7, 8]
  · simp only [List.mem_cons, List.not_mem_nil, or_false] at hsmall
    rcases hsmall with rfl | rfl | rfl | rfl | rfl | rfl | rfl | rfl | rfl | rfl
    all_goals exact shortestForm_plain rfl rfl rfl fun _ => rfl
  have hsize : ∀ {j}, Spells .loadInt Instruction.constant? n j →
      (if isByteSized n then 2 else 5) ≤ j.size := by
    intro j hj
    have hle := hj.constantSize_le
    rwa [constantSize, if_neg hsmall] at hle
  simp only [List.mem_cons, List.not_mem_nil, or_false, not_or] at hsmall
  obtain ⟨h₀, h₁, h₂, h₃, h₄, h₅, h₆, h₇, h₈, h₉⟩ := hsmall
  rw [Statement.constant, if_neg h₀, if_neg h₁, if_neg h₂, if_neg h₃, if_neg h₄, if_neg h₅,
    if_neg h₆, if_neg h₇, if_neg h₈, if_neg h₉]
  by_cases hbyte : isByteSized n = true
  · rw [if_pos hbyte]
    simp only [hbyte, if_true] at hsize
    exact shortestForm_emit (fun offset => ⟨rfl,
      encodable_int32 .ldcI4S hbyte (Or.inl rfl) offset, rfl⟩) fun _ _ hj => hsize hj
  · rw [if_neg hbyte]
    simp only [hbyte, Bool.false_eq_true, if_false] at hsize
    exact shortestForm_emit (fun offset => ⟨rfl,
      encodable_int32 .ldcI4 rfl (Or.inr rfl) offset, rfl⟩) fun _ _ hj => hsize hj

/-! ## 4. Variables -/

/-- The operand that names a local variable or an argument. -/
def Operand.ofIndex (ofLocal : Bool) (n : UInt16) : Operand := if ofLocal then .loc n else .arg n

/-- The local variable or the argument an operand names. -/
def Operand.index? (ofLocal : Bool) : Operand → Option UInt16
  | .loc n => if ofLocal then some n else none
  | .arg n => if ofLocal then none else some n
  | _ => none

/-- The local variable or the argument an instruction is about. -/
def Instruction.index? (ofLocal : Bool) (i : Instruction) : Option UInt16 :=
  if ofLocal then i.localIndex? else i.argumentIndex?

/-- **The forms of a family of instructions for variables:** opcodes of their own for the first few,
    one opcode with a byte behind it, and one with the full index. -/
structure VariableForms where
  family : Role
  ofLocal : Bool
  direct : List Opcode
  short : Opcode
  long : Opcode
  members : ∀ op : Opcode, op.role = family ↔ op ∈ direct ∨ op = short ∨ op = long := by
    exact Opcode.forall_of_all (by decide +kernel)
  direct_kind : ∀ op ∈ direct, op.operandKind = .empty ∧ op.size = 1 := by decide
  direct_index : ∀ k op, direct[k]? = some op →
    k < 256 ∧ ∀ offset operand, Instruction.index? ofLocal ⟨offset, op, operand⟩ = some (.ofNat k)
  short_kind : short.operandKind = .shortVar ∧ short.size = 1 := by decide
  long_kind : long.operandKind = .var ∧ long.size = 2 := by decide
  sort : ∀ op, op = short ∨ op = long → op.takesLocal = ofLocal ∧ op.takesArgument = !ofLocal := by
    rintro op (rfl | rfl) <;> decide

theorem Opcode.takesLocal_iff : ∀ op : Opcode, op.takesLocal = true ↔
    op ∈ [.ldloc, .ldloca, .stloc, .ldlocS, .ldlocaS, .stlocS] :=
  forall_of_all (by decide +kernel)

theorem Opcode.takesArgument_iff : ∀ op : Opcode, op.takesArgument = true ↔
    op ∈ [.ldarg, .ldarga, .starg, .ldargS, .ldargaS, .stargS] :=
  forall_of_all (by decide +kernel)

/-- An operand behind an opcode is read as the variable it names. -/
theorem index?_eq_some_iff {op : Opcode} {ofLocal : Bool}
    (hop : op.takesLocal = ofLocal ∧ op.takesArgument = !ofLocal) {offset : Nat} {operand : Operand}
    {n : UInt16} : Instruction.index? ofLocal ⟨offset, op, operand⟩ = some n ↔
      operand = .ofIndex ofLocal n := by
  have hread : Instruction.index? ofLocal ⟨offset, op, operand⟩ = operand.index? ofLocal := by
    cases ofLocal with
    | true =>
        have hmem := op.takesLocal_iff.mp hop.1
        simp only [List.mem_cons, List.not_mem_nil, or_false] at hmem
        rcases hmem with rfl | rfl | rfl | rfl | rfl | rfl <;> cases operand <;> rfl
    | false =>
        have hmem := op.takesArgument_iff.mp hop.2
        simp only [List.mem_cons, List.not_mem_nil, or_false] at hmem
        rcases hmem with rfl | rfl | rfl | rfl | rfl | rfl <;> cases operand <;> rfl
  rw [hread]
  cases ofLocal <;> cases operand <;> simp [Operand.index?, Operand.ofIndex]

namespace VariableForms

variable (f : VariableForms)

/-- The form a statement for the variable takes. -/
def form (n : UInt16) : Statement :=
  match f.direct[n.toNat]? with
  | some op => .plain op
  | none =>
    if n ≤ 0xFF then .emit f.short (.ofIndex f.ofLocal n) else .emit f.long (.ofIndex f.ofLocal n)

/-- An operand of the right sort and range can be encoded. -/
theorem encodable {op : Opcode} (hop : op = f.short ∨ op = f.long) {n : UInt16}
    (hindex : op.operandKind ≠ .shortVar ∨ n ≤ 0xFF) (offset : Nat) :
    (⟨offset, op, .ofIndex f.ofLocal n⟩ : Instruction).Encodable := by
  have hkind : op.operandKind = .shortVar ∨ op.operandKind = .var := by
    rcases hop with rfl | rfl
    · exact Or.inl f.short_kind.1
    · exact Or.inr f.long_kind.1
  obtain ⟨hlocal, hargument⟩ := f.sort op hop
  generalize f.ofLocal = ofLocal at *
  have hshort : op.operandKind ≠ .shortInt ∧ op.operandKind ≠ .shortBranch := by
    rcases hkind with hkind | hkind <;> simp [hkind]
  refine ⟨?_, ?_, fun h => absurd h hshort.1, fun h => absurd h hshort.2⟩
  · rcases hkind with hkind | hkind <;> cases ofLocal <;> simp only [hkind] <;> rfl
  · cases ofLocal with
    | true => exact variableFits_loc hargument hindex
    | false => exact variableFits_arg hlocal hindex

/-- An operand of the right sort and range spells its variable. -/
theorem spells {op : Opcode} (hop : op = f.short ∨ op = f.long) {n : UInt16}
    (hindex : op.operandKind ≠ .shortVar ∨ n ≤ 0xFF) (offset : Nat) :
    Spells f.family (Instruction.index? f.ofLocal) n ⟨offset, op, .ofIndex f.ofLocal n⟩ :=
  ⟨(f.members op).mpr (Or.inr hop), f.encodable hop hindex offset,
    (index?_eq_some_iff (f.sort op hop)).mpr rfl⟩

section

variable {f} {n : UInt16} {j : Instruction}
  (h : Spells f.family (Instruction.index? f.ofLocal) n j)

include h

theorem operand_of_spells (hop : j.opcode = f.short ∨ j.opcode = f.long) :
    j.operand = .ofIndex f.ofLocal n :=
  (index?_eq_some_iff (f.sort j.opcode hop)).mp h.decoded

/-- Behind the short opcode stands a byte. -/
theorem byte_of_spells (hop : j.opcode = f.short) : n ≤ 0xFF := by
  have hvariable : j.operand = .loc n ∨ j.operand = .arg n := by
    have hoperand := operand_of_spells h (Or.inl hop)
    generalize f.ofLocal = ofLocal at hoperand
    cases ofLocal with
    | true => exact Or.inl hoperand
    | false => exact Or.inr hoperand
  have hbyte := h.encodable.vars.short (hop ▸ f.short_kind.1) n hvariable
  exact UInt16.le_iff_toNat_le.mpr (Nat.le_of_lt_succ hbyte)

/-- The short opcode takes two bytes with its operand, the long one four. -/
theorem size_of_spells (hop : j.opcode = f.short ∨ j.opcode = f.long) :
    j.size = if j.opcode = f.short then 2 else 4 := by
  have hsize : j.size = j.opcode.size + j.opcode.operandKind.size := by
    rw [Instruction.size, operand_of_spells h hop]
    cases f.ofLocal <;> rfl
  have hne : f.long ≠ f.short := by
    intro heq
    have hkind := f.short_kind.1
    rw [← heq, f.long_kind.1] at hkind
    cases hkind
  rcases hop with hop | hop
  · rw [hsize, hop, if_pos rfl, f.short_kind.1, f.short_kind.2]
    rfl
  · rw [hsize, hop, if_neg hne, f.long_kind.1, f.long_kind.2]
    rfl

/-- An opcode without an operand spells the variable it stands for in the list. -/
theorem getElem?_of_spells (hop : j.opcode ∈ f.direct) : f.direct[n.toNat]? = some j.opcode := by
  obtain ⟨k, hk⟩ := List.getElem?_of_mem hop
  obtain ⟨hbound, hindex⟩ := f.direct_index k j.opcode hk
  have hn : UInt16.ofNat k = n := Option.some.inj ((hindex _ _).symm.trans h.decoded)
  rw [← hn, UInt16.toNat_ofNat_of_lt' (Nat.lt_trans hbound (by decide))]
  exact hk

end

/-- **The form that is chosen for a variable is the shortest.** -/
theorem shortest (n : UInt16) :
    ShortestForm f.family (Instruction.index? f.ofLocal) n (f.form n) := by
  unfold form
  split
  next op hop =>
    have hmem := List.mem_of_getElem? hop
    obtain ⟨hkind, hsize⟩ := f.direct_kind op hmem
    refine shortestForm_plain hkind hsize ((f.members op).mpr (Or.inl hmem)) fun offset => ?_
    have hindex := (f.direct_index _ op hop).2 offset .empty
    rwa [UInt16.ofNat_toNat] at hindex
  next hnone =>
    have hoperand : ∀ {j}, Spells f.family (Instruction.index? f.ofLocal) n j →
        j.opcode = f.short ∨ j.opcode = f.long := by
      intro j hj
      refine ((f.members j.opcode).mp hj.role).resolve_left fun hdirect => ?_
      rw [getElem?_of_spells hj hdirect] at hnone
      cases hnone
    by_cases hbyte : n ≤ 0xFF
    · rw [if_pos hbyte]
      have hform := f.spells (Or.inl rfl) (Or.inr hbyte)
      refine shortestForm_emit hform fun offset j hj => ?_
      rw [size_of_spells (hform offset) (Or.inl rfl), size_of_spells hj (hoperand hj), if_pos rfl]
      split_ifs <;> decide
    · rw [if_neg hbyte]
      have hform := f.spells (n := n) (Or.inr rfl) (Or.inl (by simp [f.long_kind.1]))
      refine shortestForm_emit hform fun offset j hj => ?_
      -- the short opcode has no room for the index
      have hshort : j.opcode ≠ f.short := fun hop => hbyte (byte_of_spells hj hop)
      rw [size_of_spells (hform offset) (Or.inr rfl), size_of_spells hj (hoperand hj),
        if_neg hshort]
      split_ifs <;> decide

end VariableForms

/-! ## 5. The seven statements -/

/-- Four opcodes are read as the first four variables if each is read as its own. -/
theorem index?_of_four {ofLocal : Bool} {a b c d : Opcode}
    (h : ∀ offset operand, Instruction.index? ofLocal ⟨offset, a, operand⟩ = some 0 ∧
      Instruction.index? ofLocal ⟨offset, b, operand⟩ = some 1 ∧
      Instruction.index? ofLocal ⟨offset, c, operand⟩ = some 2 ∧
      Instruction.index? ofLocal ⟨offset, d, operand⟩ = some 3) (k : Nat) (op : Opcode)
    (hop : [a, b, c, d][k]? = some op) : k < 256 ∧ ∀ offset operand,
      Instruction.index? ofLocal ⟨offset, op, operand⟩ = some (.ofNat k) := by
  match k, hop with
  | 0, hop | 1, hop | 2, hop | 3, hop =>
    obtain rfl := Option.some.inj hop
    refine ⟨by decide, fun offset operand => ?_⟩
    obtain ⟨h₀, h₁, h₂, h₃⟩ := h offset operand
    assumption

/-- Opcodes that push an argument. -/
def argumentLoads : VariableForms where
  family := .loadArgument
  ofLocal := false
  direct := [.ldarg0, .ldarg1, .ldarg2, .ldarg3]
  short := .ldargS
  long := .ldarg
  direct_index := index?_of_four fun _ _ => ⟨rfl, rfl, rfl, rfl⟩

/-- Opcodes that store into an argument. -/
def argumentStores : VariableForms where
  family := .storeArgument
  ofLocal := false
  direct := []
  short := .stargS
  long := .starg
  direct_index := by simp

/-- Opcodes that push the address of an argument. -/
def argumentAddresses : VariableForms where
  family := .argumentAddress
  ofLocal := false
  direct := []
  short := .ldargaS
  long := .ldarga
  direct_index := by simp

/-- Opcodes that push a local variable. -/
def localLoads : VariableForms where
  family := .loadLocal
  ofLocal := true
  direct := [.ldloc0, .ldloc1, .ldloc2, .ldloc3]
  short := .ldlocS
  long := .ldloc
  direct_index := index?_of_four fun _ _ => ⟨rfl, rfl, rfl, rfl⟩

/-- Opcodes that store into a local variable. -/
def localStores : VariableForms where
  family := .storeLocal
  ofLocal := true
  direct := [.stloc0, .stloc1, .stloc2, .stloc3]
  short := .stlocS
  long := .stloc
  direct_index := index?_of_four fun _ _ => ⟨rfl, rfl, rfl, rfl⟩

/-- Opcodes that push the address of a local variable. -/
def localAddresses : VariableForms where
  family := .localAddress
  ofLocal := true
  direct := []
  short := .ldlocaS
  long := .ldloca
  direct_index := by simp

theorem form_of_four {f : VariableForms} {a b c d : Opcode} (h : f.direct = [a, b, c, d])
    (n : UInt16) : f.form n =
      if n = 0 then .plain a else if n = 1 then .plain b else if n = 2 then .plain c
      else if n = 3 then .plain d
      else if n ≤ 0xFF then .emit f.short (.ofIndex f.ofLocal n)
      else .emit f.long (.ofIndex f.ofLocal n) := by
  unfold VariableForms.form
  rw [h]
  by_cases h₀ : n = 0
  · rw [h₀]
    rfl
  by_cases h₁ : n = 1
  · rw [h₁]
    rfl
  by_cases h₂ : n = 2
  · rw [h₂]
    rfl
  by_cases h₃ : n = 3
  · rw [h₃]
    rfl
  have hlarge : [a, b, c, d].length ≤ n.toNat := by
    have hindex : n.toNat ≠ 0 ∧ n.toNat ≠ 1 ∧ n.toNat ≠ 2 ∧ n.toNat ≠ 3 :=
      ⟨UInt16.toNat_inj.not.mpr h₀, UInt16.toNat_inj.not.mpr h₁, UInt16.toNat_inj.not.mpr h₂,
        UInt16.toNat_inj.not.mpr h₃⟩
    simp only [List.length_cons, List.length_nil]
    omega
  rw [List.getElem?_eq_none hlarge, if_neg h₀, if_neg h₁, if_neg h₂, if_neg h₃]

theorem form_of_none {f : VariableForms} (h : f.direct = []) (n : UInt16) : f.form n =
    if n ≤ 0xFF then .emit f.short (.ofIndex f.ofLocal n)
    else .emit f.long (.ofIndex f.ofLocal n) := by
  unfold VariableForms.form
  rw [h, List.getElem?_nil]

/-- **Constants and variables are written in their shortest form, and read back.** -/
theorem shortest_forms :
    (∀ v : Int32, ShortestForm .loadInt Instruction.constant? v (.constant v)) ∧
    ∀ n : UInt16,
      ShortestForm .loadArgument Instruction.argumentIndex? n (.loadArgument n) ∧
      ShortestForm .storeArgument Instruction.argumentIndex? n (.storeArgument n) ∧
      ShortestForm .argumentAddress Instruction.argumentIndex? n (.argumentAddress n) ∧
      ShortestForm .loadLocal Instruction.localIndex? n (.loadLocal n) ∧
      ShortestForm .storeLocal Instruction.localIndex? n (.storeLocal n) ∧
      ShortestForm .localAddress Instruction.localIndex? n (.localAddress n) := by
  refine ⟨shortest_constant, fun n => ⟨?_, ?_, ?_, ?_, ?_, ?_⟩⟩
  · have hform : Statement.loadArgument n = argumentLoads.form n :=
      (form_of_four (f := argumentLoads) rfl n).symm
    rw [hform]
    exact argumentLoads.shortest n
  · have hform : Statement.storeArgument n = argumentStores.form n :=
      (form_of_none (f := argumentStores) rfl n).symm
    rw [hform]
    exact argumentStores.shortest n
  · have hform : Statement.argumentAddress n = argumentAddresses.form n :=
      (form_of_none (f := argumentAddresses) rfl n).symm
    rw [hform]
    exact argumentAddresses.shortest n
  · have hform : Statement.loadLocal n = localLoads.form n :=
      (form_of_four (f := localLoads) rfl n).symm
    rw [hform]
    exact localLoads.shortest n
  · have hform : Statement.storeLocal n = localStores.form n :=
      (form_of_four (f := localStores) rfl n).symm
    rw [hform]
    exact localStores.shortest n
  · have hform : Statement.localAddress n = localAddresses.form n :=
      (form_of_none (f := localAddresses) rfl n).symm
    rw [hform]
    exact localAddresses.shortest n

end ReflectionFlow

/-
  File:      ReflectionFlow/Proofs/Flow/Landings.lean
  Subject:   Jumps that are written with labels lead to the instructions behind the labels.

  The assembler turns labels into offsets and the graph turns offsets into blocks.  Between the two
  stand the instructions, which both count in the same order: a label with `n` instructions before
  it is the offset of instruction `n`, and the block that is found by this offset starts with
  instruction `n`.  So neither side needs to know the other's offsets.

  * `Labelled`                       programs that jump by labels, each with an instruction after it
  * `Labelled.lands`                 control is only sent to instructions
  * `LeadsToLabels`, `assemble_leadsToLabels`
-/
import ReflectionFlow.Proofs.Code.Labels
import ReflectionFlow.Proofs.Flow.Targets

namespace ReflectionFlow

/-! ## 1. Jumps and their labels -/

/-- The label an edge belongs to; a jump table has a label for each of its edges. -/
def PendingOperand.labelOn? : PendingOperand → EdgeKind → Option String
  | .label name, .branch | .label name, .conditionalTrue => some name
  | .labels names, .switchCase k => names[k]?
  | _, _ => none

/-- **Jumps are written with labels, and every label that receives control has an instruction
    after it.** -/
structure Labelled (program : List Statement) : Prop where
  targets : ∀ op t, Statement.emit op (.target t) ∉ program
  tables : ∀ op ts, Statement.emit op (.switch ts) ∉ program
  placed : ∀ s ∈ program, ∀ name ∈ s.entryLabels,
    ∃ n, PlacedAt program name n ∧ n < (emissions program).length

theorem Flow.endsBlock_of_jumps {f : Flow} (h : f.jumps = true) : f.endsBlock = true := by
  cases f <;> first | rfl | cases h

theorem Opcode.flow_of_isBranch {op : Opcode} (h : op.isBranch = true) :
    op.flow.jumps = true ∧ op.flow ≠ .switch := by
  revert h
  cases op <;> decide

/-- What is emitted, and by which statement. -/
inductive Emission (program : List Statement) : Opcode → PendingOperand → Prop where
  | ready (op : Opcode) (operand : Operand) (hs : .emit op operand ∈ program) :
      Emission program op (.ready operand)
  | label (op : Opcode) (name : String) (hop : op.isBranch = true) (hs : .branch op name ∈ program) :
      Emission program op (.label name)
  | labels (names : List String) (hs : .switch names ∈ program) :
      Emission program .switch (.labels names)

theorem emission_of_mem {program : List Statement} (hf : (Assembler.run program).faults = [])
    {op : Opcode} {operand : PendingOperand} (h : (op, operand) ∈ emissions program) :
    Emission program op operand := by
  obtain ⟨s, hs, he⟩ := List.mem_filterMap.mp h
  cases s with
  | emit op operand =>
      obtain ⟨rfl, rfl⟩ := Prod.mk.inj (Option.some.inj he)
      exact .ready op operand hs
  | branch op name =>
      obtain ⟨rfl, rfl⟩ := Prod.mk.inj (Option.some.inj he)
      exact .label op name (Assembler.isBranch_of_mem hf hs) hs
  | switch names =>
      obtain ⟨rfl, rfl⟩ := Prod.mk.inj (Option.some.inj he)
      exact .labels names hs
  | _ => cases he

namespace Emission

variable {program : List Statement} {op : Opcode} {operand : PendingOperand}

theorem emit_mem {operand : Operand} (h : Emission program op (.ready operand)) :
    .emit op operand ∈ program := by
  cases h with
  | ready _ _ hs => exact hs

theorem entryLabels_of_names (h : Emission program op operand) {name : String}
    (hname : name ∈ operand.names) : ∃ s ∈ program, name ∈ s.entryLabels := by
  cases h with
  | ready => cases hname
  | label _ _ _ hs => exact ⟨_, hs, hname⟩
  | labels _ hs => exact ⟨_, hs, hname⟩

theorem jumps_of_names (h : Emission program op operand) {name : String}
    (hname : name ∈ operand.names) : op.flow.jumps = true := by
  cases h with
  | ready => cases hname
  | label _ _ hop _ => exact (Opcode.flow_of_isBranch hop).1
  | labels => decide

/-- A branch has one label, whatever its kind. -/
theorem labelOn?_branch (h : Emission program op operand) (hflow : op.flow ≠ .switch) {name : String}
    (hname : name ∈ operand.names) {kind : EdgeKind} (hkind : kind = .branch ∨ kind = .conditionalTrue) :
    operand.labelOn? kind = some name := by
  cases h with
  | ready => cases hname
  | label op label _ _ =>
      obtain rfl := List.mem_singleton.mp hname
      rcases hkind with rfl | rfl <;> rfl
  | labels => exact absurd (by decide) hflow

/-- The edges of a jump table count its labels. -/
theorem labelOn?_switchCase (h : Emission program op operand) (hflow : op.flow = .switch) {k : Nat}
    {name : String} (hname : operand.names[k]? = some name) :
    operand.labelOn? (.switchCase k) = some name := by
  cases h with
  | ready => cases hname
  | label _ _ hop _ => exact absurd hflow (Opcode.flow_of_isBranch hop).2
  | labels => exact hname

end Emission

/-! ## 2. Labels land -/

namespace Labelled

variable {program : List Statement} {body : Body}

/-- **A label that receives control is the offset of the instruction after it.** -/
theorem landing (hp : Labelled program) (hb : (Assembler.run program).Finishes body)
    {s : Statement} (hs : s ∈ program) {name : String} (hname : name ∈ s.entryLabels) {t : Nat}
    (ht : (Assembler.run program).resolve name = .ok t) :
    ∃ n x, PlacedAt program name n ∧ body.instructions[n]? = some x ∧ x.offset = t := by
  obtain ⟨n, hplaced, hn⟩ := hp.placed s hs name hname
  rw [← hb.length_eq] at hn
  have hx : body.instructions[n]? = some _ := List.getElem?_eq_getElem hn
  have hresolve := hb.resolve_eq hplaced hx
  exact ⟨n, _, hplaced, hx, Except.ok.inj (hresolve.symm.trans ht)⟩

/-- The targets of an instruction are the labels it was written with. -/
theorem names_targets (hp : Labelled program) (hb : (Assembler.run program).Finishes body) {i : Nat}
    {x : Instruction} (hx : body.instructions[i]? = some x) :
    ∃ operand, (emissions program)[i]? = some (x.opcode, operand) ∧
      Emission program x.opcode operand ∧
      List.Forall₂ (fun name t => (Assembler.run program).resolve name = .ok t)
        operand.names x.targets := by
  obtain ⟨operand, hi, hfinish⟩ := hb.emission hx
  have hemission := emission_of_mem hb.faults (List.mem_of_getElem? hi)
  refine ⟨operand, hi, hemission, Assembler.targets_of_finishOperand hfinish ?_ ?_⟩
  · rintro t rfl
    exact hp.targets _ t hemission.emit_mem
  · rintro ts rfl
    exact hp.tables _ ts hemission.emit_mem

/-- **A program that jumps by labels only sends control to instructions.** -/
theorem lands (hp : Labelled program) (hb : (Assembler.run program).Finishes body) : body.Lands := by
  constructor
  case targets =>
      intro x hx t ht
      obtain ⟨i, hi⟩ := List.getElem?_of_mem hx
      obtain ⟨operand, _, hemission, htargets⟩ := hp.names_targets hb hi
      obtain ⟨name, hname, hresolve⟩ := Assembler.mem_of_forall₂ htargets ht
      obtain ⟨s, hs, hlabel⟩ := hemission.entryLabels_of_names hname
      obtain ⟨n, y, _, hy, hoffset⟩ := hp.landing hb hs hlabel hresolve
      exact ⟨y, List.mem_of_getElem? hy, hoffset⟩
  case clauses =>
      intro d hd e he
      obtain ⟨c, hc, hfinish⟩ := Assembler.mem_of_forall₂ hb.clauses hd
      obtain ⟨name, hname, hresolve⟩ :=
        Assembler.mem_of_forall₂ (Assembler.entryPoints_of_finishClause hfinish) he
      obtain ⟨n, y, _, hy, hoffset⟩ :=
        hp.landing hb (Assembler.mem_of_mem_clauses hc) hname hresolve
      exact ⟨y, List.mem_of_getElem? hy, hoffset⟩

end Labelled

/-! ## 3. Edges -/

theorem FlowGraph.exits_jump {last : Instruction} {next exit n : Nat} {kind : EdgeKind}
    {target : Nat → Except FlowFault Nat} {exits : List (Nat × EdgeKind)}
    (h : last.exits next exit target = .ok exits) (hn : (n, kind) ∈ exits)
    (hjump : kind.isJump = true) : ∃ t, target t = .ok n ∧ Follows last kind t := by
  rcases exits_kinds h hn with ⟨_, _, hkind⟩ | ⟨_, hfollows⟩ | ⟨_, _, hkind⟩
  · rw [hkind] at hjump
    cases hjump
  · exact hfollows
  · rw [hkind] at hjump
    cases hjump

/-- **Edges lead to labels.** -/
structure LeadsToLabels (program : List Statement) (body : Body) (g : FlowGraph) : Prop where
  /-- The instructions are what the program emits, in order. -/
  emitted : body.instructions.map Instruction.opcode = (emissions program).map Prod.fst
  /-- An edge that follows the operand at the end of a block leads to the block that starts with the
      first instruction after its label. -/
  edges : ∀ e ∈ g.graph.edges, e.data.isJump = true → ∃ c d op operand name,
    g.block? e.source = some (.code c) ∧ (emissions program)[c.stop - 1]? = some (op, operand) ∧
    operand.labelOn? e.data = some name ∧ g.block? e.target = some (.code d) ∧
    PlacedAt program name d.first
  /-- No label of an operand is without such an edge. -/
  labels : ∀ i op operand, (emissions program)[i]? = some (op, operand) → ∀ name ∈ operand.names,
    ∃ u v c d, g.block? u = some (.code c) ∧ c.stop = i + 1 ∧ v ∈ g.graph.successors u ∧
      g.block? v = some (.code d) ∧ PlacedAt program name d.first

namespace Labelled

variable {program : List Statement} {body : Body} {g : FlowGraph}

/-- Where an operand leads, a block starts with the instruction after its label. -/
theorem block_of_target (hp : Labelled program) (hb : (Assembler.run program).Finishes body)
    (hinc : body.Increasing) (hd : FlowGraph.Drawn body g) {s : Statement} (hs : s ∈ program)
    {name : String} (hname : name ∈ s.entryLabels) {t n : Nat} {last : Instruction}
    (ht : (Assembler.run program).resolve name = .ok t)
    (hn : FlowGraph.targetNumber body last t = .ok n) :
    ∃ d, g.block? n = some (.code d) ∧ PlacedAt program name d.first := by
  obtain ⟨m, x, hplaced, hx, rfl⟩ := hp.landing hb hs hname ht
  unfold FlowGraph.targetNumber at hn
  split at hn
  · next v hstart =>
    obtain rfl := Except.ok.inj hn
    obtain ⟨k, d, rfl, hk, rfl⟩ := hinc.block_of_starts hx hstart
    exact ⟨d, hd.block?_succ hk, hplaced⟩
  · cases hn

theorem leadsToLabels (hp : Labelled program) (hb : (Assembler.run program).Finishes body)
    (hinc : body.Increasing) (hg : FlowGraph.ofBody body = .ok g) : LeadsToLabels program body g := by
  obtain ⟨_, _, hd⟩ := FlowGraph.ofBody_inv hg
  constructor
  case emitted => exact hb.opcodes_eq
  case edges =>
      intro e he hjump
      rcases (FlowGraph.ofBody_justifiedAs hg).1 e he with
        rfl | ⟨k, c, last, exits, hk, hs, hl, hexits, hmem⟩
      · cases hjump
      have hblock : g.block? e.source = some (.code c) := hs ▸ hd.block?_succ hk
      obtain ⟨operand, hi, hemission, htargets⟩ := hp.names_targets hb hl
      obtain ⟨t, htarget, hfollows⟩ := FlowGraph.exits_jump hexits hmem hjump
      -- the label of the edge, found as the target was found
      obtain ⟨name, hname, hresolve, hlabel⟩ : ∃ name ∈ operand.names,
          (Assembler.run program).resolve name = .ok t ∧ operand.labelOn? e.data = some name := by
        rcases hfollows with ⟨hkind, hflow, ht⟩ | ⟨k, hkind, hflow, ht⟩
        · obtain ⟨name, hname, hresolve⟩ := Assembler.mem_of_forall₂ htargets ht
          exact ⟨name, hname, hresolve, hemission.labelOn?_branch hflow hname hkind⟩
        · obtain ⟨name, hname, hresolve⟩ := Assembler.getElem?_of_forall₂ htargets ht
          rw [hkind]
          exact ⟨name, List.mem_of_getElem? hname, hresolve,
            hemission.labelOn?_switchCase hflow hname⟩
      obtain ⟨s, hs, hentry⟩ := hemission.entryLabels_of_names hname
      obtain ⟨d, hdblock, hplaced⟩ := hp.block_of_target hb hinc hd hs hentry hresolve htarget
      exact ⟨c, d, last.opcode, operand, name, hblock, hi, hlabel, hdblock, hplaced⟩
  case labels =>
      intro i op operand hi name hname
      have hlt : i < body.instructions.length := by
        rw [hb.length_eq]
        exact (List.getElem?_eq_some_iff.mp hi).1
      obtain ⟨x, hx⟩ : ∃ x, body.instructions[i]? = some x := ⟨_, List.getElem?_eq_getElem hlt⟩
      obtain ⟨operand', hi', hemission, htargets⟩ := hp.names_targets hb hx
      obtain ⟨rfl, rfl⟩ := Prod.mk.inj (Option.some.inj (hi'.symm.trans hi))
      obtain ⟨t, ht, hresolve⟩ := Assembler.mem_of_forall₂ htargets.flip hname
      obtain ⟨s, hs, hentry⟩ := hemission.entryLabels_of_names hname
      obtain ⟨n, y, hplaced, hy, rfl⟩ := hp.landing hb hs hentry hresolve
      -- a jump is the last instruction of its block
      have hjumps := hemission.jumps_of_names hname
      obtain ⟨k, c, hc, hfirst, hinside⟩ := Body.exists_block_of_index hlt
      have hstop : c.stop = i + 1 := by
        refine Nat.le_antisymm (Nat.le_of_not_lt fun hinner => ?_) hinside
        have hends := Body.inner_sequential hc hfirst hinner hx
        rw [Flow.endsBlock_of_jumps hjumps] at hends
        cases hends
      have hlast : body.instructions[c.stop - 1]? = some x := by
        rw [hstop]
        exact hx
      obtain ⟨j, d, hj, rfl, hmem⟩ := hd.edge_of_jumps hinc hc hlast hjumps hy ht
      exact ⟨k + 1, j + 1, c, d, hd.block?_succ hc, hstop, hmem, hd.block?_succ hj, hplaced⟩

end Labelled

/-- **Labels land on instructions**: an assembled program that jumps by labels has a graph, and its
    jumps lead to the blocks that start with the first instructions after their labels. -/
theorem assemble_leadsToLabels {program : List Statement} {body : Body} (hp : Labelled program)
    (h : assemble program = .ok body) (hsize : totalSize body.instructions < UInt32.size)
    (hne : body.instructions ≠ []) :
    ∃ g, FlowGraph.ofBody body = .ok g ∧ LeadsToLabels program body g := by
  have hb := Assembler.finishes_of_body h
  have hinc := hb.increasing hsize
  have hbad := (Body.badJump?_eq_none_iff hinc).mpr (hp.lands hb)
  obtain ⟨g, hg⟩ := FlowGraph.ofBody_ok hne hbad
  exact ⟨g, hg, hp.leadsToLabels hb hinc hg⟩

/-- A loop with two labels at its head, a jump table that leads back and forth, and a filter whose
    handler follows it. -/
def looped : List Statement :=
  [.label "top", .label "loop", .plain .ldarg0, .switch ["loop", "done", "top"], .plain .ldarg0,
    .branch .brfalse "loop", .branch .leaveS "done",
    .label "filter", .plain .pop, .plain .ldcI41, .plain .endfilter,
    .label "handler", .plain .pop, .branch .leave "done",
    .label "behind", .clause ⟨1, "top", "filter", "handler", "behind", none, some "filter"⟩,
    .label "done", .plain .ret]

def loopedBody : Body where
  maxStack := 8
  initLocals := true
  locals := []
  instructions := [⟨0, .ldarg0, .empty⟩, ⟨1, .switch, .switch [0, 36, 0]⟩, ⟨18, .ldarg0, .empty⟩,
    ⟨19, .brfalse, .target 0⟩, ⟨24, .leaveS, .target 36⟩, ⟨26, .pop, .empty⟩, ⟨27, .ldcI41, .empty⟩,
    ⟨28, .endfilter, .empty⟩, ⟨30, .pop, .empty⟩, ⟨31, .leave, .target 36⟩, ⟨36, .ret, .empty⟩]
  clauses := [⟨1, 0, 26, 30, 6, none, some 26⟩]

theorem looped_leadsToLabels : Labelled looped ∧ assemble looped = .ok loopedBody ∧
    ∃ g, FlowGraph.ofBody loopedBody = .ok g ∧ LeadsToLabels looped loopedBody g := by
  have hlabels : ∀ s ∈ looped, ∀ name ∈ s.entryLabels,
      ∃ i < 17, looped[i]? = some (.label name) := by decide
  have hcounts : ∀ i < 17, (emissions (looped.take i)).length < (emissions looped).length := by decide
  have hp : Labelled looped := by
    refine ⟨fun op t h => ?_, fun op ts h => ?_, fun s hs name hname => ?_⟩
    · simp [looped, Statement.plain] at h
    · simp [looped, Statement.plain] at h
    · obtain ⟨i, hi, hlabel⟩ := hlabels s hs name hname
      exact ⟨_, placedAt_of_getElem? hlabel, hcounts i hi⟩
  have hbody : assemble looped = .ok loopedBody := by rfl
  exact ⟨hp, hbody, assemble_leadsToLabels hp hbody (by decide) (by decide)⟩

end ReflectionFlow

/-
  File:      ReflectionFlow/Proofs/Flow/Representation.lean
  Subject:   The control flow graph of a body is the flow of its instructions, no more and no less.

  Control passes from an instruction to the next one, to its explicit targets, or out of the
  method; which of them is possible is a matter of the flow of its opcode.  The graph says the same
  of blocks: its edges are the ways from the last instruction of one block to the first of another.

  * `Body.Passes`                where control can go after an instruction
  * `FlowGraph.exits_kinds`      the exits of a block and their kinds
  * `FlowGraph.Justified`        an edge that some block asks for
  * `FlowGraph.ofBody_edges`     a graph has no other edges
  * `FlowGraph.ofBody_error`     without a graph there are no instructions, or a jump leads nowhere
  * `Body.Increasing.starts_eq`, `FlowGraph.blockOf?_eq`    the block of an offset
  * `FlowGraph.Represents`, `ofBody_represents`
-/
import ReflectionFlow.Proofs.Flow.Blocks

namespace ReflectionFlow

/-! ## 1. The flow of instructions -/

/-- Does control leave the method? -/
def Flow.leaves : Flow → Bool
  | .ret | .throw => true
  | _ => false

/-- **Where control can go after the instruction at an index**: to the instruction at another
    index, or out of the method. -/
inductive Body.Passes (b : Body) (i : Nat) : Option Nat → Prop where
  | next (x : Instruction) (hx : b.instructions[i]? = some x) (hf : x.opcode.flow.falls = true)
      (hlt : i + 1 < b.instructions.length) : Passes b i (some (i + 1))
  /-- The code ends without an instruction that ends it. -/
  | runOff (x : Instruction) (hx : b.instructions[i]? = some x) (hf : x.opcode.flow.falls = true)
      (hend : b.instructions.length = i + 1) : Passes b i none
  | jump (x y : Instruction) (j : Nat) (hx : b.instructions[i]? = some x)
      (hj : x.opcode.flow.jumps = true) (hy : b.instructions[j]? = some y)
      (ht : y.offset ∈ x.targets) : Passes b i (some j)
  | leave (x : Instruction) (hx : b.instructions[i]? = some x)
      (hl : x.opcode.flow.leaves = true) : Passes b i none

/-! ## 2. The exits of a block -/

/-- Does control follow an operand along the edge? -/
def EdgeKind.isJump : EdgeKind → Bool
  | .branch | .conditionalTrue | .switchCase _ => true
  | _ => false

namespace FlowGraph

theorem mem_of_mem_mapM {α β ε : Type} {f : α → Except ε β} {l : List α} {r : List β}
    (h : l.mapM f = .ok r) {y : β} (hy : y ∈ r) : ∃ a ∈ l, f a = .ok y := by
  induction l generalizing r with
  | nil =>
      obtain rfl := Except.ok.inj h
      cases hy
  | cons x l ih =>
      rw [List.mapM_cons] at h
      obtain ⟨z, hz, h⟩ := ok_of_bind h
      obtain ⟨zs, hzs, h⟩ := ok_of_bind h
      obtain rfl := Except.ok.inj h
      rcases List.mem_cons.mp hy with rfl | hy
      · exact ⟨x, List.mem_cons_self, hz⟩
      · obtain ⟨a, ha, hfa⟩ := ih hzs hy
        exact ⟨a, List.mem_cons_of_mem x ha, hfa⟩

/-- Control follows an operand along the edge to a target: the only one, or that of the table which
    the edge names. -/
def Follows (x : Instruction) (kind : EdgeKind) (t : Nat) : Prop :=
  ((kind = .branch ∨ kind = .conditionalTrue) ∧ x.opcode.flow ≠ .switch ∧ t ∈ x.targets) ∨
  ∃ k, kind = .switchCase k ∧ x.opcode.flow = .switch ∧ x.targets[k]? = some t

theorem Follows.mem_targets {x : Instruction} {kind : EdgeKind} {t : Nat} (h : Follows x kind t) :
    t ∈ x.targets := by
  rcases h with ⟨_, _, ht⟩ | ⟨k, _, _, ht⟩
  · exact ht
  · exact List.mem_of_getElem? ht

/-- **Every exit of a block is a way control can go**, and its kind says which: on to the next block,
    to a target, or out. -/
theorem exits_kinds {last : Instruction} {next exit n : Nat} {kind : EdgeKind}
    {target : Nat → Except FlowFault Nat} {exits : List (Nat × EdgeKind)}
    (h : last.exits next exit target = .ok exits) (hn : (n, kind) ∈ exits) :
    (last.opcode.flow.falls = true ∧ n = next ∧ kind.isJump = false) ∨
    (last.opcode.flow.jumps = true ∧ ∃ t, target t = .ok n ∧ Follows last kind t) ∨
    (last.opcode.flow.leaves = true ∧ n = exit ∧ kind.isJump = false) := by
  have htargets : ∀ {kind' : EdgeKind} {r : List (Nat × EdgeKind)},
      (last.targets.mapM fun t => return (← target t, kind')) = .ok r → (n, kind) ∈ r →
      (kind' = .branch ∨ kind' = .conditionalTrue) → last.opcode.flow ≠ .switch →
      ∃ t, target t = .ok n ∧ Follows last kind t := by
    intro kind' r hr hm hkind hflow
    obtain ⟨t, ht, hy⟩ := mem_of_mem_mapM hr hm
    obtain ⟨m, htarget, hy⟩ := ok_of_bind hy
    obtain ⟨rfl, rfl⟩ := Prod.mk.inj (Except.ok.inj hy)
    exact ⟨t, htarget, Or.inl ⟨hkind, hflow, ht⟩⟩
  have hlast : ∀ {m : Nat} {kind' : EdgeKind}, (n, kind) ∈ [(m, kind')] → kind'.isJump = false →
      n = m ∧ kind.isJump = false := by
    intro m kind' hm hkind
    obtain ⟨rfl, rfl⟩ := Prod.mk.inj (List.mem_singleton.mp hm)
    exact ⟨rfl, hkind⟩
  have honward : (if next = exit then EdgeKind.exit else .fallthrough).isJump = false := by
    split <;> rfl
  unfold Instruction.exits at h
  cases hflow : last.opcode.flow <;> rw [hflow] at h htargets
  case unconditionalBranch =>
      exact Or.inr (Or.inl ⟨rfl, htargets h hn (Or.inl rfl) nofun⟩)
  case leave =>
      exact Or.inr (Or.inl ⟨rfl, htargets h hn (Or.inl rfl) nofun⟩)
  case conditionalBranch =>
      obtain ⟨taken, htaken, h⟩ := ok_of_bind h
      obtain rfl := Except.ok.inj h
      rcases List.mem_append.mp hn with hn | hn
      · exact Or.inr (Or.inl ⟨rfl, htargets htaken hn (Or.inr rfl) nofun⟩)
      · exact Or.inl ⟨rfl, hlast hn rfl⟩
  case switch =>
      obtain ⟨rows, hrows, h⟩ := ok_of_bind h
      obtain rfl := Except.ok.inj h
      rcases List.mem_append.mp hn with hn | hn
      · obtain ⟨⟨t, k⟩, ht, hy⟩ := mem_of_mem_mapM hrows hn
        obtain ⟨m, hm, hy⟩ := ok_of_bind hy
        obtain ⟨rfl, rfl⟩ := Prod.mk.inj (Except.ok.inj hy)
        have hfollows : Follows last (.switchCase k) t :=
          Or.inr ⟨k, rfl, hflow, List.mem_zipIdx_iff_getElem?.mp ht⟩
        exact Or.inr (Or.inl ⟨rfl, t, hm, hfollows⟩)
      · exact Or.inl ⟨rfl, hlast hn rfl⟩
  case ret =>
      obtain rfl := Except.ok.inj h
      exact Or.inr (Or.inr ⟨rfl, hlast hn rfl⟩)
  case throw =>
      obtain rfl := Except.ok.inj h
      exact Or.inr (Or.inr ⟨rfl, hlast hn rfl⟩)
  case endFinally =>
      obtain rfl := Except.ok.inj h
      cases hn
  case sequential =>
      obtain rfl := Except.ok.inj h
      exact Or.inl ⟨rfl, hlast hn honward⟩
  case call =>
      obtain rfl := Except.ok.inj h
      exact Or.inl ⟨rfl, hlast hn honward⟩
  case modifier =>
      obtain rfl := Except.ok.inj h
      exact Or.inl ⟨rfl, hlast hn honward⟩

theorem exits_cases {last : Instruction} {next exit n : Nat} {kind : EdgeKind}
    {target : Nat → Except FlowFault Nat} {exits : List (Nat × EdgeKind)}
    (h : last.exits next exit target = .ok exits) (hn : (n, kind) ∈ exits) :
    (last.opcode.flow.falls = true ∧ n = next) ∨
    (last.opcode.flow.jumps = true ∧ ∃ t ∈ last.targets, target t = .ok n) ∨
    (last.opcode.flow.leaves = true ∧ n = exit) := by
  rcases exits_kinds h hn with ⟨hf, hnext, _⟩ | ⟨hj, t, ht, hfollows⟩ | ⟨hl, hexit, _⟩
  · exact Or.inl ⟨hf, hnext⟩
  · exact Or.inr (Or.inl ⟨hj, t, hfollows.mem_targets, ht⟩)
  · exact Or.inr (Or.inr ⟨hl, hexit⟩)

theorem exit_mem_exits {last : Instruction} {next exit : Nat} {target : Nat → Except FlowFault Nat}
    {exits : List (Nat × EdgeKind)} (h : last.exits next exit target = .ok exits)
    (hl : last.opcode.flow.leaves = true) : ∃ kind, (exit, kind) ∈ exits := by
  unfold Instruction.exits at h
  cases hflow : last.opcode.flow <;> rw [hflow] at h hl <;> try cases hl
  case ret => exact ⟨_, Except.ok.inj h ▸ List.mem_cons_self⟩
  case throw => exact ⟨_, Except.ok.inj h ▸ List.mem_cons_self⟩

/-! ## 3. Which edges are drawn -/

variable {b : Body} {g g' : Digraph Block EdgeKind}

/-- The edge from the entry to the first block, or an edge that a block asks for. -/
def Justified (b : Body) (e : Edge EdgeKind) : Prop :=
  (e.source = 0 ∧ e.target = 1) ∨
  ∃ (k : Nat) (c : CodeBlock) (last : Instruction) (exits : List (Nat × EdgeKind)) (kind : EdgeKind),
    b.blocks[k]? = some c ∧ e.source = k + 1 ∧ b.instructions[c.stop - 1]? = some last ∧
    last.exits (nextNumber b c) b.exitNumber (targetNumber b last) = .ok exits ∧
    (e.target, kind) ∈ exits

/-- The same with the kind of the edge. -/
def JustifiedAs (b : Body) (e : Edge EdgeKind) : Prop :=
  e = ⟨0, 1, .entry⟩ ∨
  ∃ (k : Nat) (c : CodeBlock) (last : Instruction) (exits : List (Nat × EdgeKind)),
    b.blocks[k]? = some c ∧ e.source = k + 1 ∧ b.instructions[c.stop - 1]? = some last ∧
    last.exits (nextNumber b c) b.exitNumber (targetNumber b last) = .ok exits ∧
    (e.target, e.data) ∈ exits

theorem JustifiedAs.justified {e : Edge EdgeKind} (h : JustifiedAs b e) : Justified b e := by
  rcases h with rfl | ⟨k, c, last, exits, hk, hs, hl, hexits, hmem⟩
  · exact Or.inl ⟨rfl, rfl⟩
  · exact Or.inr ⟨k, c, last, exits, e.data, hk, hs, hl, hexits, hmem⟩

theorem mem_edges_link {u v : Nat} {kind : EdgeKind} (h : link g u v kind = .ok g')
    {e : Edge EdgeKind} (he : e ∈ g'.edges) : e ∈ g.edges ∨ e = ⟨u, v, kind⟩ := by
  unfold link Digraph.addEdge at h
  by_cases hu : g.nodeCount ≤ u
  · simp [hu] at h
  by_cases hv : g.nodeCount ≤ v
  · simp [hu, hv] at h
  by_cases hg : g.hasEdge u v = true
  · simp only [hu, hv, hg, if_true, if_false, Except.ok.injEq] at h
    subst h
    exact Or.inl he
  · simp only [hu, hv, hg, Bool.false_eq_true, if_false, Except.ok.injEq] at h
    subst h
    rcases List.mem_append.mp he with he | he
    · exact Or.inl he
    · exact Or.inr (List.mem_singleton.mp he)

/-- A condition that every step keeps holds after all steps. -/
theorem foldlM_keeps {α β ε : Type} {P : β → Prop} {f : β → α → Except ε β} {l : List α}
    (hf : ∀ x a y, a ∈ l → P x → f x a = .ok y → P y) {x y : β} (hx : P x)
    (h : l.foldlM f x = .ok y) : P y := by
  induction l generalizing x with
  | nil =>
      obtain rfl := Except.ok.inj h
      exact hx
  | cons a l ih =>
      rw [List.foldlM_cons] at h
      obtain ⟨z, hz, h⟩ := ok_of_bind h
      exact ih (fun x a y ha => hf x a y (List.mem_cons_of_mem _ ha))
        (hf x a z List.mem_cons_self hx hz) h

theorem justifiedAs_linkBlock {k : Nat} {c : CodeBlock} (hk : b.blocks[k]? = some c)
    (hg : ∀ e ∈ g.edges, JustifiedAs b e)
    (h : linkBlock b b.starts b.exitNumber g (k + 1, c) = .ok g') :
    ∀ e ∈ g'.edges, JustifiedAs b e := by
  unfold linkBlock at h
  cases hl : b.instructions[c.stop - 1]? with
  | none =>
      rw [hl] at h
      obtain rfl := Except.ok.inj h
      exact hg
  | some last =>
      rw [hl] at h
      obtain ⟨exits, hexits, h⟩ := ok_of_bind h
      refine foldlM_keeps (P := fun g => ∀ e ∈ g.edges, JustifiedAs b e) ?_ hg h
      intro g₁ x g₂ hx hg₁ hlink e he
      rcases mem_edges_link hlink he with he | rfl
      · exact hg₁ e he
      · exact Or.inr ⟨k, c, last, exits, hk, rfl, hl, hexits, hx⟩

/-- **A graph has no other edges than those that its blocks ask for**, of the kinds they ask for. -/
theorem ofBody_justifiedAs {g : FlowGraph} (h : ofBody b = .ok g) :
    (∀ e ∈ g.graph.edges, JustifiedAs b e) ∧ g.starts = b.starts := by
  unfold ofBody at h
  split at h
  · cases h
  · split at h
    · cases h
    · obtain ⟨g₁, h₁, h⟩ := ok_of_bind h
      obtain ⟨g₂, h₂, h⟩ := ok_of_bind h
      obtain rfl := Except.ok.inj h
      refine ⟨?_, rfl⟩
      have hg₁ : ∀ e ∈ g₁.edges, JustifiedAs b e := by
        intro e he
        rcases mem_edges_link h₁ he with he | he
        · cases he
        · exact Or.inl he
      refine foldlM_keeps (P := fun g => ∀ e ∈ g.edges, JustifiedAs b e) ?_ hg₁ h₂
      intro g e g' he hg hstep
      obtain ⟨n, c⟩ := e
      obtain ⟨k, rfl, hk⟩ := Body.mem_numbered.mp he
      exact justifiedAs_linkBlock hk hg hstep

/-- A graph has no other edges, and it finds blocks by the offsets at which they start. -/
theorem ofBody_edges {g : FlowGraph} (h : ofBody b = .ok g) :
    (∀ e ∈ g.graph.edges, Justified b e) ∧ g.starts = b.starts := by
  obtain ⟨hedges, hstarts⟩ := ofBody_justifiedAs h
  exact ⟨fun e he => (hedges e he).justified, hstarts⟩

/-! ## 4. When there is no graph -/

/-- Every block number that is looked up belongs to a block. -/
theorem le_of_starts {t n : Nat} (h : b.starts.get? t = some n) : n ≤ b.blocks.length := by
  rcases Body.get?_foldl_starts h with ⟨c, hc, _⟩ | h
  · obtain ⟨k, rfl, hk⟩ := Body.mem_numbered.mp hc
    exact (List.getElem?_eq_some_iff.mp hk).1
  · cases h

theorem nextNumber_le (c : CodeBlock) : nextNumber b c ≤ b.exitNumber := by
  unfold nextNumber
  split
  · next i _ =>
    cases hs : b.starts.get? i.offset with
    | none => exact Nat.le_refl _
    | some n => exact Nat.le_succ_of_le (le_of_starts hs)
  · exact Nat.le_refl _

theorem exits_le {c : CodeBlock} {last : Instruction} {exits : List (Nat × EdgeKind)}
    (h : last.exits (nextNumber b c) b.exitNumber (targetNumber b last) = .ok exits)
    {e : Nat × EdgeKind} (he : e ∈ exits) : e.1 ≤ b.exitNumber := by
  rcases exits_cases h he with ⟨_, hn⟩ | ⟨_, t, _, ht⟩ | ⟨_, hn⟩
  · rw [hn]
    exact nextNumber_le c
  · unfold targetNumber at ht
    split at ht
    · next n hs =>
      obtain rfl := Except.ok.inj ht
      exact Nat.le_succ_of_le (le_of_starts hs)
    · cases ht
  · exact Nat.le_of_eq hn

theorem link_ok {u v : Nat} (kind : EdgeKind) (hu : u < g.nodeCount) (hv : v < g.nodeCount) :
    ∃ g', link g u v kind = .ok g' ∧ g'.nodes = g.nodes := by
  have hu' : ¬ g.nodeCount ≤ u := Nat.not_le_of_lt hu
  have hv' : ¬ g.nodeCount ≤ v := Nat.not_le_of_lt hv
  unfold link Digraph.addEdge
  rw [if_neg hu', if_neg hv']
  by_cases he : g.hasEdge u v = true
  · rw [if_pos he]
    exact ⟨g, rfl, rfl⟩
  · rw [if_neg he]
    exact ⟨_, rfl, rfl⟩

theorem foldlM_link_ok {u : Nat} {exits : List (Nat × EdgeKind)} (hu : u < g.nodeCount)
    (hexits : ∀ e ∈ exits, e.1 < g.nodeCount) :
    ∃ g', exits.foldlM (fun g e => link g u e.1 e.2) g = .ok g' ∧ g'.nodes = g.nodes := by
  induction exits generalizing g with
  | nil => exact ⟨g, rfl, rfl⟩
  | cons e exits ih =>
      obtain ⟨g₁, h₁, hn₁⟩ := link_ok e.2 hu (hexits e List.mem_cons_self)
      have hcount : g₁.nodeCount = g.nodeCount := congrArg List.length hn₁
      obtain ⟨g₂, h₂, hn₂⟩ := ih (g := g₁) (hcount ▸ hu) fun e he =>
        hcount ▸ hexits e (List.mem_cons_of_mem _ he)
      refine ⟨g₂, ?_, hn₂.trans hn₁⟩
      rw [List.foldlM_cons, h₁]
      exact h₂

theorem error_of_bind {ε α β : Type} {x : Except ε α} {f : α → Except ε β} {fault : ε}
    (h : x >>= f = .error fault) : x = .error fault ∨ ∃ a, x = .ok a ∧ f a = .error fault := by
  cases x with
  | error e => exact Or.inl (congrArg Except.error (Except.error.inj h))
  | ok a => exact Or.inr ⟨a, rfl, h⟩

theorem mapM_error {α β ε : Type} {f : α → Except ε β} {l : List α} {fault : ε}
    (h : l.mapM f = .error fault) : ∃ a ∈ l, f a = .error fault := by
  induction l with
  | nil => cases h
  | cons x l ih =>
      rw [List.mapM_cons] at h
      rcases error_of_bind h with h | ⟨y, _, h⟩
      · exact ⟨x, List.mem_cons_self, h⟩
      · rcases error_of_bind h with h | ⟨ys, _, h⟩
        · obtain ⟨a, ha, hfa⟩ := ih h
          exact ⟨a, List.mem_cons_of_mem x ha, hfa⟩
        · cases h

/-- A fault while the exits of a block are gathered is that of a target. -/
theorem exits_error {last : Instruction} {next exit : Nat} {target : Nat → Except FlowFault Nat}
    {fault : FlowFault} (h : last.exits next exit target = .error fault) :
    ∃ t ∈ last.targets, target t = .error fault := by
  have hone : ∀ {kind : EdgeKind} {t : Nat},
      (do return (← target t, kind) : Except FlowFault (Nat × EdgeKind)) = .error fault →
      target t = .error fault := by
    intro kind t ht
    rcases error_of_bind ht with ht | ⟨n, _, ht⟩
    · exact ht
    · cases ht
  have htargets : ∀ {kind : EdgeKind},
      (last.targets.mapM fun t => return (← target t, kind)) = .error fault →
      ∃ t ∈ last.targets, target t = .error fault := by
    intro kind hm
    obtain ⟨t, ht, hf⟩ := mapM_error hm
    exact ⟨t, ht, hone hf⟩
  unfold Instruction.exits at h
  cases hflow : last.opcode.flow <;> rw [hflow] at h
  case unconditionalBranch => exact htargets h
  case leave => exact htargets h
  case conditionalBranch =>
      rcases error_of_bind h with h | ⟨taken, _, h⟩
      · exact htargets h
      · cases h
  case switch =>
      rcases error_of_bind h with h | ⟨rows, _, h⟩
      · obtain ⟨⟨t, i⟩, ht, hf⟩ := mapM_error h
        exact ⟨t, List.fst_mem_of_mem_zipIdx ht, hone hf⟩
      · cases h
  all_goals cases h

theorem linkBlock_error {k : Nat} {c : CodeBlock} {fault : FlowFault} (hk : b.blocks[k]? = some c)
    (hg : g.nodeCount = b.exitNumber + 1)
    (h : linkBlock b b.starts b.exitNumber g (k + 1, c) = .error fault) :
    ∃ offset target, fault = .invalidTarget offset target := by
  have hlt : k + 1 < g.nodeCount := by
    have := (List.getElem?_eq_some_iff.mp hk).1
    rw [hg, Body.exitNumber]
    omega
  unfold linkBlock at h
  cases hl : b.instructions[c.stop - 1]? with
  | none =>
      rw [hl] at h
      cases h
  | some last =>
      rw [hl] at h
      rcases error_of_bind h with h | ⟨exits, hexits, h⟩
      · obtain ⟨t, _, ht⟩ := exits_error h
        split at ht
        · cases ht
        · exact ⟨last.offset, t, (Except.error.inj ht).symm⟩
      · -- the block and all its exits are nodes, so every edge can be drawn
        obtain ⟨g', hfold, _⟩ := foldlM_link_ok hlt fun e he =>
          hg ▸ Nat.lt_succ_of_le (exits_le hexits he)
        rw [hfold] at h
        cases h

theorem foldlM_linkBlock_error {l : List (Nat × CodeBlock)} (hl : ∀ e ∈ l, e ∈ b.numbered)
    (hg : g.nodeCount = b.exitNumber + 1) {fault : FlowFault}
    (h : l.foldlM (linkBlock b b.starts b.exitNumber) g = .error fault) :
    ∃ offset target, fault = .invalidTarget offset target := by
  induction l generalizing g with
  | nil => cases h
  | cons e l ih =>
      obtain ⟨n, c⟩ := e
      obtain ⟨k, rfl, hk⟩ := Body.mem_numbered.mp (hl _ List.mem_cons_self)
      rw [List.foldlM_cons] at h
      rcases error_of_bind h with h | ⟨g₁, h₁, h⟩
      · exact linkBlock_error hk hg h
      · have hcount : g₁.nodeCount = g.nodeCount := congrArg List.length (linkBlock_inv h₁).1.nodes
        exact ih (fun e he => hl e (List.mem_cons_of_mem _ he)) (hcount.trans hg) h

/-- **Without a graph there are no instructions, or a jump leads to no instruction**: every edge
    that is drawn connects two nodes. -/
theorem ofBody_error {fault : FlowFault} (h : ofBody b = .error fault) :
    fault = .emptyBody ∨ ∃ offset target, fault = .invalidTarget offset target := by
  unfold ofBody at h
  split at h
  · exact Or.inl (Except.error.inj h).symm
  · split at h
    · next offset target _ => exact Or.inr ⟨offset, target, (Except.error.inj h).symm⟩
    · have hcount : (⟨.entry :: b.blocks.map .code ++ [.exit], []⟩ : Digraph Block EdgeKind).nodeCount =
          b.exitNumber + 1 := by
        simp [Digraph.nodeCount, Body.exitNumber]
      rcases error_of_bind h with h | ⟨g₁, h₁, h⟩
      · obtain ⟨g₁, h₁, _⟩ := link_ok (u := 0) (v := 1) .entry (by rw [hcount]; omega)
          (by rw [hcount, Body.exitNumber]; omega)
        rw [h₁] at h
        cases h
      · have hg₁ : g₁.nodeCount = b.exitNumber + 1 :=
          (congrArg List.length (link_inv h₁).1.nodes).trans hcount
        rcases error_of_bind h with h | ⟨g₂, _, h⟩
        · exact Or.inr (foldlM_linkBlock_error (fun _ he => he) hg₁ h)
        · cases h

end FlowGraph

/-! ## 5. The block of an offset -/

namespace Body

variable {b : Body}

theorem exists_first {k : Nat} {c : CodeBlock} (hc : b.blocks[k]? = some c) :
    ∃ x, b.instructions[c.first]? = some x ∧ x.offset = c.start := by
  have hx : b.instructions[c.first]? = some _ := List.getElem?_eq_getElem (first_lt_length hc)
  exact ⟨_, hx, by rw [(leaders_of_block hc).2.1, offsetAt_of_getElem? hx]⟩

theorem Increasing.start_lt (hb : b.Increasing) {j k : Nat} {c d : CodeBlock}
    (hc : b.blocks[j]? = some c) (hd : b.blocks[k]? = some d) (h : j < k) : c.start < d.start := by
  have hfirst : c.first < d.first := leaders_lt (leaders_of_block hc).1 (leaders_of_block hd).1 h
  obtain ⟨x, hx, hcs⟩ := exists_first hc
  obtain ⟨y, hy, hds⟩ := exists_first hd
  rw [← hcs, ← hds]
  exact hb.lt hx hy hfirst

theorem Increasing.start_le (hb : b.Increasing) {k i : Nat} {c : CodeBlock} {x : Instruction}
    (hc : b.blocks[k]? = some c) (hx : b.instructions[i]? = some x) (hi : c.first ≤ i) :
    c.start ≤ x.offset := by
  obtain ⟨y, hy, hs⟩ := exists_first hc
  rw [← hs]
  rcases Nat.lt_or_eq_of_le hi with hlt | rfl
  · exact Nat.le_of_lt (hb.lt hy hx hlt)
  · exact Nat.le_of_eq (congrArg Instruction.offset (Option.some.inj (hy.symm.trans hx)))

/-- The block after a block starts where it stops. -/
theorem first_eq_stop {k : Nat} {c d : CodeBlock} (hc : b.blocks[k]? = some c)
    (hd : b.blocks[k + 1]? = some d) : d.first = c.stop := by
  rw [(leaders_of_block hc).2.2, (leaders_of_block hd).1]
  rfl

theorem Increasing.starts_pairwise (hb : b.Increasing) :
    (b.numbered.map fun e => (e.2.start, e.1)).Pairwise fun e f => e.1 < f.1 := by
  rw [List.pairwise_map, List.pairwise_iff_getElem]
  intro i j hi hj hij
  simp only [numbered, List.getElem_map, List.getElem_zipIdx]
  exact hb.start_lt (List.getElem?_eq_getElem _) (List.getElem?_eq_getElem _) hij

/-- **Starts are listed in the order of the blocks.** -/
theorem Increasing.starts_eq (hb : b.Increasing) :
    b.starts = b.numbered.map fun e => (e.2.start, e.1) := by
  have hkeyed : Assoc.Keyed (b.numbered.map fun e => (e.2.start, e.1)) :=
    hb.starts_pairwise.imp rankCompare_nat_lt_iff.mpr
  have h := Assoc.foldl_insert_eq (m := []) hkeyed
  rw [List.foldl_map] at h
  exact h

theorem getElem?_numbered (b : Body) (k : Nat) :
    b.numbered[k]? = b.blocks[k]?.map fun c => (k + 1, c) := by
  unfold numbered
  rw [List.getElem?_map, List.getElem?_zipIdx, Option.map_map, Nat.zero_add]
  rfl

/-- An instruction that is found at an offset has this offset. -/
theorem offset_of_indexOf? {t i : Nat} (h : b.indexOf? t = some i) :
    ∃ x, b.instructions[i]? = some x ∧ x.offset = t := by
  unfold indexOf? at h
  simp only [List.getElem?_toArray, List.getElem?_map, Option.ite_none_right_eq_some,
    Option.some.injEq, Option.map_eq_some_iff] at h
  obtain ⟨⟨x, hx, ht⟩, rfl⟩ := h
  exact ⟨x, hx, ht⟩

/-- **Where a jump leads, a block starts**, if all jumps lead to instructions. -/
theorem exists_block_of_jump (hbad : b.badJump? = none) {j : Nat × Nat} (hj : j ∈ b.jumps) :
    ∃ (k : Nat) (c : CodeBlock) (x : Instruction), b.blocks[k]? = some c ∧
      b.instructions[c.first]? = some x ∧ x.offset = j.2 := by
  have hfound : (b.indexOf? j.2).isSome = true := by
    have := List.find?_eq_none.mp hbad j hj
    simpa [Option.isSome_iff_ne_none] using this
  obtain ⟨i, hi⟩ := Option.isSome_iff_exists.mp hfound
  obtain ⟨x, hx, ht⟩ := offset_of_indexOf? hi
  have hland : i ∈ b.landings := List.mem_filterMap.mpr ⟨j, hj, hi⟩
  have hlead : i ∈ b.leaders := by
    refine mem_leaders.mpr ⟨(List.getElem?_eq_some_iff.mp hx).1, ?_⟩
    cases i with
    | zero => rfl
    | succ i => simp [isLeader, hland]
  obtain ⟨k, c, hk, rfl⟩ := exists_block_of_leader hlead
  exact ⟨k, c, x, hk, hx, ht⟩

theorem blocks_inj {j k : Nat} {c d : CodeBlock} (hc : b.blocks[j]? = some c)
    (hd : b.blocks[k]? = some d) (h : c.first = d.first) : j = k := by
  have hj := (leaders_of_block hc).1
  rw [h] at hj
  exact leaders_inj hj (leaders_of_block hd).1

theorem first_eq_zero {c : CodeBlock} (hc : b.blocks[0]? = some c) : c.first = 0 := by
  obtain ⟨hf, _, _⟩ := leaders_of_block hc
  have hpos : 0 < b.instructions.length := Nat.zero_lt_of_lt (first_lt_length hc)
  obtain ⟨k, d, hd, hd0⟩ := exists_block_of_leader (mem_leaders.mpr ⟨hpos, rfl⟩)
  rcases Nat.eq_zero_or_pos k with rfl | hk
  · exact (congrArg CodeBlock.first (Option.some.inj (hc.symm.trans hd))).trans hd0
  · have := leaders_lt hf (leaders_of_block hd).1 hk
    omega

theorem blocks_pos (hne : b.instructions ≠ []) : 0 < b.blocks.length := by
  obtain ⟨k, c, hc, _⟩ := exists_block_of_leader
    (mem_leaders.mpr ⟨List.length_pos_iff.mpr hne, rfl⟩)
  exact Nat.zero_lt_of_lt (List.getElem?_eq_some_iff.mp hc).1

theorem stop_eq_length {k : Nat} {c : CodeBlock} (hc : b.blocks[k]? = some c)
    (hlast : k + 1 = b.blocks.length) : c.stop = b.instructions.length := by
  have hnone : b.leaders[k + 1]? = none := by
    have h : b.blocks[k + 1]? = none := List.getElem?_eq_none (Nat.le_of_eq hlast.symm)
    rw [getElem?_blocks] at h
    exact Option.map_eq_none_iff.mp h
  rw [(leaders_of_block hc).2.2, hnone]
  rfl

end Body

/-- The last entry that is not beyond a bound, in a list of ascending entries. -/
theorem getLast?_takeWhile {l : List (Nat × Nat)} (hl : l.Pairwise fun e f => e.1 < f.1)
    {bound k : Nat} {e : Nat × Nat} (he : l[k]? = some e) (hle : e.1 ≤ bound)
    (hnext : ∀ f, l[k + 1]? = some f → bound < f.1) :
    (l.takeWhile fun e => e.1 ≤ bound).getLast? = some e := by
  induction l generalizing k with
  | nil => cases he
  | cons d l ih =>
      obtain ⟨hd, hl⟩ := List.pairwise_cons.mp hl
      cases k with
      | zero =>
          obtain rfl := Option.some.inj he
          have hstop : (l.takeWhile fun e => e.1 ≤ bound) = [] := by
            cases l with
            | nil => rfl
            | cons f l => exact List.takeWhile_cons_of_neg (by simpa using hnext f rfl)
          rw [List.takeWhile_cons_of_pos (by simpa using hle), hstop]
          rfl
      | succ k =>
          have hlt : d.1 < e.1 := hd e (List.mem_of_getElem? he)
          rw [List.takeWhile_cons_of_pos (by simp; omega), List.getLast?_cons, ih hl he hnext]
          rfl

namespace FlowGraph

variable {b : Body} {g : FlowGraph}

/-- **An offset is found in the block that holds its instruction.** -/
theorem blockOf?_eq (hb : b.Increasing) (hs : g.starts = b.starts) {k : Nat} {c : CodeBlock}
    (hc : b.blocks[k]? = some c) {i : Nat} {x : Instruction} (hx : b.instructions[i]? = some x)
    (hf : c.first ≤ i) (hi : i < c.stop) : g.blockOf? x.offset = some (k + 1) := by
  have hget : ∀ j, (b.numbered.map fun e => (e.2.start, e.1))[j]? =
      b.blocks[j]?.map fun d => (d.start, j + 1) := by
    intro j
    rw [List.getElem?_map, Body.getElem?_numbered, Option.map_map]
    rfl
  have hthis : (b.numbered.map fun e => (e.2.start, e.1))[k]? = some (c.start, k + 1) := by
    rw [hget, hc]
    rfl
  have hnext : ∀ f, (b.numbered.map fun e => (e.2.start, e.1))[k + 1]? = some f → x.offset < f.1 := by
    intro f hf'
    rw [hget] at hf'
    obtain ⟨d, hd, rfl⟩ := Option.map_eq_some_iff.mp hf'
    obtain ⟨y, hy, hds⟩ := Body.exists_first hd
    have hlt : i < d.first := by
      rw [Body.first_eq_stop hc hd]
      exact hi
    show x.offset < d.start
    rw [← hds]
    exact hb.lt hx hy hlt
  unfold blockOf?
  rw [hs, hb.starts_eq, getLast?_takeWhile hb.starts_pairwise hthis (hb.start_le hc hx hf) hnext]
  rfl

/-! ## 6. The graph and the flow -/

/-- **The graph represents the flow of the body.** -/
structure Represents (b : Body) (g : FlowGraph) : Prop where
  /-- The entry comes first and the exit last, -/
  entry : g.entry = 0 ∧ g.block? 0 = some .entry
  exit : g.exit + 1 = g.blockCount ∧ g.block? g.exit = some .exit
  /-- and exactly the nodes between them hold code. -/
  code : ∀ n, (∃ c, g.block? n = some (.code c)) ↔ 0 < n ∧ n < g.exit
  /-- The blocks are runs of instructions, none of them empty, -/
  nonempty : ∀ n c, g.block? n = some (.code c) → c.first < c.stop
  /-- that cover the code in order, from the first instruction to the last, without a gap. -/
  first : ∃ c, g.block? 1 = some (.code c) ∧ c.first = 0
  next : ∀ n c d, g.block? n = some (.code c) → g.block? (n + 1) = some (.code d) → d.first = c.stop
  last : ∀ n c, g.block? n = some (.code c) → n + 1 = g.exit → c.stop = b.instructions.length
  /-- Only the last instruction of a block may end a block. -/
  inner : ∀ n c i x, g.block? n = some (.code c) → c.first ≤ i → i + 1 < c.stop →
    b.instructions[i]? = some x → x.opcode.flow.endsBlock = false
  /-- Every explicit target and every entry point of a clause is the start of a block. -/
  targets : ∀ x ∈ b.instructions, ∀ t ∈ x.targets, ∃ n c y, g.block? n = some (.code c) ∧
    b.instructions[c.first]? = some y ∧ y.offset = t
  clauses : ∀ clause ∈ b.clauses, ∀ e ∈ clause.entryPoints, ∃ n c y, g.block? n = some (.code c) ∧
    b.instructions[c.first]? = some y ∧ y.offset = e.1
  /-- Edges are the ways control can go from the last instruction of a block. -/
  edges : ∀ n c, g.block? n = some (.code c) → ∀ m, m ∈ g.graph.successors n ↔
    (∃ d, g.block? m = some (.code d) ∧ b.Passes (c.stop - 1) (some d.first)) ∨
    (m = g.exit ∧ b.Passes (c.stop - 1) none)
  entryEdges : ∀ m, m ∈ g.graph.successors g.entry ↔ m = 1
  exitEdges : ∀ m, m ∉ g.graph.successors g.exit
  /-- The offset of an instruction is found in the block that holds the instruction. -/
  located : ∀ n c i x, g.block? n = some (.code c) → c.first ≤ i → i < c.stop →
    b.instructions[i]? = some x → g.blockOf? x.offset = some n

theorem Drawn.exit_eq (hd : Drawn b g) : g.exit = b.exitNumber := by
  have h := hd.blockCount_eq
  unfold blockCount at h
  unfold exit Body.exitNumber
  omega

theorem Drawn.block?_iff (hd : Drawn b g) {n : Nat} {c : CodeBlock} :
    g.block? n = some (.code c) ↔ ∃ k, n = k + 1 ∧ b.blocks[k]? = some c := by
  constructor
  · exact hd.block_of_block?
  · rintro ⟨k, rfl, hk⟩
    exact hd.block?_succ hk

theorem Drawn.block?_exit (hd : Drawn b g) : g.block? g.exit = some .exit := by
  rw [hd.exit_eq]
  unfold block? Digraph.node? Body.exitNumber
  rw [hd.nodes]
  simp

/-- Where a block goes on, there is a block or the end of the code. -/
theorem nextNumber_cases (hb : b.Increasing) {k : Nat} {c : CodeBlock} (hc : b.blocks[k]? = some c) :
    (∃ (j : Nat) (d : CodeBlock), nextNumber b c = j + 1 ∧ b.blocks[j]? = some d ∧ d.first = c.stop) ∨
    (nextNumber b c = b.exitNumber ∧ b.instructions.length = c.stop) := by
  rcases Nat.lt_or_eq_of_le (Body.stop_le_length hc) with hlt | heq
  · obtain ⟨x, hx⟩ : ∃ x, b.instructions[c.stop]? = some x := ⟨_, List.getElem?_eq_getElem hlt⟩
    obtain ⟨n, hn⟩ := Body.exists_starts_of_leader (Body.stop_mem_leaders hc hlt) hx
    obtain ⟨j, d, rfl, hd, hfirst⟩ := hb.block_of_starts hx hn
    refine Or.inl ⟨j, d, ?_, hd, hfirst⟩
    unfold nextNumber
    simp only [hx, hn, Option.getD_some]
  · refine Or.inr ⟨?_, heq.symm⟩
    unfold nextNumber
    rw [List.getElem?_eq_none (Nat.le_of_eq heq.symm)]

/-- An edge that a block asks for is a way control can go. -/
theorem Drawn.passes_of_exits (hd : Drawn b g) (hb : b.Increasing) {k : Nat} {c : CodeBlock}
    (hc : b.blocks[k]? = some c) {last : Instruction} (hl : b.instructions[c.stop - 1]? = some last)
    {exits : List (Nat × EdgeKind)}
    (hexits : last.exits (nextNumber b c) b.exitNumber (targetNumber b last) = .ok exits)
    {m : Nat} {kind : EdgeKind} (hm : (m, kind) ∈ exits) :
    (∃ d, g.block? m = some (.code d) ∧ b.Passes (c.stop - 1) (some d.first)) ∨
    (m = g.exit ∧ b.Passes (c.stop - 1) none) := by
  have hpos : c.stop - 1 + 1 = c.stop := by
    have := Body.first_lt_stop hc
    omega
  rcases exits_cases hexits hm with ⟨hf, rfl⟩ | ⟨hj, t, ht, hn⟩ | ⟨hlv, rfl⟩
  · rcases nextNumber_cases hb hc with ⟨j, d, hn, hblock, hfirst⟩ | ⟨hn, hend⟩
    · refine Or.inl ⟨d, hd.block?_iff.mpr ⟨j, hn, hblock⟩, ?_⟩
      have hlt := Body.first_lt_length hblock
      rw [hfirst, ← hpos] at hlt ⊢
      exact .next last hl hf hlt
    · exact Or.inr ⟨hn.trans hd.exit_eq.symm, .runOff last hl hf (hend.trans hpos.symm)⟩
  · unfold targetNumber at hn
    split at hn
    · next n hs =>
      obtain rfl := Except.ok.inj hn
      rcases Body.get?_foldl_starts hs with ⟨d, hmem, hstart⟩ | hs
      · obtain ⟨j, rfl, hblock⟩ := Body.mem_numbered.mp hmem
        obtain ⟨y, hy, hoff⟩ := Body.exists_first hblock
        refine Or.inl ⟨d, hd.block?_succ hblock, .jump last y d.first hl hj hy ?_⟩
        rw [hoff, hstart]
        exact ht
      · cases hs
    · cases hn
  · exact Or.inr ⟨hd.exit_eq.symm, .leave last hl hlv⟩

/-- **Edges are the ways control can go** from the last instruction of a block. -/
theorem Drawn.mem_successors_iff (hd : Drawn b g) (hedges : ∀ e ∈ g.graph.edges, Justified b e)
    (hb : b.Increasing) {k : Nat} {c : CodeBlock} (hc : b.blocks[k]? = some c) (m : Nat) :
    m ∈ g.graph.successors (k + 1) ↔
      (∃ d, g.block? m = some (.code d) ∧ b.Passes (c.stop - 1) (some d.first)) ∨
      (m = g.exit ∧ b.Passes (c.stop - 1) none) := by
  have hpos : c.stop - 1 + 1 = c.stop := by
    have := Body.first_lt_stop hc
    omega
  constructor
  · intro hm
    obtain ⟨e, he, hs, rfl⟩ := Digraph.mem_successors.mp hm
    rcases hedges e he with ⟨h0, _⟩ | ⟨j, d, last, exits, kind, hj, hsrc, hl, hexits, hmem⟩
    · rw [h0] at hs
      cases hs
    · obtain rfl := Nat.succ.inj (hs.symm.trans hsrc)
      obtain rfl := Option.some.inj (hc.symm.trans hj)
      exact hd.passes_of_exits hb hc hl hexits hmem
  · rintro (⟨d, hblock, hpass⟩ | ⟨rfl, hpass⟩)
    · obtain ⟨j, rfl, hj⟩ := hd.block_of_block? hblock
      -- the edge leads to the block that starts there, which is this one
      have hsame : ∀ {j' : Nat} {d' : CodeBlock}, b.blocks[j']? = some d' → d'.first = d.first →
          j' + 1 ∈ g.graph.successors (k + 1) → j + 1 ∈ g.graph.successors (k + 1) := by
        intro j' d' hj' hfirst hmem
        rw [Body.blocks_inj hj hj' hfirst.symm]
        exact hmem
      generalize hn : some d.first = n at hpass
      cases hpass with
      | next x hx hf hlt =>
          rw [hpos] at hlt
          obtain ⟨j', d', hj', hfirst, hmem⟩ := hd.edge_of_falls hb hc hx hf hlt
          refine hsame hj' ?_ hmem
          rw [hfirst, Option.some.inj hn, hpos]
      | jump x y i hx hjump hy ht =>
          obtain ⟨j', d', hj', hfirst, hmem⟩ := hd.edge_of_jumps hb hc hx hjump hy ht
          exact hsame hj' (hfirst.trans (Option.some.inj hn).symm) hmem
      | runOff => cases hn
      | leave => cases hn
    · rw [hd.exit_eq]
      cases hpass with
      | runOff x hx hf hend =>
          obtain ⟨exits, hexits, hall⟩ := hd.exits k c hc x hx
          obtain ⟨kind, hm⟩ := next_mem_exits hexits hf
          rcases nextNumber_cases hb hc with ⟨j, d, _, hblock, hfirst⟩ | ⟨hn, _⟩
          · have hlt := Body.first_lt_length hblock
            omega
          · exact hn ▸ hall _ hm
      | leave x hx hlv =>
          obtain ⟨exits, hexits, hall⟩ := hd.exits k c hc x hx
          obtain ⟨kind, hm⟩ := exit_mem_exits hexits hlv
          exact hall _ hm

theorem Drawn.successors_entry (hd : Drawn b g) (hedges : ∀ e ∈ g.graph.edges, Justified b e)
    (m : Nat) : m ∈ g.graph.successors g.entry ↔ m = 1 := by
  constructor
  · intro hm
    obtain ⟨e, he, hs, rfl⟩ := Digraph.mem_successors.mp hm
    rcases hedges e he with ⟨_, h1⟩ | ⟨k, _, _, _, _, _, hsrc, _⟩
    · exact h1
    · rw [hsrc] at hs
      cases hs
  · rintro rfl
    exact hd.entry

theorem Drawn.successors_exit (hd : Drawn b g) (hedges : ∀ e ∈ g.graph.edges, Justified b e)
    (m : Nat) : m ∉ g.graph.successors g.exit := by
  intro hm
  obtain ⟨e, he, hs, _⟩ := Digraph.mem_successors.mp hm
  rw [hd.exit_eq, Body.exitNumber] at hs
  rcases hedges e he with ⟨h0, _⟩ | ⟨k, c, _, _, _, hk, hsrc, _⟩
  · omega
  · have := (List.getElem?_eq_some_iff.mp hk).1
    omega

/-- **The control flow graph of a body with ascending offsets represents its flow.** -/
theorem ofBody_represents (hb : b.Increasing) (h : ofBody b = .ok g) : Represents b g := by
  obtain ⟨hne, hbad, hd⟩ := ofBody_inv h
  obtain ⟨hedges, hstarts⟩ := ofBody_edges h
  have hpos := Body.blocks_pos hne
  have hcount := hd.blockCount_eq
  have hexit := hd.exit_eq
  unfold Body.exitNumber at hexit
  have hstart : ∀ {j : Nat × Nat}, j ∈ b.jumps → ∃ n c y, g.block? n = some (.code c) ∧
      b.instructions[c.first]? = some y ∧ y.offset = j.2 := by
    intro j hj
    obtain ⟨k, c, y, hk, hy, ht⟩ := Body.exists_block_of_jump hbad hj
    exact ⟨k + 1, c, y, hd.block?_succ hk, hy, ht⟩
  constructor
  case entry =>
      refine ⟨rfl, ?_⟩
      unfold block? Digraph.node?
      rw [hd.nodes]
      rfl
  case exit => exact ⟨by omega, hd.block?_exit⟩
  case code =>
      intro n
      constructor
      · rintro ⟨c, hn⟩
        obtain ⟨k, rfl, hk⟩ := hd.block_of_block? hn
        have := (List.getElem?_eq_some_iff.mp hk).1
        omega
      · rintro ⟨h0, hlt⟩
        obtain ⟨k, rfl⟩ := Nat.exists_eq_add_one.mpr h0
        exact ⟨_, hd.block?_succ (List.getElem?_eq_getElem (by omega))⟩
  case nonempty =>
      intro n c hn
      obtain ⟨k, rfl, hk⟩ := hd.block_of_block? hn
      exact Body.first_lt_stop hk
  case first =>
      obtain ⟨c, hc⟩ : ∃ c, b.blocks[0]? = some c := ⟨_, List.getElem?_eq_getElem hpos⟩
      exact ⟨c, hd.block?_succ hc, Body.first_eq_zero hc⟩
  case next =>
      intro n c d hn hn'
      obtain ⟨k, rfl, hk⟩ := hd.block_of_block? hn
      obtain ⟨k', hk', hkd⟩ := hd.block_of_block? hn'
      obtain rfl := Nat.succ.inj hk'
      exact Body.first_eq_stop hk hkd
  case last =>
      intro n c hn hlast
      obtain ⟨k, rfl, hk⟩ := hd.block_of_block? hn
      exact Body.stop_eq_length hk (by omega)
  case inner =>
      intro n c i x hn hf hs hx
      obtain ⟨k, rfl, hk⟩ := hd.block_of_block? hn
      exact Body.inner_sequential hk hf hs hx
  case targets =>
      intro x hx t ht
      exact hstart (List.mem_append_left _
        (List.mem_flatMap.mpr ⟨x, hx, List.mem_map.mpr ⟨t, ht, rfl⟩⟩))
  case clauses =>
      intro clause hclause e he
      exact hstart (List.mem_append_right _
        (List.mem_flatMap.mpr ⟨clause, hclause, List.mem_map.mpr ⟨e, he, rfl⟩⟩))
  case edges =>
      intro n c hn
      obtain ⟨k, rfl, hk⟩ := hd.block_of_block? hn
      exact hd.mem_successors_iff hedges hb hk
  case entryEdges => exact hd.successors_entry hedges
  case exitEdges => exact hd.successors_exit hedges
  case located =>
      intro n c i x hn hf hs hx
      obtain ⟨k, rfl, hk⟩ := hd.block_of_block? hn
      exact blockOf?_eq hb hstarts hk hx hf hs

/-- A branch to the fall-through, a handler that starts in the middle of straight code, and a jump
    table as the last instruction. -/
def forked : Body where
  maxStack := 1
  initLocals := false
  locals := []
  instructions := [⟨0, .ldarg0, .empty⟩, ⟨1, .brtrueS, .target 3⟩, ⟨3, .nop, .empty⟩,
    ⟨4, .pop, .empty⟩, ⟨5, .ldarg0, .empty⟩, ⟨6, .switch, .switch [3, 0, 3]⟩]
  clauses := [⟨0, 0, 4, 4, 2, some ⟨0x02000001⟩, none⟩]

def forkedGraph : FlowGraph where
  graph :=
    { nodes := [.entry, .code ⟨none, 0, 0, 2⟩, .code ⟨none, 3, 2, 3⟩,
        .code ⟨some .catchTyped, 4, 3, 6⟩, .exit]
      edges := [⟨0, 1, .entry⟩, ⟨1, 2, .conditionalTrue⟩, ⟨2, 3, .fallthrough⟩,
        ⟨3, 2, .switchCase 0⟩, ⟨3, 1, .switchCase 1⟩, ⟨3, 4, .switchDefault⟩] }
  handlers := [(3, .catchTyped)]
  starts := [(0, 1), (3, 2), (4, 3)]

theorem forked_represents : ofBody forked = .ok forkedGraph ∧ Represents forked forkedGraph := by
  have hb : forked.Increasing := by
    unfold Body.Increasing forked
    decide
  have h : ofBody forked = .ok forkedGraph := by decide +kernel
  exact ⟨h, ofBody_represents hb h⟩

end FlowGraph

end ReflectionFlow

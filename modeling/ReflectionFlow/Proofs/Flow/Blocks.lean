/-
  File:      ReflectionFlow/Proofs/Flow/Blocks.lean
  Subject:   The control flow graph of a body follows its instructions.

  Wherever control can go after an instruction, it either stays inside the block or follows an
  edge to a block that starts there.  Offsets ascend, so an offset names one instruction.

  * `Body.getElem?_blocks`     each block reaches from one leader to the next
  * `ofBody_inv`               what a graph consists of, if there is one
  * `Body.inner_sequential`    inside a block every instruction passes control to the next
  * `edge_of_falls`, `edge_of_jumps`   at its end control follows an edge
-/
import Mathlib.Data.List.Basic
import ReflectionFlow.Flow.Graph
import ReflectionFlow.Proofs.Order.Sorted

namespace ReflectionFlow

/-! ## 1. Flow -/

namespace Flow

/-- Can control pass to the next instruction? -/
def falls : Flow → Bool
  | .sequential | .call | .modifier | .conditionalBranch | .switch => true
  | _ => false

/-- Can control pass to the explicit targets? -/
def jumps : Flow → Bool
  | .unconditionalBranch | .leave | .conditionalBranch | .switch => true
  | _ => false

end Flow

/-! ## 2. Offsets -/

namespace Body

variable {b : Body}

theorem Increasing.lt (hb : b.Increasing) {i j : Nat} {x y : Instruction}
    (hx : b.instructions[i]? = some x) (hy : b.instructions[j]? = some y) (h : i < j) :
    x.offset < y.offset := by
  obtain ⟨hi, rfl⟩ := List.getElem?_eq_some_iff.mp hx
  obtain ⟨hj, rfl⟩ := List.getElem?_eq_some_iff.mp hy
  exact List.pairwise_iff_getElem.mp hb i j hi hj h

theorem Increasing.index_eq (hb : b.Increasing) {i j : Nat} {x y : Instruction}
    (hx : b.instructions[i]? = some x) (hy : b.instructions[j]? = some y)
    (h : x.offset = y.offset) : i = j := by
  rcases Nat.lt_trichotomy i j with hij | rfl | hij
  · exact absurd h (Nat.ne_of_lt (hb.lt hx hy hij))
  · rfl
  · exact absurd h.symm (Nat.ne_of_lt (hb.lt hy hx hij))

theorem offsetAt_of_getElem? {i : Nat} {x : Instruction} (hx : b.instructions[i]? = some x) :
    b.offsetAt i = x.offset := by
  unfold offsetAt
  rw [hx]

/-! ## 3. Blocks -/

theorem leaders_pairwise (b : Body) : b.leaders.Pairwise (· < ·) :=
  List.Pairwise.filter _ List.pairwise_lt_range

theorem mem_leaders {i : Nat} :
    i ∈ b.leaders ↔ i < b.instructions.length ∧ b.isLeader b.landings i = true := by
  unfold leaders
  rw [List.mem_filter, List.mem_range]

theorem leaders_lt {j k x y : Nat} (hj : b.leaders[j]? = some x) (hk : b.leaders[k]? = some y)
    (h : j < k) : x < y := by
  obtain ⟨hj', rfl⟩ := List.getElem?_eq_some_iff.mp hj
  obtain ⟨hk', rfl⟩ := List.getElem?_eq_some_iff.mp hk
  exact List.pairwise_iff_getElem.mp b.leaders_pairwise j k hj' hk' h

theorem leaders_inj {i j k : Nat} (hj : b.leaders[j]? = some i) (hk : b.leaders[k]? = some i) :
    j = k := by
  have hnd : b.leaders.Nodup := b.leaders_pairwise.imp Nat.ne_of_lt
  obtain ⟨hlt, _⟩ := List.getElem?_eq_some_iff.mp hj
  exact (List.getElem?_inj hlt hnd).mp (hj.trans hk.symm)

theorem getElem?_zip_next (l : List Nat) (n k : Nat) :
    (l.zip (l.drop 1 ++ [n]))[k]? = l[k]?.map fun x => (x, l[k + 1]?.getD n) := by
  induction l generalizing k with
  | nil => rfl
  | cons x r ih =>
      cases r with
      | nil => cases k <;> rfl
      | cons y r =>
          cases k with
          | zero => rfl
          | succ k => exact ih k

/-- **Each block reaches from one leader to the next.** -/
theorem getElem?_blocks (b : Body) (k : Nat) :
    b.blocks[k]? = b.leaders[k]?.map fun first =>
      ⟨b.handlerAt? (b.offsetAt first), b.offsetAt first, first,
        b.leaders[k + 1]?.getD b.instructions.length⟩ := by
  unfold blocks
  rw [List.getElem?_map, getElem?_zip_next, Option.map_map]
  rfl

variable {k : Nat} {c : CodeBlock}

theorem leaders_of_block (h : b.blocks[k]? = some c) :
    b.leaders[k]? = some c.first ∧ c.start = b.offsetAt c.first ∧
      c.stop = b.leaders[k + 1]?.getD b.instructions.length := by
  rw [getElem?_blocks] at h
  obtain ⟨first, hf, rfl⟩ := Option.map_eq_some_iff.mp h
  exact ⟨hf, rfl, rfl⟩

theorem exists_block_of_leader {i : Nat} (h : i ∈ b.leaders) :
    ∃ (k : Nat) (c : CodeBlock), b.blocks[k]? = some c ∧ c.first = i := by
  obtain ⟨k, hk⟩ := List.getElem?_of_mem h
  have hb := getElem?_blocks b k
  rw [hk] at hb
  exact ⟨k, _, hb, rfl⟩

theorem first_lt_length (h : b.blocks[k]? = some c) : c.first < b.instructions.length :=
  (mem_leaders.mp (List.mem_of_getElem? (leaders_of_block h).1)).1

theorem first_lt_stop (h : b.blocks[k]? = some c) : c.first < c.stop := by
  obtain ⟨hf, _, hs⟩ := leaders_of_block h
  rw [hs]
  cases hn : b.leaders[k + 1]? with
  | none => exact first_lt_length h
  | some next => exact leaders_lt hf hn (Nat.lt_succ_self k)

theorem stop_le_length (h : b.blocks[k]? = some c) : c.stop ≤ b.instructions.length := by
  rw [(leaders_of_block h).2.2]
  cases hn : b.leaders[k + 1]? with
  | none => exact Nat.le_refl _
  | some next => exact Nat.le_of_lt (mem_leaders.mp (List.mem_of_getElem? hn)).1

theorem stop_mem_leaders (h : b.blocks[k]? = some c) (hlt : c.stop < b.instructions.length) :
    c.stop ∈ b.leaders := by
  have hs := (leaders_of_block h).2.2
  cases hn : b.leaders[k + 1]? with
  | none =>
      rw [hn] at hs
      exact absurd hlt (hs ▸ Nat.lt_irrefl _)
  | some next =>
      rw [hn] at hs
      rw [hs]
      exact List.mem_of_getElem? hn

/-- Every instruction lies in a block. -/
theorem exists_block_of_index {i : Nat} (hi : i < b.instructions.length) :
    ∃ (k : Nat) (c : CodeBlock), b.blocks[k]? = some c ∧ c.first ≤ i ∧ i < c.stop := by
  have hleader : ∀ {i : Nat}, i ∈ b.leaders →
      ∃ (k : Nat) (c : CodeBlock), b.blocks[k]? = some c ∧ c.first ≤ i ∧ i < c.stop := by
    intro i hi
    obtain ⟨k, c, hc, rfl⟩ := exists_block_of_leader hi
    exact ⟨k, c, hc, Nat.le_refl _, first_lt_stop hc⟩
  induction i with
  | zero => exact hleader (mem_leaders.mpr ⟨hi, rfl⟩)
  | succ i ih =>
      obtain ⟨k, c, hc, hf, hs⟩ := ih (by omega)
      rcases Nat.lt_or_eq_of_le (Nat.succ_le_of_lt hs) with hlt | heq
      · exact ⟨k, c, hc, by omega, hlt⟩
      · -- the block of the instruction before ends here
        have hstop : c.stop = i + 1 := heq.symm
        exact hleader (hstop ▸ stop_mem_leaders hc (hstop ▸ hi))

/-- No block starts strictly inside another. -/
theorem not_mem_leaders_of_inside {i : Nat} (h : b.blocks[k]? = some c) (hf : c.first < i)
    (hs : i < c.stop) : i ∉ b.leaders := by
  intro hi
  obtain ⟨j, hj⟩ := List.getElem?_of_mem hi
  obtain ⟨hk, _, hstop⟩ := leaders_of_block h
  -- the number of the leader lies strictly between two consecutive numbers
  rcases Nat.lt_trichotomy j k with hjk | rfl | hjk
  · exact absurd (leaders_lt hj hk hjk) (Nat.lt_asymm hf)
  · obtain rfl := Option.some.inj (hj.symm.trans hk)
    exact absurd hf (Nat.lt_irrefl _)
  · cases hn : b.leaders[k + 1]? with
    | none =>
        have h₁ := List.getElem?_eq_none_iff.mp hn
        have h₂ := (List.getElem?_eq_some_iff.mp hj).1
        omega
    | some next =>
        rw [hn, Option.getD_some] at hstop
        rcases Nat.lt_or_eq_of_le hjk with hlt | rfl
        · have := leaders_lt hn hj hlt
          omega
        · obtain rfl := Option.some.inj (hj.symm.trans hn)
          omega

/-- **Inside a block every instruction passes control to the next.** -/
theorem inner_sequential {i : Nat} {x : Instruction} (h : b.blocks[k]? = some c)
    (hf : c.first ≤ i) (hs : i + 1 < c.stop) (hx : b.instructions[i]? = some x) :
    x.opcode.flow.endsBlock = false := by
  have hn := not_mem_leaders_of_inside h (Nat.lt_succ_of_le hf) hs
  rw [mem_leaders, not_and] at hn
  have hlt : i + 1 < b.instructions.length := Nat.lt_of_lt_of_le hs (stop_le_length h)
  have hl := hn hlt
  simp only [isLeader, endsBlockAt, hx, Bool.or_eq_true, not_or] at hl
  simpa using hl.2

end Body

/-! ## 4. The graph -/

namespace Body

/-- The blocks with their numbers. -/
def numbered (b : Body) : List (Nat × CodeBlock) := b.blocks.zipIdx.map fun (c, k) => (k + 1, c)

/-- The block that starts at an offset. -/
def starts (b : Body) : Assoc Nat Nat := b.numbered.foldl (fun m (k, c) => m.insert c.start k) []

/-- The number of the exit. -/
def exitNumber (b : Body) : Nat := b.blocks.length + 1

variable {b : Body}

theorem mem_numbered {k : Nat} {c : CodeBlock} :
    (k, c) ∈ b.numbered ↔ ∃ j, k = j + 1 ∧ b.blocks[j]? = some c := by
  unfold numbered
  simp only [List.mem_map, Prod.mk.injEq, Prod.exists, List.mem_zipIdx_iff_getElem?]
  constructor
  · rintro ⟨c', j, hj, rfl, rfl⟩
    exact ⟨j, rfl, hj⟩
  · rintro ⟨j, rfl, hj⟩
    exact ⟨c, j, hj, rfl, rfl⟩

theorem get?_foldl_starts {l : List (Nat × CodeBlock)} {m : Assoc Nat Nat} {t k : Nat}
    (h : (l.foldl (fun m (k, c) => m.insert c.start k) m).get? t = some k) :
    (∃ c, (k, c) ∈ l ∧ c.start = t) ∨ m.get? t = some k := by
  induction l generalizing m with
  | nil => exact Or.inr h
  | cons e l ih =>
      obtain ⟨j, c⟩ := e
      rcases ih h with ⟨c', hc', ht⟩ | h
      · exact Or.inl ⟨c', List.mem_cons_of_mem _ hc', ht⟩
      · by_cases heq : t = c.start
        · subst heq
          rw [Assoc.get?_insert_self] at h
          obtain rfl := Option.some.inj h
          exact Or.inl ⟨c, List.mem_cons_self, rfl⟩
        · rw [Assoc.get?_insert_of_ne _ _ heq] at h
          exact Or.inr h

theorem isSome_get?_foldl_starts {l : List (Nat × CodeBlock)} {m : Assoc Nat Nat} {t : Nat}
    (h : (∃ e ∈ l, e.2.start = t) ∨ (m.get? t).isSome = true) :
    ((l.foldl (fun m (k, c) => m.insert c.start k) m).get? t).isSome = true := by
  induction l generalizing m with
  | nil =>
      rcases h with ⟨e, he, _⟩ | h
      · cases he
      · exact h
  | cons f l ih =>
      obtain ⟨j, c⟩ := f
      refine ih ?_
      by_cases heq : t = c.start
      · subst heq
        rw [Assoc.get?_insert_self]
        exact Or.inr rfl
      · rw [Assoc.get?_insert_of_ne _ _ heq]
        rcases h with ⟨e, he, ht⟩ | h
        · rcases List.mem_cons.mp he with rfl | he
          · exact absurd ht.symm heq
          · exact Or.inl ⟨e, he, ht⟩
        · exact Or.inr h

/-- A block that is found at the offset of an instruction starts with this instruction. -/
theorem Increasing.block_of_starts (hb : b.Increasing) {i n : Nat} {x : Instruction}
    (hx : b.instructions[i]? = some x) (h : b.starts.get? x.offset = some n) :
    ∃ (k : Nat) (c : CodeBlock), n = k + 1 ∧ b.blocks[k]? = some c ∧ c.first = i := by
  rcases get?_foldl_starts h with ⟨c, hc, hs⟩ | h
  · obtain ⟨k, rfl, hk⟩ := mem_numbered.mp hc
    refine ⟨k, c, rfl, hk, ?_⟩
    obtain ⟨y, hy⟩ : ∃ y, b.instructions[c.first]? = some y :=
      ⟨_, List.getElem?_eq_getElem (first_lt_length hk)⟩
    refine hb.index_eq hy hx ?_
    rw [← hs, (leaders_of_block hk).2.1, offsetAt_of_getElem? hy]
  · cases h

theorem exists_starts_of_leader {i : Nat} {x : Instruction} (hi : i ∈ b.leaders)
    (hx : b.instructions[i]? = some x) : ∃ n, b.starts.get? x.offset = some n := by
  obtain ⟨k, c, hk, rfl⟩ := exists_block_of_leader hi
  refine Option.isSome_iff_exists.mp (isSome_get?_foldl_starts (Or.inl ⟨(k + 1, c), ?_, ?_⟩))
  · exact mem_numbered.mpr ⟨k, rfl, hk⟩
  · rw [(leaders_of_block hk).2.1, offsetAt_of_getElem? hx]

end Body

namespace FlowGraph

/-- Nodes are the same, no edge is lost, and new edges connect nodes. -/
structure Extends (g g' : Digraph Block EdgeKind) : Prop where
  nodes : g'.nodes = g.nodes
  edges : ∀ e ∈ g.edges, e ∈ g'.edges
  bounded : ∀ e ∈ g'.edges, e ∈ g.edges ∨ e.source < g.nodeCount ∧ e.target < g.nodeCount

theorem Extends.refl (g : Digraph Block EdgeKind) : Extends g g :=
  ⟨rfl, fun _ h => h, fun _ h => Or.inl h⟩

theorem Extends.trans {g h i : Digraph Block EdgeKind} (h₁ : Extends g h) (h₂ : Extends h i) :
    Extends g i := by
  refine ⟨h₂.nodes.trans h₁.nodes, fun e he => h₂.edges e (h₁.edges e he), fun e he => ?_⟩
  rcases h₂.bounded e he with he | he
  · exact h₁.bounded e he
  · rw [Digraph.nodeCount, h₁.nodes] at he
    exact Or.inr he

theorem Extends.successors {g g' : Digraph Block EdgeKind} (h : Extends g g') {u v : Nat}
    (hv : v ∈ g.successors u) : v ∈ g'.successors u := by
  rw [Digraph.mem_successors] at hv ⊢
  obtain ⟨e, he, hs, ht⟩ := hv
  exact ⟨e, h.edges e he, hs, ht⟩

theorem link_inv {g g' : Digraph Block EdgeKind} {u v : Nat} {kind : EdgeKind}
    (h : link g u v kind = .ok g') : Extends g g' ∧ v ∈ g'.successors u := by
  unfold link Digraph.addEdge at h
  by_cases hu : g.nodeCount ≤ u
  · simp [hu] at h
  by_cases hv : g.nodeCount ≤ v
  · simp [hu, hv] at h
  by_cases he : g.hasEdge u v = true
  · simp only [hu, hv, he, if_true, if_false, Except.ok.injEq] at h
    subst h
    refine ⟨.refl g, ?_⟩
    obtain ⟨e, hm, hst⟩ := List.any_eq_true.mp he
    rw [Bool.and_eq_true, beq_iff_eq, beq_iff_eq] at hst
    exact Digraph.mem_successors.mpr ⟨e, hm, hst.1, hst.2⟩
  · simp only [hu, hv, he, Bool.false_eq_true, if_false, Except.ok.injEq] at h
    subst h
    refine ⟨⟨rfl, fun e he => List.mem_append_left _ he, fun e he => ?_⟩, ?_⟩
    · rcases List.mem_append.mp he with he | he
      · exact Or.inl he
      · rw [List.mem_singleton.mp he]
        exact Or.inr ⟨Nat.lt_of_not_le hu, Nat.lt_of_not_le hv⟩
    · exact Digraph.mem_successors.mpr ⟨_, List.mem_append_right _ List.mem_cons_self, rfl, rfl⟩

theorem ok_of_bind {ε α β : Type} {x : Except ε α} {f : α → Except ε β} {y : β}
    (h : x >>= f = .ok y) : ∃ a, x = .ok a ∧ f a = .ok y := by
  cases x with
  | error e => cases h
  | ok a => exact ⟨a, rfl, h⟩

/-- Folding a step that only extends the graph extends the graph, and what each step adds is
    there at the end. -/
theorem foldlM_inv {α : Type} {f : Digraph Block EdgeKind → α → Except FlowFault (Digraph Block EdgeKind)}
    {A : α → Digraph Block EdgeKind → Prop}
    (hf : ∀ g a g', f g a = .ok g' → Extends g g' ∧ A a g')
    (hA : ∀ a g g', Extends g g' → A a g → A a g')
    {l : List α} {g g' : Digraph Block EdgeKind} (h : l.foldlM f g = .ok g') :
    Extends g g' ∧ ∀ a ∈ l, A a g' := by
  induction l generalizing g with
  | nil =>
      obtain rfl := Except.ok.inj h
      exact ⟨.refl _, fun _ h => absurd h List.not_mem_nil⟩
  | cons a l ih =>
      rw [List.foldlM_cons] at h
      obtain ⟨m, hm, h⟩ := ok_of_bind h
      obtain ⟨hext, ha⟩ := hf g a m hm
      obtain ⟨hext', hl⟩ := ih h
      refine ⟨hext.trans hext', fun x hx => ?_⟩
      rcases List.mem_cons.mp hx with rfl | hx
      · exact hA _ _ _ hext' ha
      · exact hl x hx

/-- The node after a block. -/
def nextNumber (b : Body) (c : CodeBlock) : Nat :=
  match b.instructions[c.stop]? with
  | some i => (b.starts.get? i.offset).getD b.exitNumber
  | none => b.exitNumber

/-- The block at a target of an instruction. -/
def targetNumber (b : Body) (last : Instruction) (t : Nat) : Except FlowFault Nat :=
  match b.starts.get? t with
  | some n => .ok n
  | none => .error (.invalidTarget last.offset t)

theorem linkBlock_inv {b : Body} {g g' : Digraph Block EdgeKind} {n : Nat} {c : CodeBlock}
    (h : linkBlock b b.starts b.exitNumber g (n, c) = .ok g') :
    Extends g g' ∧ ∀ last, b.instructions[c.stop - 1]? = some last →
      ∃ exits, last.exits (nextNumber b c) b.exitNumber (targetNumber b last) = .ok exits ∧
        ∀ e ∈ exits, e.1 ∈ g'.successors n := by
  unfold linkBlock at h
  cases hl : b.instructions[c.stop - 1]? with
  | none =>
      rw [hl] at h
      obtain rfl := Except.ok.inj h
      exact ⟨.refl g, fun _ hlast => by cases hlast⟩
  | some last =>
      rw [hl] at h
      obtain ⟨exits, hexits, h⟩ := ok_of_bind h
      obtain ⟨hext, hall⟩ := foldlM_inv (A := fun (e : Nat × EdgeKind) g' => e.1 ∈ g'.successors n)
        (fun _ _ _ h => link_inv h) (fun _ _ _ hext h => hext.successors h) h
      refine ⟨hext, fun last' hlast => ?_⟩
      obtain rfl := Option.some.inj hlast
      exact ⟨exits, hexits, hall⟩

/-- **What the graph of a body consists of.** -/
structure Drawn (b : Body) (g : FlowGraph) : Prop where
  nodes : g.graph.nodes = .entry :: b.blocks.map .code ++ [.exit]
  handlers : g.handlers = b.numbered.filterMap fun (k, c) => c.handler.map fun h => (k, h)
  bounded : ∀ e ∈ g.graph.edges, e.source < g.blockCount ∧ e.target < g.blockCount
  entry : 1 ∈ g.graph.successors 0
  exits : ∀ (k : Nat) (c : CodeBlock), b.blocks[k]? = some c → ∀ last,
    b.instructions[c.stop - 1]? = some last →
    ∃ exits, last.exits (nextNumber b c) b.exitNumber (targetNumber b last) = .ok exits ∧
      ∀ e ∈ exits, e.1 ∈ g.graph.successors (k + 1)

theorem ofBody_inv {b : Body} {g : FlowGraph} (h : ofBody b = .ok g) :
    b.instructions ≠ [] ∧ b.badJump? = none ∧ Drawn b g := by
  unfold ofBody at h
  split at h
  · cases h
  · next hne =>
    split at h
    · cases h
    · next hj =>
      obtain ⟨g₁, h₁, h⟩ := ok_of_bind h
      obtain ⟨g₂, h₂, h⟩ := ok_of_bind h
      obtain rfl := Except.ok.inj h
      obtain ⟨hext₁, he⟩ := link_inv h₁
      obtain ⟨hext₂, hall⟩ := foldlM_inv
        (A := fun (e : Nat × CodeBlock) g' => ∀ last, b.instructions[e.2.stop - 1]? = some last →
          ∃ exits, last.exits (nextNumber b e.2) b.exitNumber (targetNumber b last) = .ok exits ∧
            ∀ x ∈ exits, x.1 ∈ g'.successors e.1)
        (fun _ _ _ h => linkBlock_inv h)
        (fun _ _ _ hext h last hlast =>
          (h last hlast).imp fun _ hx => ⟨hx.1, fun e he => hext.successors (hx.2 e he)⟩) h₂
      have hext := hext₁.trans hext₂
      refine ⟨fun hnil => hne (by rw [hnil]; rfl), hj, ?_⟩
      refine ⟨hext.nodes, rfl, fun e hm => ?_, hext₂.successors he, fun k c hk last hlast => ?_⟩
      · rcases hext.bounded e hm with hm | hm
        · cases hm
        · show e.source < g₂.nodeCount ∧ e.target < g₂.nodeCount
          rw [Digraph.nodeCount, hext.nodes]
          exact hm
      · exact hall (k + 1, c) (Body.mem_numbered.mpr ⟨k, rfl, hk⟩) last hlast

/-! ## 5. Where control goes -/

theorem mem_of_mapM {α β ε : Type} {f : α → Except ε β} {l : List α} {r : List β}
    (h : l.mapM f = .ok r) {a : α} (ha : a ∈ l) : ∃ y, f a = .ok y ∧ y ∈ r := by
  induction l generalizing r with
  | nil => cases ha
  | cons x l ih =>
      rw [List.mapM_cons] at h
      obtain ⟨y, hy, h⟩ := ok_of_bind h
      obtain ⟨ys, hys, h⟩ := ok_of_bind h
      obtain rfl := Except.ok.inj h
      rcases List.mem_cons.mp ha with rfl | ha
      · exact ⟨y, hy, List.mem_cons_self⟩
      · obtain ⟨z, hz, hm⟩ := ih hys ha
        exact ⟨z, hz, List.mem_cons_of_mem _ hm⟩

theorem next_mem_exits {last : Instruction} {next exit : Nat} {target : Nat → Except FlowFault Nat}
    {exits : List (Nat × EdgeKind)} (h : last.exits next exit target = .ok exits)
    (hf : last.opcode.flow.falls = true) : ∃ kind, (next, kind) ∈ exits := by
  unfold Instruction.exits at h
  cases hflow : last.opcode.flow <;> rw [hflow] at h hf <;> try cases hf
  case sequential => exact ⟨_, Except.ok.inj h ▸ List.mem_cons_self⟩
  case call => exact ⟨_, Except.ok.inj h ▸ List.mem_cons_self⟩
  case modifier => exact ⟨_, Except.ok.inj h ▸ List.mem_cons_self⟩
  case conditionalBranch =>
      obtain ⟨taken, _, h⟩ := ok_of_bind h
      exact ⟨_, Except.ok.inj h ▸ List.mem_append_right _ List.mem_cons_self⟩
  case switch =>
      obtain ⟨cases', _, h⟩ := ok_of_bind h
      exact ⟨_, Except.ok.inj h ▸ List.mem_append_right _ List.mem_cons_self⟩

theorem target_mem_exits {last : Instruction} {next exit : Nat}
    {target : Nat → Except FlowFault Nat} {exits : List (Nat × EdgeKind)}
    (h : last.exits next exit target = .ok exits) (hf : last.opcode.flow.jumps = true) {t : Nat}
    (ht : t ∈ last.targets) : ∃ n kind, target t = .ok n ∧ (n, kind) ∈ exits := by
  have hone : ∀ {kind : EdgeKind} {r : List (Nat × EdgeKind)},
      (last.targets.mapM fun t => return (← target t, kind)) = .ok r →
      ∃ n, target t = .ok n ∧ (n, kind) ∈ r := by
    intro kind r hr
    obtain ⟨y, hy, hm⟩ := mem_of_mapM hr ht
    obtain ⟨n, hn, hy⟩ := ok_of_bind hy
    obtain rfl := Except.ok.inj hy
    exact ⟨n, hn, hm⟩
  unfold Instruction.exits at h
  cases hflow : last.opcode.flow <;> rw [hflow] at h hf <;> try cases hf
  case unconditionalBranch =>
      obtain ⟨n, hn, hm⟩ := hone h
      exact ⟨n, _, hn, hm⟩
  case leave =>
      obtain ⟨n, hn, hm⟩ := hone h
      exact ⟨n, _, hn, hm⟩
  case conditionalBranch =>
      obtain ⟨taken, htaken, h⟩ := ok_of_bind h
      obtain ⟨n, hn, hm⟩ := hone htaken
      exact ⟨n, _, hn, Except.ok.inj h ▸ List.mem_append_left _ hm⟩
  case switch =>
      obtain ⟨rows, hrows, h⟩ := ok_of_bind h
      obtain ⟨i, hi⟩ := List.getElem?_of_mem ht
      have hz : (t, i) ∈ last.targets.zipIdx := List.mem_zipIdx_iff_getElem?.mpr hi
      obtain ⟨y, hy, hm⟩ := mem_of_mapM hrows hz
      obtain ⟨n, hn, hy⟩ := ok_of_bind hy
      obtain rfl := Except.ok.inj hy
      exact ⟨n, _, hn, Except.ok.inj h ▸ List.mem_append_left _ hm⟩

variable {b : Body} {g : FlowGraph} {k : Nat} {c : CodeBlock} {last : Instruction}

/-- **Control that runs on past a block** follows an edge to the block that starts there. -/
theorem Drawn.edge_of_falls (hd : Drawn b g) (hb : b.Increasing) (hc : b.blocks[k]? = some c)
    (hl : b.instructions[c.stop - 1]? = some last) (hf : last.opcode.flow.falls = true)
    (hlt : c.stop < b.instructions.length) :
    ∃ (k' : Nat) (c' : CodeBlock), b.blocks[k']? = some c' ∧ c'.first = c.stop ∧
      k' + 1 ∈ g.graph.successors (k + 1) := by
  obtain ⟨exits, hexits, hall⟩ := hd.exits k c hc last hl
  obtain ⟨kind, hm⟩ := next_mem_exits hexits hf
  obtain ⟨x, hx⟩ : ∃ x, b.instructions[c.stop]? = some x := ⟨_, List.getElem?_eq_getElem hlt⟩
  obtain ⟨n, hn⟩ := Body.exists_starts_of_leader (Body.stop_mem_leaders hc hlt) hx
  have hnext : nextNumber b c = n := by
    unfold nextNumber
    simp only [hx, hn, Option.getD_some]
  obtain ⟨k', c', rfl, hk', hfirst⟩ := hb.block_of_starts hx hn
  exact ⟨k', c', hk', hfirst, hnext ▸ hall _ hm⟩

/-- **Control that jumps out of a block** follows an edge to the block that starts there. -/
theorem Drawn.edge_of_jumps (hd : Drawn b g) (hb : b.Increasing) (hc : b.blocks[k]? = some c)
    (hl : b.instructions[c.stop - 1]? = some last) (hf : last.opcode.flow.jumps = true) {j : Nat}
    {x : Instruction} (hx : b.instructions[j]? = some x) (ht : x.offset ∈ last.targets) :
    ∃ (k' : Nat) (c' : CodeBlock), b.blocks[k']? = some c' ∧ c'.first = j ∧
      k' + 1 ∈ g.graph.successors (k + 1) := by
  obtain ⟨exits, hexits, hall⟩ := hd.exits k c hc last hl
  obtain ⟨n, kind, hn, hm⟩ := target_mem_exits hexits hf ht
  have hn : b.starts.get? x.offset = some n := by
    unfold targetNumber at hn
    split at hn
    · next m hstart =>
      obtain rfl := Except.ok.inj hn
      exact hstart
    · cases hn
  obtain ⟨k', c', rfl, hk', hfirst⟩ := hb.block_of_starts hx hn
  exact ⟨k', c', hk', hfirst, hall _ hm⟩

theorem Drawn.block?_succ (hd : Drawn b g) (hc : b.blocks[k]? = some c) :
    g.block? (k + 1) = some (.code c) := by
  obtain ⟨hk, rfl⟩ := List.getElem?_eq_some_iff.mp hc
  unfold block? Digraph.node?
  rw [hd.nodes, List.cons_append, List.getElem?_cons_succ,
    List.getElem?_append_left (by rw [List.length_map]; exact hk), List.getElem?_map,
    List.getElem?_eq_getElem hk]
  rfl

/-- A node that holds code is a block of the body. -/
theorem Drawn.block_of_block? (hd : Drawn b g) {n : Nat} (h : g.block? n = some (.code c)) :
    ∃ k, n = k + 1 ∧ b.blocks[k]? = some c := by
  unfold block? Digraph.node? at h
  rw [hd.nodes] at h
  cases n with
  | zero => cases h
  | succ k =>
      refine ⟨k, rfl, ?_⟩
      rw [List.cons_append, List.getElem?_cons_succ] at h
      rcases Nat.lt_trichotomy k b.blocks.length with hk | rfl | hk
      · rw [List.getElem?_append_left (by rw [List.length_map]; exact hk), List.getElem?_map] at h
        obtain ⟨c', hc', h⟩ := Option.map_eq_some_iff.mp h
        rw [hc', Block.code.inj h]
      · rw [List.getElem?_append_right (Nat.le_of_eq (List.length_map _))] at h
        simp at h
      · rw [List.getElem?_eq_none (by simp; omega)] at h
        cases h

theorem Drawn.blockCount_eq (hd : Drawn b g) : g.blockCount = b.blocks.length + 2 := by
  unfold blockCount Digraph.nodeCount
  rw [hd.nodes]
  simp

theorem Drawn.succ_lt (hd : Drawn b g) (hc : b.blocks[k]? = some c) : k + 1 < g.blockCount := by
  have := (List.getElem?_eq_some_iff.mp hc).1
  rw [hd.blockCount_eq]
  omega

end FlowGraph

end ReflectionFlow

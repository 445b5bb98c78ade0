/-
  File:      ReflectionFlow/Proofs/Flow/Worklist.lean
  Subject:   Runs of the worklist iteration, and what every run keeps.

  A run starts with every block waiting and visits waiting blocks one after the other.  Which
  of them comes next does not matter for anything shown here, so runs are a relation that
  leaves the choice open; the iteration itself is the run that always takes the first.

  * `Visited`            what one visit can do: pass over a block, confirm its output, change it
  * `Reachable`          the states of all runs
  * `Reachable.of_solve` an answer of the iteration is a reachable state without waiting blocks
  * `Reachable.output_of_input`  a block that has been entered has an output
  * `Invariant`          conditions on inputs and outputs that one visit keeps, block by block;
                         `Invariant.reachable` and `Invariant.observed_reachable` are the
                         inductions over runs
  * `Reachable.settled`  a block that does not wait has seen the outputs of its predecessors as
                         they are now
  * `observed_solve`     what every transfer keeps, also one that fails
  * `Recording`          what belongs to the last visit of each block
  * `solve_congr`        two runs whose observations correspond
-/
import Mathlib.Data.List.Basic
import ReflectionFlow.Flow.Fixpoint

namespace ReflectionFlow

open MeetLattice

variable {L σ ε : Type} [MeetLattice L]

/-! ## 1. One visit -/

theorem mem_enqueue {queue blocks : List Nat} {b : Nat} :
    b ∈ enqueue queue blocks ↔ b ∈ queue ∨ b ∈ blocks := by
  unfold enqueue
  induction blocks generalizing queue with
  | nil => simp
  | cons c rest ih =>
      rw [List.foldl_cons, ih]
      by_cases hc : c ∈ queue
      · simp only [List.contains_iff_mem, hc, if_true, List.mem_cons]
        constructor
        · exact Or.imp_right Or.inr
        · rintro (h | rfl | h)
          · exact Or.inl h
          · exact Or.inl hc
          · exact Or.inr h
      · simp only [List.contains_iff_mem, hc, if_false, List.mem_append, List.mem_cons,
          List.not_mem_nil, or_false, or_assoc]

/-- **What a visit can do** to the states before it. -/
inductive Visited (g : FlowGraph) (a : Analysis L σ ε) (it : Iteration L σ) (block : Nat) :
    Iteration L σ → Prop where
  /-- Nothing has reached the block. -/
  | passed (htop : isTop (a.inputAt g it.outputs block) = true) :
      Visited g a it block { it with visits := it.visits + 1 }
  /-- The output is what it was. -/
  | confirmed (output : L) (observed : σ)
      (hin : isTop (a.inputAt g it.outputs block) = false)
      (ht : a.transfer block (a.inputAt g it.outputs block) it.observed = (.ok output, observed))
      (hout : it.outputs[block]? = some output) :
      Visited g a it block
        { it with
          visits := it.visits + 1
          inputs := it.inputs.set block (a.inputAt g it.outputs block)
          observed := observed }
  /-- The output is new, and the successors wait. -/
  | changed (output : L) (observed : σ)
      (hin : isTop (a.inputAt g it.outputs block) = false)
      (ht : a.transfer block (a.inputAt g it.outputs block) it.observed = (.ok output, observed))
      (hout : it.outputs[block]? ≠ some output) :
      Visited g a it block
        { visits := it.visits + 1
          inputs := it.inputs.set block (a.inputAt g it.outputs block)
          outputs := it.outputs.set block output
          queue := enqueue it.queue (g.graph.successors block)
          observed := observed }

theorem Visited.of_visit [DecidableEq L] {g : FlowGraph} {a : Analysis L σ ε} {it it' : Iteration L σ}
    {block : Nat} {observed : σ} (h : it.visit g a block = (.ok it', observed)) :
    Visited g a it block it' := by
  unfold Iteration.visit at h
  by_cases htop : isTop (a.inputAt g it.outputs block) = true
  · simp only [htop, if_true, Prod.mk.injEq, Except.ok.injEq] at h
    obtain ⟨rfl, rfl⟩ := h
    exact .passed htop
  · have hin : isTop (a.inputAt g it.outputs block) = false := by simpa using htop
    simp only [hin, Bool.false_eq_true, if_false] at h
    split at h
    · cases h
    · rename_i output s ht
      by_cases hout : it.outputs[block]? = some output
      · simp only [hout, if_true, Prod.mk.injEq, Except.ok.injEq] at h
        obtain ⟨rfl, rfl⟩ := h
        exact .confirmed output _ hin ht hout
      · simp only [hout, if_false, Prod.mk.injEq, Except.ok.injEq] at h
        obtain ⟨rfl, rfl⟩ := h
        exact .changed output _ hin ht hout

/-- The boundary states listed for a block. -/
def Analysis.statesAt (a : Analysis L σ ε) (b : Nat) : List L :=
  (a.boundary.filter (·.1 == b)).map Prod.snd

theorem Analysis.boundaryAt_eq (a : Analysis L σ ε) (b : Nat) :
    a.boundaryAt b = match a.statesAt b with
      | [] => none
      | x :: rest => some (rest.foldl meet x) := by
  unfold Analysis.boundaryAt Analysis.statesAt
  cases a.boundary.filter (·.1 == b) with
  | nil => rfl
  | cons e l =>
      show l.foldl _ (some e.2) = some ((l.map Prod.snd).foldl meet e.2)
      generalize e.2 = x
      induction l generalizing x with
      | nil => rfl
      | cons e l ih => exact ih (meet x e.2)

/-- The input of a block reads the outputs of its predecessors only. -/
theorem Analysis.inputAt_set (a : Analysis L σ ε) (g : FlowGraph) (outputs : List L)
    {p b : Nat} (hp : p ∉ g.graph.predecessors b) (x : L) :
    a.inputAt g (outputs.set p x) b = a.inputAt g outputs b := by
  unfold Analysis.inputAt
  refine List.foldl_ext _ _ _ fun acc q hq => ?_
  have hne : p ≠ q := fun e => hp (e ▸ hq)
  rw [List.getElem?_set_ne hne]

theorem mem_predecessors_iff_mem_successors {g : FlowGraph} {p b : Nat} :
    p ∈ g.graph.predecessors b ↔ b ∈ g.graph.successors p := by
  rw [Digraph.mem_predecessors, Digraph.mem_successors]
  constructor
  · rintro ⟨e, he, h₁, h₂⟩
    exact ⟨e, he, h₂, h₁⟩
  · rintro ⟨e, he, h₁, h₂⟩
    exact ⟨e, he, h₂, h₁⟩

/-! ## 2. Runs -/

/-- **The states of all runs**: every block waits at the start, in any order, and any waiting
    block may be visited next. -/
inductive Reachable (g : FlowGraph) (a : Analysis L σ ε) (observed : σ) :
    Iteration L σ → Prop where
  | start (queue : List Nat) (hall : ∀ b < g.blockCount, b ∈ queue) :
      Reachable g a observed { (Iteration.start g observed : Iteration L σ) with queue := queue }
  | visit {it it' : Iteration L σ} (before after : List Nat) (block : Nat)
      (h : Reachable g a observed it) (hq : it.queue = before ++ block :: after)
      (hv : Visited g a { it with queue := before ++ after } block it') :
      Reachable g a observed it'

section Runs

variable {g : FlowGraph} {a : Analysis L σ ε} {observed : σ}

theorem mem_firstQueue (g : FlowGraph) : ∀ b < g.blockCount, b ∈ firstQueue g := by
  intro b hb
  unfold firstQueue
  rw [mem_enqueue]
  exact Or.inr (List.mem_range.mpr hb)

theorem Reachable.of_iterate [DecidableEq L] {budget fuel : Nat} {it : Iteration L σ} {solution : Solution L}
    {final : σ} (h : Reachable g a observed it)
    (hi : iterate g a budget fuel it = (.ok solution, final)) :
    ∃ it', Reachable g a observed it' ∧ it'.queue = [] ∧ it'.inputs = solution.inputs ∧
      it'.outputs = solution.outputs ∧ it'.observed = final := by
  induction fuel generalizing it with
  | zero =>
      unfold iterate at hi
      split at hi
      · next hq =>
        simp only [Prod.mk.injEq, Except.ok.injEq] at hi
        obtain ⟨rfl, rfl⟩ := hi
        exact ⟨it, h, hq, rfl, rfl, rfl⟩
      · cases hi
  | succ fuel ih =>
      unfold iterate at hi
      split at hi
      · next hq =>
        simp only [Prod.mk.injEq, Except.ok.injEq] at hi
        obtain ⟨rfl, rfl⟩ := hi
        exact ⟨it, h, hq, rfl, rfl, rfl⟩
      · next block rest hq =>
        simp only at hi
        split at hi
        · cases hi
        · next it' s hv =>
          exact ih (.visit [] rest block h hq (Visited.of_visit hv)) hi

/-- **An answer of the iteration is the end of a run.** -/
theorem Reachable.of_solve [DecidableEq L] {budget : Nat} {solution : Solution L} {final : σ}
    (h : solve g a budget observed = (.ok solution, final)) :
    ∃ it, Reachable g a observed it ∧ it.queue = [] ∧ it.inputs = solution.inputs ∧
      it.outputs = solution.outputs ∧ it.observed = final :=
  Reachable.of_iterate (.start (firstQueue g) (mem_firstQueue g)) h

theorem Reachable.length {it : Iteration L σ} (h : Reachable g a observed it) :
    it.inputs.length = g.blockCount ∧ it.outputs.length = g.blockCount := by
  induction h with
  | start => exact ⟨List.length_replicate, List.length_replicate⟩
  | visit before after block _ _ hv ih =>
      cases hv with
      | passed => exact ih
      | confirmed => exact ⟨by rw [List.length_set]; exact ih.1, ih.2⟩
      | changed => exact ⟨by rw [List.length_set]; exact ih.1, by rw [List.length_set]; exact ih.2⟩

/-- **A block that has been entered has the output of a transfer.** -/
theorem Reachable.output_of_input {T : L → Prop}
    (hT : ∀ b x y s s', a.transfer b x s = (.ok y, s') → T y) (htop : isTop (top : L) = true)
    {it : Iteration L σ} (h : Reachable g a observed it) {b : Nat} {x : L}
    (hx : it.inputs[b]? = some x) (hin : isTop x = false) : ∃ y, it.outputs[b]? = some y ∧ T y := by
  induction h generalizing x with
  | start =>
      have hx : (List.replicate g.blockCount (top : L))[b]? = some x := hx
      obtain ⟨_, rfl⟩ := List.mem_replicate.mp (List.mem_of_getElem? hx)
      rw [htop] at hin
      cases hin
  | @visit it it' before after block h _ hv ih =>
      by_cases hb : block = b
      · subst hb
        cases hv with
        | passed => exact ih hx hin
        | confirmed output s _ ht hout => exact ⟨output, hout, hT _ _ _ _ _ ht⟩
        | changed output s _ ht _ =>
            have hlt : block < it.outputs.length := by
              have := (List.getElem?_eq_some_iff.mp hx).1
              rw [List.length_set] at this
              rw [h.length.2, ← h.length.1]
              exact this
            exact ⟨output, List.getElem?_set_self hlt, hT _ _ _ _ _ ht⟩
      · cases hv with
        | passed => exact ih hx hin
        | confirmed => exact ih ((List.getElem?_set_ne hb).symm.trans hx) hin
        | changed =>
            obtain ⟨y, hy, hTy⟩ := ih ((List.getElem?_set_ne hb).symm.trans hx) hin
            exact ⟨y, (List.getElem?_set_ne hb).trans hy, hTy⟩

end Runs

/-! ## 3. Invariants -/

/-- Conditions on the input and on the output of each block under which computed inputs are
    admissible: an output must be admissible as an input across every edge. -/
structure Admissible (g : FlowGraph) (a : Analysis L σ ε) (In Out : Nat → L → Prop) : Prop where
  topIn : ∀ b, In b top
  topOut : ∀ b, Out b top
  meet : ∀ b x y, In b x → In b y → In b (meet x y)
  boundary : ∀ e ∈ a.boundary, In e.1 e.2
  edge : ∀ e ∈ g.graph.edges, ∀ x, Out e.source x → In e.target x

/-- **Conditions that one visit keeps**: on the input of each block, on its output, and on what
    the analysis has observed. -/
structure Invariant (g : FlowGraph) (a : Analysis L σ ε) (In Out : Nat → L → Prop)
    (Obs : σ → Prop) : Prop extends Admissible g a In Out where
  transfer : ∀ b < g.blockCount, ∀ x y s s', In b x → isTop x = false → Obs s →
    a.transfer b x s = (.ok y, s') → Out b y
  observe : ∀ b x y s s', In b x → Obs s → a.transfer b x s = (.ok y, s') → Obs s'

/-- The states of a run satisfy the conditions. -/
structure Kept (In Out : Nat → L → Prop) (Obs : σ → Prop) (it : Iteration L σ) : Prop where
  inputs : ∀ (b : Nat) (x : L), it.inputs[b]? = some x → In b x
  outputs : ∀ (b : Nat) (x : L), it.outputs[b]? = some x → Out b x
  observed : Obs it.observed

section Invariants

variable {g : FlowGraph} {a : Analysis L σ ε} {In Out : Nat → L → Prop} {Obs : σ → Prop}

theorem Admissible.boundaryAt (hI : Admissible g a In Out) (b : Nat) :
    In b ((a.boundaryAt b).getD top) := by
  have hstates : ∀ x ∈ a.statesAt b, In b x := by
    intro x hx
    obtain ⟨e, he, rfl⟩ := List.mem_map.mp hx
    obtain ⟨he, hb⟩ := List.mem_filter.mp he
    rw [← eq_of_beq hb]
    exact hI.boundary e he
  rw [a.boundaryAt_eq]
  cases hs : a.statesAt b with
  | nil => exact hI.topIn b
  | cons y rest =>
      rw [hs] at hstates
      refine List.foldlRecOn (motive := In b) _ _ (hstates y List.mem_cons_self) ?_
      exact fun acc hacc z hz => hI.meet b _ _ hacc (hstates z (List.mem_cons_of_mem _ hz))

/-- The input that a visit computes is admissible. -/
theorem Admissible.inputAt (hI : Admissible g a In Out) {outputs : List L}
    (ho : ∀ (b : Nat) (x : L), outputs[b]? = some x → Out b x) (b : Nat) :
    In b (a.inputAt g outputs b) := by
  unfold Analysis.inputAt
  refine List.foldlRecOn (motive := In b) _ _ (hI.boundaryAt b) fun acc hacc p hp =>
    hI.meet b _ _ hacc ?_
  obtain ⟨e, he, rfl, rfl⟩ := Digraph.mem_predecessors.mp hp
  refine hI.edge e he _ ?_
  cases hx : outputs[e.source]? with
  | none => exact hI.topOut _
  | some x => exact ho _ x hx

theorem forall_getElem?_set {α : Type} {P : Nat → α → Prop} {l : List α} {i : Nat} {y : α}
    (h : ∀ (b : Nat) (x : α), l[b]? = some x → P b x) (hy : i < l.length → P i y) :
    ∀ (b : Nat) (x : α), (l.set i y)[b]? = some x → P b x := by
  intro b x hx
  by_cases hb : i = b
  · subst hb
    rw [List.getElem?_set_self'] at hx
    cases hl : l[i]? with
    | none => rw [hl] at hx; cases hx
    | some z =>
        rw [hl] at hx
        obtain rfl := Option.some.inj hx
        exact hy (List.getElem?_eq_some_iff.mp hl).1
  · rw [List.getElem?_set_ne hb] at hx
    exact h b x hx

/-- **A visit keeps the conditions.** -/
theorem Invariant.visited (hI : Invariant g a In Out Obs) {it it' : Iteration L σ} {block : Nat}
    (hk : Kept In Out Obs it) (hlen : it.outputs.length = g.blockCount)
    (hv : Visited g a it block it') : Kept In Out Obs it' := by
  have hin := hI.inputAt hk.outputs block
  cases hv with
  | passed => exact ⟨hk.inputs, hk.outputs, hk.observed⟩
  | confirmed output s hnt ht hout =>
      exact ⟨forall_getElem?_set hk.inputs fun _ => hin, hk.outputs,
        hI.observe _ _ _ _ _ hin hk.observed ht⟩
  | changed output s hnt ht hout =>
      refine ⟨forall_getElem?_set hk.inputs fun _ => hin, forall_getElem?_set hk.outputs ?_,
        hI.observe _ _ _ _ _ hin hk.observed ht⟩
      intro hb
      rw [hlen] at hb
      exact hI.transfer block hb _ _ _ _ hin hnt hk.observed ht

/-- **Every run keeps the conditions.** -/
theorem Invariant.reachable (hI : Invariant g a In Out Obs) {observed : σ} (h0 : Obs observed)
    {it : Iteration L σ} (h : Reachable g a observed it) : Kept In Out Obs it := by
  induction h with
  | start =>
      have htop : ∀ {P : Nat → L → Prop}, (∀ b, P b top) → ∀ (b : Nat) (x : L),
          (List.replicate g.blockCount (top : L))[b]? = some x → P b x := by
        intro P hP b x hx
        rw [List.getElem?_replicate] at hx
        split at hx
        · obtain rfl := Option.some.inj hx
          exact hP b
        · cases hx
      exact ⟨htop hI.topIn, htop hI.topOut, h0⟩
  | @visit it it' before after block h _ hv ih =>
      have hk : Kept In Out Obs { it with queue := before ++ after } :=
        ⟨ih.inputs, ih.outputs, ih.observed⟩
      exact hI.visited hk h.length.2 hv

/-- Every run keeps what is kept by visits of blocks that something has reached. -/
theorem Invariant.observed_reachable (hI : Invariant g a In Out Obs) {Seen : σ → Prop}
    (hseen : ∀ b x y s s', In b x → isTop x = false → Seen s → a.transfer b x s = (.ok y, s') → Seen s')
    {observed : σ} (h0 : Obs observed) (hs : Seen observed) {it : Iteration L σ}
    (h : Reachable g a observed it) : Seen it.observed := by
  induction h with
  | start => exact hs
  | @visit it it' before after block h _ hv ih =>
      have hin := hI.inputAt (hI.reachable h0 h).outputs block
      cases hv with
      | passed => exact ih
      | confirmed output s hnt ht _ => exact hseen _ _ _ _ _ hin hnt ih ht
      | changed output s hnt ht _ => exact hseen _ _ _ _ _ hin hnt ih ht

end Invariants

/-! ## 4. Settled blocks -/

/-- A block that has seen the outputs of its predecessors as they are now.  `R` is what is
    known of its input, its output and the observations since its last visit. -/
def Settled (g : FlowGraph) (a : Analysis L σ ε) (R : Nat → L → L → σ → Prop)
    (it : Iteration L σ) (b : Nat) : Prop :=
  isTop (a.inputAt g it.outputs b) = true ∨
  ∃ y, it.inputs[b]? = some (a.inputAt g it.outputs b) ∧ it.outputs[b]? = some y ∧
    R b (a.inputAt g it.outputs b) y it.observed

/-- What a visit of a block makes true, and visits of other blocks leave true, as long as the
    observations satisfy a condition. -/
structure Lasting (a : Analysis L σ ε) (Obs : σ → Prop) (R : Nat → L → L → σ → Prop) : Prop where
  observe : ∀ b x y s s', Obs s → a.transfer b x s = (.ok y, s') → Obs s'
  made : ∀ b x y s s', Obs s → a.transfer b x s = (.ok y, s') → R b x y s'
  kept : ∀ b c x y z w s s', b ≠ c → R b x y s → a.transfer c z s = (.ok w, s') → R b x y s'

section Settling

variable {g : FlowGraph} {a : Analysis L σ ε} {Obs : σ → Prop} {R : Nat → L → L → σ → Prop}

theorem Lasting.visited (hR : Lasting a Obs R) {it it' : Iteration L σ} {b : Nat}
    (hv : Visited g a it b it') (ho : Obs it.observed) : Obs it'.observed := by
  cases hv with
  | passed => exact ho
  | confirmed output s _ ht _ => exact hR.observe _ _ _ _ _ ho ht
  | changed output s _ ht _ => exact hR.observe _ _ _ _ _ ho ht

theorem Lasting.reachable (hR : Lasting a Obs R) {observed : σ} (h0 : Obs observed)
    {it : Iteration L σ} (h : Reachable g a observed it) : Obs it.observed := by
  induction h with
  | start => exact h0
  | @visit it it' before after block _ _ hv ih =>
      exact hR.visited hv ih

theorem Settled.visited_self (hR : Lasting a Obs R) {it it' : Iteration L σ} {b : Nat}
    (hv : Visited g a it b it') (ho : Obs it.observed) (hb : b < it.inputs.length)
    (hlen : b < it.outputs.length) (hq : b ∉ it'.queue) : Settled g a R it' b := by
  cases hv with
  | passed htop => exact Or.inl htop
  | confirmed output s _ ht hout =>
      exact Or.inr ⟨output, List.getElem?_set_self hb, hout, hR.made _ _ _ _ _ ho ht⟩
  | changed output s _ ht _ =>
      -- no edge leads from the block to itself, or it would wait
      have hp : b ∉ g.graph.predecessors b := fun hp =>
        hq (mem_enqueue.mpr (Or.inr (mem_predecessors_iff_mem_successors.mp hp)))
      refine Or.inr ⟨output, ?_, List.getElem?_set_self hlen, ?_⟩
      · rw [a.inputAt_set g _ hp]
        exact List.getElem?_set_self hb
      · rw [a.inputAt_set g _ hp]
        exact hR.made _ _ _ _ _ ho ht

theorem Settled.visited_other (hR : Lasting a Obs R) {it it' : Iteration L σ} {b block : Nat}
    (hs : Settled g a R it b) (hv : Visited g a it block it') (hne : block ≠ b)
    (hq : b ∉ it'.queue) : Settled g a R it' b := by
  cases hv with
  | passed => exact hs
  | confirmed output s _ ht _ =>
      refine hs.imp id fun ⟨y, hin, hout, hr⟩ =>
        ⟨y, ?_, hout, hR.kept _ _ _ _ _ _ _ _ hne.symm hr ht⟩
      rw [← hin]
      exact List.getElem?_set_ne hne
  | changed output s _ ht _ =>
      have hp : block ∉ g.graph.predecessors b := fun hp =>
        hq (mem_enqueue.mpr (Or.inr (mem_predecessors_iff_mem_successors.mp hp)))
      unfold Settled at hs ⊢
      rw [a.inputAt_set g _ hp]
      refine hs.imp id fun ⟨y, hin, hout, hr⟩ =>
        ⟨y, ?_, ?_, hR.kept _ _ _ _ _ _ _ _ hne.symm hr ht⟩
      · rw [← hin]
        exact List.getElem?_set_ne hne
      · rw [← hout]
        exact List.getElem?_set_ne hne

/-- **A block that does not wait is settled**, at every point of every run. -/
theorem Reachable.settled (hR : Lasting a Obs R) {observed : σ} (h0 : Obs observed)
    {it : Iteration L σ} (h : Reachable g a observed it) :
    ∀ b < g.blockCount, b ∉ it.queue → Settled g a R it b := by
  induction h with
  | start queue hall => exact fun b hb hq => absurd (hall b hb) hq
  | @visit it it' before after block h hq hv ih =>
      intro b hb hnq
      by_cases hne : block = b
      · subst hne
        have ho : Obs it.observed := hR.reachable h0 h
        exact Settled.visited_self hR hv ho (h.length.1 ▸ hb) (h.length.2 ▸ hb) hnq
      · have hwait : b ∉ it.queue := by
          intro hw
          rw [hq] at hw
          have hw' : b ∈ before ++ after := by
            simp only [List.mem_append, List.mem_cons] at hw ⊢
            rcases hw with hw | rfl | hw
            · exact Or.inl hw
            · exact absurd rfl hne
            · exact Or.inr hw
          apply hnq
          cases hv with
          | passed => exact hw'
          | confirmed => exact hw'
          | changed => exact mem_enqueue.mpr (Or.inl hw')
        have hs : Settled g a R { it with queue := before ++ after } b := ih b hb hwait
        exact hs.visited_other hR hv hne hnq

end Settling

/-! ## 5. Observations -/

section Observations

variable {g : FlowGraph} {a : Analysis L σ ε} {Obs : σ → Prop}

theorem observed_visit [DecidableEq L] (hobs : ∀ b x s, Obs s → Obs (a.transfer b x s).2)
    (it : Iteration L σ) (h : Obs it.observed) (block : Nat) :
    Obs (it.visit g a block).2 ∧ ∀ it', (it.visit g a block).1 = .ok it' → Obs it'.observed := by
  unfold Iteration.visit
  dsimp only
  split
  · refine ⟨h, fun it' hit => ?_⟩
    obtain rfl := Except.ok.inj hit
    exact h
  · have ht := hobs block (a.inputAt g it.outputs block) it.observed h
    split
    · next e s hs =>
      rw [hs] at ht
      exact ⟨ht, fun it' hit => by cases hit⟩
    · next y s hs =>
      rw [hs] at ht
      split
      · refine ⟨ht, fun it' hit => ?_⟩
        obtain rfl := Except.ok.inj hit
        exact ht
      · refine ⟨ht, fun it' hit => ?_⟩
        obtain rfl := Except.ok.inj hit
        exact ht

/-- **What every transfer keeps of the observations, the whole iteration keeps**, also when it is
    given up or a transfer fails. -/
theorem observed_iterate [DecidableEq L] (hobs : ∀ b x s, Obs s → Obs (a.transfer b x s).2)
    {budget fuel : Nat} {it : Iteration L σ} (h : Obs it.observed) :
    Obs (iterate g a budget fuel it).2 := by
  induction fuel generalizing it with
  | zero =>
      unfold iterate
      split
      · exact h
      · exact h
  | succ fuel ih =>
      unfold iterate
      split
      · exact h
      · next block rest _ =>
        have hv := observed_visit (g := g) hobs { it with queue := rest } h block
        dsimp only
        split
        · next hs =>
          rw [hs] at hv
          exact hv.1
        · next it' _ hs =>
          rw [hs] at hv
          exact ih (hv.2 it' rfl)

theorem observed_solve [DecidableEq L] (Obs : σ → Prop)
    (hobs : ∀ b x s, Obs s → Obs (a.transfer b x s).2) {budget : Nat} {observed : σ}
    (h : Obs observed) : Obs (solve g a budget observed).2 :=
  observed_iterate hobs h

/-- What a visit with an input makes true of the observations, and visits of other blocks leave
    true, as long as the observations satisfy a condition. -/
structure Recording (a : Analysis L σ ε) (Obs : σ → Prop) (R : Nat → L → σ → Prop) : Prop where
  observe : ∀ b x y s s', Obs s → a.transfer b x s = (.ok y, s') → Obs s'
  made : ∀ b x y s s', isTop x = false → Obs s → a.transfer b x s = (.ok y, s') → R b x s'
  kept : ∀ b c x z w s s', b ≠ c → Obs s → R b x s → a.transfer c z s = (.ok w, s') → R b x s'

theorem Recording.visited {R : Nat → L → σ → Prop} (hR : Recording a Obs R)
    {it it' : Iteration L σ} {block : Nat} (hv : Visited g a it block it') (ho : Obs it.observed)
    (hin : ∀ (b : Nat) (x : L), it.inputs[b]? = some x → R b x it.observed) :
    Obs it'.observed ∧ ∀ (b : Nat) (x : L), it'.inputs[b]? = some x → R b x it'.observed := by
  -- the input of the visited block is the one it was visited with, the others are as they were
  have hset : ∀ {y : L} {s : σ}, isTop (a.inputAt g it.outputs block) = false →
      a.transfer block (a.inputAt g it.outputs block) it.observed = (.ok y, s) →
      ∀ (b : Nat) (x : L), (it.inputs.set block (a.inputAt g it.outputs block))[b]? = some x →
        R b x s := by
    intro y s hnt ht b x hx
    by_cases hb : block = b
    · subst hb
      rw [List.getElem?_set_self'] at hx
      obtain ⟨z, _, hz⟩ := Option.map_eq_some_iff.mp hx
      obtain rfl : a.inputAt g it.outputs block = x := hz
      exact hR.made _ _ _ _ _ hnt ho ht
    · rw [List.getElem?_set_ne hb] at hx
      exact hR.kept _ _ _ _ _ _ _ (Ne.symm hb) ho (hin b x hx) ht
  cases hv with
  | passed => exact ⟨ho, hin⟩
  | confirmed output s hnt ht _ => exact ⟨hR.observe _ _ _ _ _ ho ht, hset hnt ht⟩
  | changed output s hnt ht _ => exact ⟨hR.observe _ _ _ _ _ ho ht, hset hnt ht⟩

/-- **At every point of every run the observations are those of the inputs as they are now.** -/
theorem Recording.reachable {R : Nat → L → σ → Prop} (hR : Recording a Obs R) {observed : σ}
    (h0 : Obs observed) (htop : ∀ b, R b top observed) {it : Iteration L σ}
    (h : Reachable g a observed it) :
    Obs it.observed ∧ ∀ (b : Nat) (x : L), it.inputs[b]? = some x → R b x it.observed := by
  induction h with
  | start =>
      refine ⟨h0, fun b x hx => ?_⟩
      obtain rfl := List.eq_of_mem_replicate (List.mem_of_getElem? hx)
      exact htop b
  | @visit it it' before after block _ _ hv ih =>
      exact hR.visited hv ih.1 ih.2

end Observations

/-! ## 6. Two runs -/

section Pairs

variable [DecidableEq L] {g : FlowGraph} {a : Analysis L σ ε} {Same : σ → σ → Prop}

/-- A visit does the same to the states of two runs whose observations correspond. -/
theorem visit_congr (hsame : ∀ b x s s', Same s s' → (a.transfer b x s).1 = (a.transfer b x s').1 ∧
      Same (a.transfer b x s).2 (a.transfer b x s').2)
    (it : Iteration L σ) {observed' : σ} (h : Same it.observed observed') (block : Nat) :
    (∃ e s s', it.visit g a block = (.error e, s) ∧
      { it with observed := observed' }.visit g a block = (.error e, s') ∧ Same s s') ∨
    (∃ next s', it.visit g a block = (.ok next, next.observed) ∧
      { it with observed := observed' }.visit g a block = (.ok { next with observed := s' }, s') ∧
      Same next.observed s') := by
  unfold Iteration.visit
  dsimp only
  by_cases htop : isTop (a.inputAt g it.outputs block) = true
  · simp only [htop, if_true]
    exact Or.inr ⟨_, observed', rfl, rfl, h⟩
  · simp only [htop]
    obtain ⟨hval, hobs⟩ := hsame block (a.inputAt g it.outputs block) it.observed observed' h
    generalize a.transfer block (a.inputAt g it.outputs block) it.observed = r at hval hobs
    generalize a.transfer block (a.inputAt g it.outputs block) observed' = r' at hval hobs
    obtain ⟨v, s⟩ := r
    obtain ⟨v', s'⟩ := r'
    obtain rfl : v = v' := hval
    cases v with
    | error e => exact Or.inl ⟨e, s, s', rfl, rfl, hobs⟩
    | ok output =>
        by_cases hout : it.outputs[block]? = some output
        · simp only [hout, if_true]
          exact Or.inr ⟨_, s', rfl, rfl, hobs⟩
        · simp only [hout, if_false]
          exact Or.inr ⟨_, s', rfl, rfl, hobs⟩

theorem iterate_congr (hsame : ∀ b x s s', Same s s' →
      (a.transfer b x s).1 = (a.transfer b x s').1 ∧
      Same (a.transfer b x s).2 (a.transfer b x s').2)
    {budget fuel : Nat} {it : Iteration L σ} {observed' : σ} (h : Same it.observed observed') :
    (iterate g a budget fuel it).1 =
      (iterate g a budget fuel { it with observed := observed' }).1 ∧
    Same (iterate g a budget fuel it).2
      (iterate g a budget fuel { it with observed := observed' }).2 := by
  induction fuel generalizing it observed' with
  | zero =>
      unfold iterate
      cases it.queue with
      | nil => exact ⟨rfl, h⟩
      | cons block rest => exact ⟨rfl, h⟩
  | succ fuel ih =>
      unfold iterate
      dsimp only
      cases hq : it.queue with
      | nil => exact ⟨rfl, h⟩
      | cons block rest =>
          obtain ⟨e, s, s', hv, hv', hs⟩ | ⟨next, s', hv, hv', hs⟩ :=
            visit_congr (g := g) hsame { it with queue := rest } h block
          · dsimp only at hv' ⊢
            rw [hv, hv']
            exact ⟨rfl, hs⟩
          · dsimp only at hv' ⊢
            rw [hv, hv']
            exact ih hs

/-- **Two runs whose observations correspond at the start give the same answer**, and they still
    correspond at the end, however it comes. -/
theorem solve_congr (hsame : ∀ b x s s', Same s s' →
      (a.transfer b x s).1 = (a.transfer b x s').1 ∧
      Same (a.transfer b x s).2 (a.transfer b x s').2)
    {budget : Nat} {observed observed' : σ} (h : Same observed observed') :
    (solve g a budget observed).1 = (solve g a budget observed').1 ∧
      Same (solve g a budget observed).2 (solve g a budget observed').2 := by
  have hstart : Same (Iteration.start (L := L) g observed).observed observed' := h
  exact iterate_congr hsame hstart

end Pairs

end ReflectionFlow

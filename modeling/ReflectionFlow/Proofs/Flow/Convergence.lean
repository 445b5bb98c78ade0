/-
  File:      ReflectionFlow/Proofs/Flow/Convergence.lean
  Subject:   A monotone analysis whose outputs come from finitely many states ends.

  A visit takes one block from the queue.  It queues others only if it changes an output, and
  then the new output is strictly below the old one, so fewer states are left below it.

  * `height`                  how many states of the range are at or below a state
  * `potential`               waiting blocks, and for each edge the height of what flows along it
  * `Visited.potential_lt`    a visit lowers the potential
  * `solve_converges`         with as many visits as the first potential, the iteration ends
-/
import Mathlib.Data.Set.Card
import ReflectionFlow.Proofs.Flow.Descent

namespace ReflectionFlow

open MeetLattice

variable {L σ ε : Type} [MeetLattice L]

/-! ## 1. Potential -/

/-- How many states of a range are at or below a state. -/
noncomputable def height (F : Set L) (le : L → L → Prop) (x : L) : Nat := {z | z ∈ F ∧ le z x}.ncard

/-- The heights of what flows along the edges, added up. -/
noncomputable def flowing (F : Set L) (le : L → L → Prop) (edges : List (Edge EdgeKind))
    (outputs : List L) : Nat :=
  (edges.map fun e => height F le (outputs[e.source]?.getD top)).sum

/-- **The potential of an iteration**: waiting blocks, and the heights of all that flows. -/
noncomputable def potential (F : Set L) (le : L → L → Prop) (g : FlowGraph) (it : Iteration L σ) : Nat :=
  it.queue.length + flowing F le g.graph.edges it.outputs

section Potential

variable {F : Set L} {le : L → L → Prop}

omit [MeetLattice L] in
theorem height_le (hfin : F.Finite) (le : L → L → Prop) (x : L) : height F le x ≤ F.ncard :=
  Set.ncard_le_ncard (fun _ hz => hz.1) hfin

omit [MeetLattice L] in
theorem height_lt (hfin : F.Finite) {x y : L} (hy : y ∈ F) (hyy : le y y) (hyx : ¬ le y x)
    (hxy : ∀ z ∈ F, le z x → le z y) : height F le x < height F le y := by
  refine Set.ncard_lt_ncard ⟨fun z hz => ⟨hz.1, hxy z hz.1 hz.2⟩, fun hsub => ?_⟩
    (hfin.subset fun _ hz => hz.1)
  exact hyx (hsub ⟨hy, hyy⟩).2

theorem flowing_le (hfin : F.Finite) (le : L → L → Prop) (edges : List (Edge EdgeKind))
    (outputs : List L) :
    flowing F le edges outputs ≤ edges.length * F.ncard := by
  unfold flowing
  induction edges with
  | nil => exact Nat.zero_le _
  | cons e edges ih =>
      rw [List.map_cons, List.sum_cons, List.length_cons, Nat.succ_mul]
      have := height_le hfin le (outputs[e.source]?.getD top)
      omega

/-- An output that gets lower pays for one waiting block on each edge that leaves its block. -/
theorem flowing_set {outputs : List L} {block : Nat} {output : L} (hlt : block < outputs.length)
    (hh : height F le output < height F le (outputs[block]?.getD top)) (edges : List (Edge EdgeKind)) :
    flowing F le edges (outputs.set block output) + (edges.filter (·.source == block)).length ≤
      flowing F le edges outputs := by
  unfold flowing
  induction edges with
  | nil => exact Nat.le_refl _
  | cons e edges ih =>
      rw [List.map_cons, List.map_cons, List.sum_cons, List.sum_cons, List.filter_cons]
      by_cases he : e.source = block
      · rw [if_pos (beq_iff_eq.mpr he), List.length_cons, he, List.getElem?_set_self hlt,
          Option.getD_some]
        omega
      · rw [if_neg (by simpa using he), List.getElem?_set_ne (Ne.symm he)]
        omega

theorem length_enqueue_le (queue blocks : List Nat) :
    (enqueue queue blocks).length ≤ queue.length + blocks.length := by
  unfold enqueue
  induction blocks generalizing queue with
  | nil => exact Nat.le_refl _
  | cons b blocks ih =>
      rw [List.foldl_cons, List.length_cons]
      split
      · exact Nat.le_trans (ih queue) (by omega)
      · have := ih (queue ++ [b])
        rw [List.length_append, List.length_singleton] at this
        omega

end Potential

/-! ## 2. Visits -/

/-- While the observations satisfy a condition, the transfer function succeeds, and its result
    depends on block and input alone. -/
def Analysis.Succeeds (a : Analysis L σ ε) (Obs : σ → Prop) (f : Nat → L → L) : Prop :=
  ∀ b x s, Obs s → ∃ s', a.transfer b x s = (.ok (f b x), s') ∧ Obs s'

/-- **Everything that makes an analysis end**: it is monotone for an order on the states that
    satisfy `P`, does not fail, and in all runs has its outputs in a finite range. -/
structure Convergent (g : FlowGraph) (a : Analysis L σ ε) (P : L → Prop) (le : L → L → Prop)
    (Obs : σ → Prop) (f : Nat → L → L) (observed : σ) (F : Set L) : Prop where
  order : MeetOrder P le
  antisymm : ∀ x y, P x → P y → le x y → le y x → x = y
  monotone : MonotoneOn P le f
  succeeds : a.Succeeds Obs f
  boundary : ∀ e ∈ a.boundary, P e.2
  start : Obs observed
  finite : F.Finite
  range : ∀ x ∈ F, P x
  outputs : ∀ it, Reachable g a observed it → AllOutputs (· ∈ F) it.outputs
  edges : ∀ e ∈ g.graph.edges, e.source < g.blockCount

section Visits

variable {g : FlowGraph} {a : Analysis L σ ε} {P : L → Prop} {le : L → L → Prop} {Obs : σ → Prop}
  {f : Nat → L → L} {observed : σ} {F : Set L}

omit [MeetLattice L] in
theorem Analysis.Succeeds.follows (ha : a.Succeeds Obs f) : a.Follows Obs f := by
  intro b x y s s' ho ht
  obtain ⟨s₁, h₁, ho₁⟩ := ha b x s ho
  rw [h₁] at ht
  obtain ⟨hy, rfl⟩ := Prod.mk.inj ht
  exact ⟨(Except.ok.inj hy).symm, ho₁⟩

theorem Convergent.kept (hB : Convergent g a P le Obs f observed F) {it : Iteration L σ}
    (h : Reachable g a observed it) : Kept (fun _ => P) (fun _ => P) Obs it :=
  (hB.order.invariant hB.monotone hB.succeeds.follows hB.boundary).reachable hB.start h

theorem successors_eq_nil (hedges : ∀ e ∈ g.graph.edges, e.source < g.blockCount) {block : Nat}
    (h : g.blockCount ≤ block) : g.graph.successors block = [] := by
  refine List.eq_nil_iff_forall_not_mem.mpr fun c hc => ?_
  obtain ⟨e, he, hs, _⟩ := Digraph.mem_successors.mp hc
  have := hedges e he
  omega

/-- **A visit lowers the potential**, whichever waiting block is visited. -/
theorem Visited.potential_lt (hB : Convergent g a P le Obs f observed F) {it it' : Iteration L σ}
    (before after : List Nat) {block : Nat} (h : Reachable g a observed it)
    (hq : it.queue = before ++ block :: after)
    (hv : Visited g a { it with queue := before ++ after } block it') :
    potential F le g it' < potential F le g it := by
  have hlen : it.queue.length = (before ++ after).length + 1 := by
    rw [hq, List.length_append, List.length_cons, List.length_append]
    omega
  unfold potential
  cases hv with
  | passed =>
      show (before ++ after).length + flowing F le g.graph.edges it.outputs < _
      omega
  | confirmed =>
      show (before ++ after).length + flowing F le g.graph.edges it.outputs < _
      omega
  | changed output s hin ht hout =>
      have henq := length_enqueue_le (before ++ after) (g.graph.successors block)
      show (enqueue (before ++ after) (g.graph.successors block)).length +
        flowing F le g.graph.edges (it.outputs.set block output) < _
      by_cases hlt : block < g.blockCount
      · have hk := hB.kept h
        have hd := h.descending hB.order hB.monotone hB.succeeds.follows hB.boundary hB.start
        obtain ⟨y, hy, hPy, hPo, hle⟩ := Visited.output_le hB.order hB.monotone
          hB.succeeds.follows hB.boundary hk hd ht (h.length.1 ▸ hlt)
        have hyF := hB.outputs it h block y hy
        have hne : ¬ le y output := by
          intro hle'
          apply hout
          rw [hB.antisymm output y hPo hPy hle hle']
          exact hy
        have hh : height F le output < height F le (it.outputs[block]?.getD top) := by
          rw [hy]
          exact height_lt hB.finite hyF (hB.order.refl y hPy) hne fun z hz hzo =>
            hB.order.trans z output y (hB.range z hz) hPo hPy hzo hle
        have hflow := flowing_set (h.length.2 ▸ hlt) hh g.graph.edges
        have hsucc : (g.graph.successors block).length =
            (g.graph.edges.filter (·.source == block)).length := List.length_map _
        omega
      · -- a number that is no block has no successors and no output
        have hle := Nat.le_of_not_lt hlt
        rw [successors_eq_nil hB.edges hle, List.length_nil] at henq
        rw [List.set_eq_of_length_le (h.length.2 ▸ hle)]
        rw [successors_eq_nil hB.edges hle]
        omega

/-! ## 3. Runs -/

theorem visit_succeeds [DecidableEq L] (ha : a.Succeeds Obs f) (it : Iteration L σ)
    (ho : Obs it.observed) (block : Nat) :
    ∃ it' s, it.visit g a block = (.ok it', s) ∧ Obs it'.observed := by
  unfold Iteration.visit
  obtain ⟨s', ht, ho'⟩ := ha block (a.inputAt g it.outputs block) it.observed ho
  simp only [ht]
  split
  · exact ⟨_, _, rfl, ho⟩
  · split
    · exact ⟨_, _, rfl, ho'⟩
    · exact ⟨_, _, rfl, ho'⟩

/-- An iteration whose transfer function succeeds has an answer or runs out of visits. -/
theorem iterate_outcome [DecidableEq L] (ha : a.Succeeds Obs f) (budget : Nat) {fuel : Nat}
    {it : Iteration L σ} (ho : Obs it.observed) :
    (∃ solution final, iterate g a budget fuel it = (.ok solution, final)) ∨
      ∃ final, iterate g a budget fuel it = (.error (.exhausted budget), final) := by
  induction fuel generalizing it with
  | zero =>
      unfold iterate
      cases it.queue with
      | nil => exact Or.inl ⟨_, _, rfl⟩
      | cons block rest => exact Or.inr ⟨_, rfl⟩
  | succ fuel ih =>
      unfold iterate
      cases it.queue with
      | nil => exact Or.inl ⟨_, _, rfl⟩
      | cons block rest =>
          obtain ⟨it', s, hvisit, ho'⟩ :=
            visit_succeeds (g := g) ha { it with queue := rest } ho block
          simp only [hvisit]
          exact ih ho'

theorem iterate_converges [DecidableEq L] (hB : Convergent g a P le Obs f observed F)
    (budget : Nat) {fuel : Nat} {it : Iteration L σ} (h : Reachable g a observed it)
    (hfuel : potential F le g it ≤ fuel) :
    ∃ solution final, iterate g a budget fuel it = (.ok solution, final) := by
  induction fuel generalizing it with
  | zero =>
      have hq : it.queue = [] := List.length_eq_zero_iff.mp (by unfold potential at hfuel; omega)
      unfold iterate
      rw [hq]
      exact ⟨_, _, rfl⟩
  | succ fuel ih =>
      unfold iterate
      cases hq : it.queue with
      | nil => exact ⟨_, _, rfl⟩
      | cons block rest =>
          have ho : Obs it.observed := (hB.kept h).observed
          obtain ⟨it', s, hvisit, _⟩ :=
            visit_succeeds (g := g) hB.succeeds { it with queue := rest } ho block
          have hv := Visited.of_visit hvisit
          have hlt := hv.potential_lt hB [] rest h hq
          obtain ⟨solution, final, hi⟩ := ih (.visit [] rest block h hq hv) (by omega)
          refine ⟨solution, final, ?_⟩
          simp only [hvisit]
          exact hi

/-- **The iteration ends**: a budget of one visit for each block that waits at first, and for each
    edge one for each state of the range, is enough. -/
theorem solve_converges [DecidableEq L] (hB : Convergent g a P le Obs f observed F) {budget : Nat}
    (h : (firstQueue g).length + g.graph.edges.length * F.ncard ≤ budget) :
    ∃ solution final, solve g a budget observed = (.ok solution, final) := by
  refine iterate_converges hB budget (.start (firstQueue g) (mem_firstQueue g)) ?_
  have := flowing_le hB.finite le g.graph.edges
    (Iteration.start g observed : Iteration L σ).outputs
  exact Nat.le_trans (Nat.add_le_add_left this _) h

end Visits

end ReflectionFlow

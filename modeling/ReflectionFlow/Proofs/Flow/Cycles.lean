/-
  File:      ReflectionFlow/Proofs/Flow/Cycles.lean
  Subject:   An iteration that comes round to where it has been never ends.

  What later visits do depends on the outputs and on the queue alone, if the transfer function
  does not fail.  A transfer function that is not monotone can bring an iteration back to outputs
  and a queue that it has had before; then blocks wait after every visit, and no budget is enough.

  * `Snapshot`, `Snapshot.next`   all that later visits depend on, and what a visit makes of it
  * `visit_snapshot`              a visit of the first waiting block
  * `solve_exhausts`              a closed set of snapshots, in all of which blocks wait
-/
import ReflectionFlow.Proofs.Flow.Convergence

namespace ReflectionFlow

open MeetLattice

variable {L σ ε : Type} [MeetLattice L] [DecidableEq L]

/-- The outputs of an iteration and the blocks that wait. -/
structure Snapshot (L : Type) where
  outputs : List L
  queue : List Nat
  deriving DecidableEq

/-- Where every iteration starts. -/
def Snapshot.start (g : FlowGraph) : Snapshot L := ⟨List.replicate g.blockCount top, firstQueue g⟩

/-- The snapshot of an iteration. -/
def Iteration.snapshot (it : Iteration L σ) : Snapshot L := ⟨it.outputs, it.queue⟩

/-- The snapshot after a visit of the first waiting block, for a transfer function that succeeds. -/
def Snapshot.next (g : FlowGraph) (inputAt : List L → Nat → L) (f : Nat → L → L) (s : Snapshot L) :
    Snapshot L :=
  match s.queue with
  | [] => s
  | block :: rest =>
    let input := inputAt s.outputs block
    if isTop input ∨ s.outputs[block]? = some (f block input) then ⟨s.outputs, rest⟩
    else ⟨s.outputs.set block (f block input), enqueue rest (g.graph.successors block)⟩

variable {g : FlowGraph} {a : Analysis L σ ε} {Obs : σ → Prop} {f : Nat → L → L}

theorem visit_snapshot (ha : a.Succeeds Obs f) {it : Iteration L σ} (ho : Obs it.observed)
    {block : Nat} {rest : List Nat} (hq : it.queue = block :: rest) :
    ∃ it' s, Iteration.visit g a { it with queue := rest } block = (.ok it', s) ∧ Obs it'.observed ∧
      it'.snapshot = it.snapshot.next g (a.inputAt g) f := by
  obtain ⟨it', s, hvisit, ho'⟩ := visit_succeeds (g := g) ha { it with queue := rest } ho block
  refine ⟨it', s, hvisit, ho', ?_⟩
  unfold Snapshot.next Iteration.snapshot
  simp only [hq]
  cases Visited.of_visit hvisit with
  | passed htop => rw [if_pos (Or.inl htop)]
  | confirmed output s hin ht hout =>
      obtain ⟨rfl, _⟩ := ha.follows block _ _ _ _ ho ht
      rw [if_pos (Or.inr hout)]
  | changed output s hin ht hout =>
      obtain ⟨rfl, _⟩ := ha.follows block _ _ _ _ ho ht
      rw [if_neg (not_or.mpr ⟨Bool.eq_false_iff.mp hin, hout⟩)]

variable {Round : Snapshot L → Prop}

theorem iterate_exhausts (ha : a.Succeeds Obs f)
    (hround : ∀ s, Round s → s.queue ≠ [] ∧ Round (s.next g (a.inputAt g) f)) (budget : Nat)
    {fuel : Nat} {it : Iteration L σ} (ho : Obs it.observed) (h : Round it.snapshot) :
    ∃ final, iterate g a budget fuel it = (.error (.exhausted budget), final) := by
  induction fuel generalizing it with
  | zero =>
      have hwaits : it.queue ≠ [] := (hround _ h).1
      unfold iterate
      cases hq : it.queue with
      | nil => exact absurd hq hwaits
      | cons block rest => exact ⟨_, rfl⟩
  | succ fuel ih =>
      have hwaits : it.queue ≠ [] := (hround _ h).1
      unfold iterate
      cases hq : it.queue with
      | nil => exact absurd hq hwaits
      | cons block rest =>
          obtain ⟨it', s, hvisit, ho', hnext⟩ := visit_snapshot (g := g) ha ho hq
          simp only [hvisit]
          exact ih ho' (hnext ▸ (hround _ h).2)

/-- **An iteration that goes round** uses up every budget. -/
theorem solve_exhausts (ha : a.Succeeds Obs f)
    (hround : ∀ s, Round s → s.queue ≠ [] ∧ Round (s.next g (a.inputAt g) f)) {observed : σ}
    (ho : Obs observed) (h : Round (.start g)) (budget : Nat) :
    ∃ final, solve g a budget observed = (.error (.exhausted budget), final) :=
  iterate_exhausts ha hround budget ho h

end ReflectionFlow

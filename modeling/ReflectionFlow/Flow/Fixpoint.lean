/-
  File:      ReflectionFlow/Flow/Fixpoint.lean
  Subject:   Forward dataflow: iteration to a fixpoint with a bounded number of visits.

  Every block starts with the top state, which says that nothing has reached it.  Blocks
  wait in a queue, first those reachable from the entry in reverse postorder, then the
  others by number.  The input of a block is the meet of its boundary states and of the
  outputs of its predecessors; a block whose input is top is passed over.  When an output
  changes, the successors that are not waiting already are queued.

  The number of visits is bounded.  Running out of visits is an outcome of its own, never a
  partial answer.

  Main definitions:
  * `MeetLattice`        states with a top and a meet
  * `Analysis`           boundary states and a transfer function with a state of its own
  * `Iteration.visit`    one visit
  * `solve`              the iteration from the first visit to the last
-/
import ReflectionFlow.Flow.Graph

namespace ReflectionFlow

/-! ## 1. Analyses -/

/-- States that can be met.  The top state is the one before anything is known. -/
class MeetLattice (L : Type) where
  top : L
  meet : L → L → L
  isTop : L → Bool

/-- A forward analysis.  The transfer function sees the number of a block and its input; it
    may keep observations in a state of type `σ`, also when it fails. -/
structure Analysis (L σ ε : Type) where
  boundary : List (Nat × L)
  transfer : Nat → L → σ → Except ε L × σ

/-- Why an iteration gives no answer. -/
inductive SolveFault (ε : Type) where
  /-- The budget of block visits does not suffice. -/
  | exhausted (budget : Nat)
  /-- The transfer function failed. -/
  | transfer (e : ε)
  deriving DecidableEq, Repr

/-- The states at the borders of all blocks, and how many visits it took to find them. -/
structure Solution (L : Type) where
  inputs : List L
  outputs : List L
  visits : Nat
  deriving DecidableEq, Repr

section Solve

variable {L σ ε : Type} [MeetLattice L] [DecidableEq L]

/-- The states before a visit, the blocks that wait, and the state of the analysis. -/
structure Iteration (L σ : Type) where
  inputs : List L
  outputs : List L
  queue : List Nat
  visits : Nat
  observed : σ

/-! ## 2. One visit -/

/-- The meet of the boundary states listed for a block, if there are any. -/
def Analysis.boundaryAt (a : Analysis L σ ε) (block : Nat) : Option L :=
  (a.boundary.filter (·.1 == block)).foldl
    (fun acc s => some (match acc with
      | none => s.2
      | some x => MeetLattice.meet x s.2)) none

/-- The input of a block: its boundary states met with the outputs of its predecessors. -/
def Analysis.inputAt (a : Analysis L σ ε) (g : FlowGraph) (outputs : List L) (block : Nat) : L :=
  (g.graph.predecessors block).foldl
    (fun x p => MeetLattice.meet x (outputs[p]?.getD MeetLattice.top))
    ((a.boundaryAt block).getD MeetLattice.top)

/-- Queues the blocks that are not waiting already. -/
def enqueue (queue blocks : List Nat) : List Nat :=
  blocks.foldl (fun q b => if q.contains b then q else q ++ [b]) queue

/-- Visits a block that was taken from the queue. -/
def Iteration.visit (g : FlowGraph) (a : Analysis L σ ε) (it : Iteration L σ) (block : Nat) :
    Except ε (Iteration L σ) × σ :=
  let it := { it with visits := it.visits + 1 }
  let input := a.inputAt g it.outputs block
  if MeetLattice.isTop input then (.ok it, it.observed)
  else
    match a.transfer block input it.observed with
    | (.error e, observed) => (.error e, observed)
    | (.ok output, observed) =>
      let it := { it with inputs := it.inputs.set block input, observed := observed }
      if it.outputs[block]? = some output then (.ok it, observed)
      else
        (.ok { it with
          outputs := it.outputs.set block output
          queue := enqueue it.queue (g.graph.successors block) }, observed)

/-! ## 3. The iteration -/

/-- Visits waiting blocks until none is left or the budget is used up.  The second part of
    the answer is the state of the analysis at the end. -/
def iterate (g : FlowGraph) (a : Analysis L σ ε) (budget : Nat) :
    Nat → Iteration L σ → Except (SolveFault ε) (Solution L) × σ
  | fuel, it =>
    match it.queue with
    | [] => (.ok ⟨it.inputs, it.outputs, it.visits⟩, it.observed)
    | block :: rest =>
      match fuel with
      | 0 => (.error (.exhausted budget), it.observed)
      | fuel + 1 =>
        match Iteration.visit g a { it with queue := rest } block with
        | (.error e, observed) => (.error (.transfer e), observed)
        | (.ok it, _) => iterate g a budget fuel it

/-- The blocks in the order of their first visit. -/
def firstQueue (g : FlowGraph) : List Nat :=
  enqueue g.reversePostorder (List.range g.blockCount)

/-- Where every iteration starts. -/
def Iteration.start (g : FlowGraph) (observed : σ) : Iteration L σ where
  inputs := List.replicate g.blockCount MeetLattice.top
  outputs := List.replicate g.blockCount MeetLattice.top
  queue := firstQueue g
  visits := 0
  observed := observed

/-- Runs an analysis to its fixpoint within a budget of block visits. -/
def solve (g : FlowGraph) (a : Analysis L σ ε) (budget : Nat) (observed : σ) :
    Except (SolveFault ε) (Solution L) × σ :=
  iterate g a budget budget (Iteration.start g observed)

end Solve

end ReflectionFlow

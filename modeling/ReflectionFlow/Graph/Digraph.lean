/-
  File:      ReflectionFlow/Graph/Digraph.lean
  Subject:   Directed graphs whose nodes are numbered and whose edges keep their order.

  Nodes are numbered from zero in the order in which they are added.  Of several edges
  between the same two nodes only the first is kept.  Every listing follows the order in
  which edges were accepted, so every walk through the graph is determined.

  Main definitions:
  * `Digraph`, `Digraph.addNode`, `Digraph.addEdge`
  * `Digraph.successors`, `Digraph.predecessors`
  * `Digraph.reversePostorder`    depth-first order, last finished first
-/

namespace ReflectionFlow

/-- An edge with its payload. -/
structure Edge (ε : Type) where
  source : Nat
  target : Nat
  data : ε
  deriving DecidableEq, Repr

/-- A directed graph: payloads by node number, and the accepted edges in order. -/
structure Digraph (ν ε : Type) where
  nodes : List ν := []
  edges : List (Edge ε) := []
  deriving DecidableEq, Repr

/-- The end of an edge that a graph does not have. -/
inductive EdgeEnd where
  | source
  | target
  deriving DecidableEq, Repr

/-- An edge refers to a node that does not exist in a graph of the given size. -/
structure GraphFault where
  missingEnd : EdgeEnd
  node : Nat
  nodeCount : Nat
  deriving DecidableEq, Repr

/-- The text of a node number. -/
def nodeText (n : Nat) : String := "B" ++ toString n

/-- The text of a fault. -/
def GraphFault.message (f : GraphFault) : String :=
  (match f.missingEnd with
    | .source => "source"
    | .target => "target") ++
  " node " ++ nodeText f.node ++ " does not exist in graph with " ++ toString f.nodeCount ++ " nodes"

namespace Digraph

variable {ν ε : Type}

/-! ## 1. Building -/

/-- The graph without nodes. -/
def empty : Digraph ν ε := {}

/-- Number of nodes. -/
def nodeCount (g : Digraph ν ε) : Nat := g.nodes.length

/-- Number of edges. -/
def edgeCount (g : Digraph ν ε) : Nat := g.edges.length

/-- Adds a node; its number is the number of nodes before. -/
def addNode (g : Digraph ν ε) (payload : ν) : Digraph ν ε := { g with nodes := g.nodes ++ [payload] }

/-- Is there an edge between the two nodes? -/
def hasEdge (g : Digraph ν ε) (source target : Nat) : Bool :=
  g.edges.any fun e => e.source == source && e.target == target

/-- Adds an edge and says whether it was new; both ends must be nodes. -/
def addEdge (g : Digraph ν ε) (source target : Nat) (data : ε) :
    Except GraphFault (Digraph ν ε × Bool) :=
  if g.nodeCount ≤ source then .error ⟨.source, source, g.nodeCount⟩
  else if g.nodeCount ≤ target then .error ⟨.target, target, g.nodeCount⟩
  else if g.hasEdge source target then .ok (g, false)
  else .ok ({ g with edges := g.edges ++ [⟨source, target, data⟩] }, true)

/-! ## 2. Reading -/

/-- The payload of a node. -/
def node? (g : Digraph ν ε) (n : Nat) : Option ν := g.nodes[n]?

/-- The edges that leave a node, in order. -/
def outgoing (g : Digraph ν ε) (n : Nat) : List (Edge ε) := g.edges.filter (·.source == n)

/-- The nodes that a node has edges to, in order. -/
def successors (g : Digraph ν ε) (n : Nat) : List Nat := (g.outgoing n).map Edge.target

/-- The nodes that have edges to a node, in order. -/
def predecessors (g : Digraph ν ε) (n : Nat) : List Nat :=
  (g.edges.filter (·.target == n)).map Edge.source

/-- Being a successor is having an edge. -/
theorem mem_successors {g : Digraph ν ε} {u v : Nat} :
    v ∈ g.successors u ↔ ∃ e ∈ g.edges, e.source = u ∧ e.target = v := by
  simp [successors, outgoing, and_assoc]

/-- Being a predecessor is having an edge. -/
theorem mem_predecessors {g : Digraph ν ε} {u v : Nat} :
    u ∈ g.predecessors v ↔ ∃ e ∈ g.edges, e.target = v ∧ e.source = u := by
  simp [predecessors, and_assoc]

/-! ## 3. Depth-first order -/

/-- The nodes met so far and the finished ones, last finished first. -/
structure Walk where
  met : List Nat := []
  finished : List Nat := []

/-- Walks from a node that was not met before.  The depth bound is the number of nodes: each
    call meets a node of its own. -/
def walk (g : Digraph ν ε) : Nat → Nat → Walk → Walk
  | 0, _, w => w
  | depth + 1, n, w =>
    let w := (g.successors n).foldl
      (fun w v => if w.met.contains v then w else walk g depth v w) { w with met := n :: w.met }
    { w with finished := n :: w.finished }

/-- The nodes reachable from a start, in reverse postorder; empty if the start is no node. -/
def reversePostorder (g : Digraph ν ε) (start : Nat) : List Nat :=
  if start < g.nodeCount then (g.walk g.nodeCount start {}).finished else []

end Digraph

end ReflectionFlow

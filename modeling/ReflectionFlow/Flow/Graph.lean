/-
  File:      ReflectionFlow/Flow/Graph.lean
  Subject:   The control flow graph of a method body.

  Node zero is the entry and the last node the exit; between them stand the blocks of code
  in the order of the instructions.  A block starts at the first instruction, at every jump
  target, at every entry point of an exception clause and after every instruction that ends
  a block.  Exceptional flow is not drawn as edges: blocks that start a handler or a filter
  are listed instead.

  Main definitions:
  * `CodeBlock`, `Block`, `EdgeKind`, `FlowGraph`
  * `Body.jumps`, `Body.leaders`, `Body.blocks`   the cut into blocks
  * `Instruction.exits`                           where control can go after a block
  * `FlowGraph.ofBody`                            the graph, or why there is none
-/
import ReflectionFlow.Code.Body
import ReflectionFlow.Graph.Digraph
import ReflectionFlow.Order.Sorted

namespace ReflectionFlow

/-! ## 1. Blocks and edges -/

/-- A run of instructions without jumps into or out of its middle. -/
structure CodeBlock where
  /-- The kind of handler or filter that starts here. -/
  handler : Option HandlerKind
  /-- Offset of the first instruction. -/
  start : Nat
  /-- Index of the first instruction. -/
  first : Nat
  /-- Index after the last instruction. -/
  stop : Nat
  deriving DecidableEq, Repr

/-- A node of the graph. -/
inductive Block where
  | entry
  | exit
  | code (b : CodeBlock)
  deriving DecidableEq, Repr

namespace Block

/-- The code of the block, if it holds any. -/
def code? : Block → Option CodeBlock
  | .code b => some b
  | _ => none

/-- The instruction indices of the block, the second one excluded. -/
def range? (b : Block) : Option (Nat × Nat) := b.code?.map fun c => (c.first, c.stop)

/-- Offset of the first instruction. -/
def start? (b : Block) : Option Nat := b.code?.map CodeBlock.start

/-- The handler that starts with the block. -/
def handler? (b : Block) : Option HandlerKind := b.code?.bind CodeBlock.handler

/-- Is the block the entry or the exit? -/
def isSentinel (b : Block) : Bool := b.code?.isNone

/-- Number of instructions. -/
def length (b : Block) : Nat :=
  match b.code? with
  | some c => c.stop - c.first
  | none => 0

/-- The name of the block's role. -/
def kindName (b : Block) : String :=
  match b with
  | .entry => "Entry"
  | .exit => "Exit"
  | .code c =>
    match c.handler with
    | some k => "Handler(" ++ k.name ++ ")"
    | none => "Body"

end Block

/-- Why control passes along an edge. -/
inductive EdgeKind where
  | entry
  | branch
  | conditionalTrue
  | conditionalFalse
  | switchCase (index : Nat)
  | switchDefault
  | fallthrough
  | exit
  deriving DecidableEq, Repr

namespace EdgeKind

/-- A side of a conditional branch. -/
def isConditional : EdgeKind → Bool
  | .conditionalTrue | .conditionalFalse => true
  | _ => false

/-- An entry of a jump table or its default. -/
def isSwitch : EdgeKind → Bool
  | .switchCase _ | .switchDefault => true
  | _ => false

/-- The text of the kind. -/
def name : EdgeKind → String
  | .entry => "Entry"
  | .branch => "Branch"
  | .conditionalTrue => "ConditionalTrue"
  | .conditionalFalse => "ConditionalFalse"
  | .switchCase n => "Switch \x7b case: " ++ toString n ++ " \x7d"
  | .switchDefault => "SwitchDefault"
  | .fallthrough => "Fallthrough"
  | .exit => "Exit"

end EdgeKind

/-- A control flow graph. -/
structure FlowGraph where
  graph : Digraph Block EdgeKind
  /-- Blocks that start a handler or a filter, in order. -/
  handlers : List (Nat × HandlerKind)
  /-- The block that starts at an offset. -/
  starts : Assoc Nat Nat
  deriving DecidableEq, Repr

/-- Why a body has no control flow graph. -/
inductive FlowFault where
  | emptyBody
  /-- A jump or an exception clause leads to an offset where no instruction starts. -/
  | invalidTarget (offset target : Nat)
  | graph (fault : GraphFault)
  deriving DecidableEq, Repr

/-! ## 2. The cut into blocks -/

namespace Body

/-- All places control is sent to explicitly, each with the offset it is blamed on: jumps in
    instruction and operand order, then the entry points of the exception clauses. -/
def jumps (b : Body) : List (Nat × Nat) :=
  (b.instructions.flatMap fun i => i.targets.map fun t => (i.offset, t)) ++
    b.clauses.flatMap fun c => c.entryPoints.map fun e => (c.tryOffset, e.1)

/-- The first jump that does not lead to an instruction. -/
def badJump? (b : Body) : Option (Nat × Nat) := b.jumps.find? fun j => (b.indexOf? j.2).isNone

/-- Indices of the instructions that jumps lead to. -/
def landings (b : Body) : List Nat := b.jumps.filterMap fun j => b.indexOf? j.2

/-- Does the instruction at an index end a block? -/
def endsBlockAt (b : Body) (index : Nat) : Bool :=
  match b.instructions[index]? with
  | some i => i.opcode.flow.endsBlock
  | none => false

/-- Does a block start at an index? -/
def isLeader (b : Body) (landings : List Nat) (index : Nat) : Bool :=
  match index with
  | 0 => true
  | before + 1 => landings.contains (before + 1) || b.endsBlockAt before

/-- The indices at which blocks start. -/
def leaders (b : Body) : List Nat :=
  let landings := b.landings
  (List.range b.instructions.length).filter (b.isLeader landings)

/-- The kind of handler that starts at an offset; of several clauses the first one counts. -/
def handlerAt? (b : Body) (offset : Nat) : Option HandlerKind :=
  (b.clauses.flatMap Clause.entryPoints).lookup offset

/-- The offset of the instruction at an index. -/
def offsetAt (b : Body) (index : Nat) : Nat :=
  match b.instructions[index]? with
  | some i => i.offset
  | none => 0

/-- The blocks of the body: each reaches from one leader to the next. -/
def blocks (b : Body) : List CodeBlock :=
  let cuts := b.leaders
  (cuts.zip (cuts.drop 1 ++ [b.instructions.length])).map fun (first, stop) =>
    let start := b.offsetAt first
    ⟨b.handlerAt? start, start, first, stop⟩

end Body

/-! ## 3. Edges -/

/-- The edges that leave a block whose last instruction is given.  `next` is the node after
    the block and `target` finds the block that starts at an offset. -/
def Instruction.exits (last : Instruction) (next exit : Nat)
    (target : Nat → Except FlowFault Nat) : Except FlowFault (List (Nat × EdgeKind)) :=
  match last.opcode.flow with
  | .unconditionalBranch | .leave =>
    last.targets.mapM fun t => return (← target t, .branch)
  | .conditionalBranch => do
    let taken ← last.targets.mapM fun t => return (← target t, EdgeKind.conditionalTrue)
    return taken ++ [(next, .conditionalFalse)]
  | .switch => do
    let cases ← last.targets.zipIdx.mapM fun t => return (← target t.1, EdgeKind.switchCase t.2)
    return cases ++ [(next, .switchDefault)]
  | .ret | .throw => .ok [(exit, .exit)]
  | .endFinally => .ok []
  | .sequential | .call | .modifier =>
    .ok [(next, if next = exit then .exit else .fallthrough)]

namespace FlowGraph

/-- Adds an edge to a graph under construction. -/
def link (graph : Digraph Block EdgeKind) (source target : Nat) (kind : EdgeKind) :
    Except FlowFault (Digraph Block EdgeKind) :=
  match graph.addEdge source target kind with
  | .ok (graph, _) => .ok graph
  | .error fault => .error (.graph fault)

/-- Adds the edges of one block. -/
def linkBlock (b : Body) (starts : Assoc Nat Nat) (exit : Nat) (graph : Digraph Block EdgeKind)
    (block : Nat × CodeBlock) : Except FlowFault (Digraph Block EdgeKind) :=
  match b.instructions[block.2.stop - 1]? with
  | none => .ok graph
  | some last => do
    let next := match b.instructions[block.2.stop]? with
      | some i => (starts.get? i.offset).getD exit
      | none => exit
    let target (t : Nat) : Except FlowFault Nat :=
      match starts.get? t with
      | some n => .ok n
      | none => .error (.invalidTarget last.offset t)
    let exits ← last.exits next exit target
    exits.foldlM (fun graph e => link graph block.1 e.1 e.2) graph

/-- The control flow graph of a body. -/
def ofBody (b : Body) : Except FlowFault FlowGraph :=
  if b.instructions.isEmpty then .error .emptyBody
  else match b.badJump? with
  | some (offset, target) => .error (.invalidTarget offset target)
  | none => do
    let blocks := b.blocks
    let numbered := blocks.zipIdx.map fun (c, k) => (k + 1, c)
    let exit := blocks.length + 1
    let starts : Assoc Nat Nat := numbered.foldl (fun m (k, c) => m.insert c.start k) []
    let nodes : Digraph Block EdgeKind := { nodes := .entry :: blocks.map .code ++ [.exit] }
    let graph ← link nodes 0 1 .entry
    let graph ← numbered.foldlM (linkBlock b starts exit) graph
    let handlers := numbered.filterMap fun (k, c) => c.handler.map fun h => (k, h)
    return ⟨graph, handlers, starts⟩

/-! ## 4. Reading -/

/-- The entry node. -/
def entry (_ : FlowGraph) : Nat := 0

/-- The exit node. -/
def exit (g : FlowGraph) : Nat := g.graph.nodeCount - 1

/-- Number of blocks, entry and exit included. -/
def blockCount (g : FlowGraph) : Nat := g.graph.nodeCount

/-- The block with a number. -/
def block? (g : FlowGraph) (n : Nat) : Option Block := g.graph.node? n

/-- The block that starts at an offset. -/
def blockAt? (g : FlowGraph) (offset : Nat) : Option Nat := g.starts.get? offset

/-- The block with the greatest start that is not beyond an offset. -/
def blockOf? (g : FlowGraph) (offset : Nat) : Option Nat :=
  ((g.starts.takeWhile fun e => e.1 ≤ offset).getLast?).map Prod.snd

/-- The blocks reachable from the entry, in reverse postorder. -/
def reversePostorder (g : FlowGraph) : List Nat := g.graph.reversePostorder g.entry

/-- The graph as a drawing: one line per block, one line per edge. -/
def drawing (g : FlowGraph) : String :=
  let blocks := g.graph.nodes.zipIdx
  let label (b : Block) : String := match b with
    | .entry => "entry"
    | .exit => "exit"
    | .code c => Text.offset c.start
  let nodeLines := blocks.map fun (b, n) =>
    "  " ++ toString n ++ " [label=\"" ++ label b ++ "\"];\n"
  let edgeLines := blocks.flatMap fun (_, n) => (g.graph.outgoing n).map fun e =>
    "  " ++ toString n ++ " -> " ++ toString e.target ++ " [label=\"" ++ e.data.name ++ "\"];\n"
  "digraph cfg \x7b\n" ++ String.join nodeLines ++ String.join edgeLines ++ "\x7d"

end FlowGraph

end ReflectionFlow

/-
  File:      ReflectionFlow/Scan/Transfer.lean
  Subject:   Interpreting blocks, and the dataflow analysis of a method.

  Visiting a block again replaces what was observed and returned in it, so in the end every
  observation belongs to the final input of its block.

  Main definitions:
  * `Scanner.step`, `Scanner.steps`    one instruction, a list of them
  * `Progress`                         what is kept from visit to visit
  * `Scanner.transfer`                 a visit of a block
  * `Scanner.analysis`                 the analysis that is iterated
-/
import ReflectionFlow.Scan.Call
import ReflectionFlow.Scan.Step

namespace ReflectionFlow

namespace Scanner

/-! ## 1. Instructions -/

/-- Interprets an instruction of a block. -/
def step (sc : Scanner) (block : Nat) (i : Instruction) (t : Trace) :
    Act (Except BrokenPromise Trace) :=
  match i.opcode.role with
  | .loadToken => do return .ok (t.push (.single (← sc.tokenValue i.token?)))
  | .call => sc.stepCall block i .call t
  | .construct => sc.stepCall block i .construct t
  | .callIndirect => sc.stepCall block i .callIndirect t
  | role => pure (.ok (sc.stepLocal block i t role))

/-- Interprets instructions of a block in order. -/
def steps (sc : Scanner) (block : Nat) : List Instruction → Trace → Act (Except BrokenPromise Trace)
  | [], t => pure (.ok t)
  | i :: rest, t => do
    match ← sc.step block i t with
    | .error b => return .error b
    | .ok t => sc.steps block rest t

end Scanner

/-! ## 2. Blocks -/

/-- What is kept from one visit of a block to the next. -/
structure Progress where
  session : Session
  log : ObservationLog Observation := {}
  /-- Returned values by the offset of the return instruction. -/
  returns : Assoc Nat ValueSet := []

namespace Progress

/-- Drops what was observed and returned between two offsets, both included. -/
def forget (p : Progress) (first last : Nat) : Progress :=
  { p with
    log := p.log.forget first last
    returns := p.returns.filter fun e => !(first ≤ e.1 && e.1 ≤ last) }

/-- Adds what a trace observed and returned. -/
def file (p : Progress) (t : Trace) : Progress :=
  { p with
    log := t.observed.foldl (fun log e => log.record e.1 e.2) p.log
    returns := t.returned.foldl (fun m e => m.insert e.1 e.2) p.returns }

/-- Everything that is returned. -/
def returned (p : Progress) : ValueSet := (p.returns.map Prod.snd).foldl SetOf.merge .empty

end Progress

/-- The instructions of a block. -/
def FlowGraph.codeOf (g : FlowGraph) (body : Body) (block : Nat) : List Instruction :=
  match (g.block? block).bind Block.range? with
  | some (first, stop) => (body.instructions.drop first).take (stop - first)
  | none => []

/-- A state with a stack: a point without one is entered with an empty stack. -/
def State.entered (s : State) : State :=
  match s.stack with
  | .top => { s with stack := .empty }
  | .slots _ => s

namespace Scanner

/-- Visits a block. -/
def transfer (sc : Scanner) (g : FlowGraph) (body : Body) (block : Nat) (input : State)
    (p : Progress) : Except BrokenPromise State × Progress :=
  match g.codeOf body block with
  | [] => (.ok input.entered, p)
  | i :: rest =>
    let p := p.forget i.offset ((i :: rest).getLastD i).offset
    match (sc.steps block (i :: rest) { state := input.entered }).run p.session with
    | (.error b, session) => (.error b, { p with session })
    | (.ok t, session) => (.ok t.state, { p with session }.file t)

/-- The state in which a handler is entered. -/
def handlerState (kind : HandlerKind) : State :=
  if kind.receivesException then { State.unknown with stack := .slots [.unknown] } else .unknown

/-- The analysis of a method: it is entered with its arguments, and every handler without
    knowledge of variables. -/
def analysis (sc : Scanner) (g : FlowGraph) (body : Body) : Analysis State Progress BrokenPromise where
  boundary := (g.entry, sc.entryState) :: g.handlers.map fun h => (h.1, handlerState h.2)
  transfer := sc.transfer g body

end Scanner

end ReflectionFlow

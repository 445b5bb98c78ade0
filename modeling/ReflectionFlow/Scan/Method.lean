/-
  File:      ReflectionFlow/Scan/Method.lean
  Subject:   The analysis of one method, and of many methods in one session.

  A method that cannot be found, has no body or has an empty one is not an error: nothing is
  known of what it returns.  Everything else that goes wrong is.  Marks and diagnostics are
  made only after the iteration has ended.

  Main definitions:
  * `AnalysisFault`                  why a method is not analyzed
  * `MethodReport`                   what the analysis of a method gives
  * `Store.analyze`, `Store.analyzeAll`
-/
import ReflectionFlow.Flow.Fixpoint
import ReflectionFlow.Scan.Apply
import ReflectionFlow.Scan.Transfer

namespace ReflectionFlow

/-! ## 1. Outcomes -/

/-- Why a method is not analyzed. -/
inductive AnalysisFault where
  | methodNotFound (method : Token)
  | missingBody (method : Token)
  /-- The body has no control flow graph. -/
  | flow (method : Token) (fault : FlowFault)
  /-- The iteration takes too many visits. -/
  | exhausted (budget : Nat)
  /-- A rule of the catalogue breaks a promise. -/
  | broken (b : BrokenPromise)
  deriving DecidableEq, Repr

namespace AnalysisFault

/-- Does the fault only say that nothing is known of the method? -/
def isFallback : AnalysisFault → Bool
  | .methodNotFound _ | .missingBody _ | .flow _ .emptyBody => true
  | _ => false

/-- The name of a kind of fault. -/
def kindName : AnalysisFault → String
  | .methodNotFound _ => "MethodNotFound"
  | .missingBody _ => "MissingMethodBody"
  | .flow _ .emptyBody => "EmptyMethodBody"
  | .flow _ (.invalidTarget ..) => "InvalidBranchTarget"
  | .flow _ (.graph _) => "GraphError"
  | .exhausted _ => "IterationLimit"
  | .broken _ => "InternalError"

/-- A fault in words. -/
def message : AnalysisFault → String
  | .methodNotFound t => "Method " ++ t.render ++ " could not be resolved"
  | .missingBody t => "Method " ++ t.render ++ " has no IL body"
  | .flow t .emptyBody => "Method " ++ t.render ++ " has an empty body"
  | .flow _ (.invalidTarget offset target) =>
    "Branch at " ++ Text.offset offset ++ " targets " ++ Text.offset target ++
      ", which is not an instruction boundary"
  | .flow _ (.graph f) => f.message
  | .exhausted budget =>
    "Dataflow analysis did not converge within " ++ toString budget ++ " block visits"
  | .broken b => "Internal error: " ++ b.message

end AnalysisFault

/-- How the analysis of a method ended. -/
inductive Outcome where
  /-- The iteration ended after a number of block visits. -/
  | converged (visits : Nat)
  /-- Nothing is known of the method. -/
  | fallback (cause : AnalysisFault)
  deriving DecidableEq, Repr

/-- What the analysis of a method gives. -/
structure MethodReport where
  method : Token
  /-- Everything the method may return. -/
  returns : ValueSet
  outcome : Outcome
  /-- Number of observations acted on. -/
  observations : Nat
  /-- The states at the borders of all blocks, if the iteration ended. -/
  states : Option (Solution State)
  deriving DecidableEq, Repr

/-- Did the iteration end? -/
def MethodReport.hasConverged (m : MethodReport) : Bool :=
  match m.outcome with
  | .converged _ => true
  | .fallback _ => false

/-! ## 2. The analysis of a method -/

namespace Context

/-- Iterates a method to its fixpoint; what the session has learned on the way stays, also
    when the iteration fails. -/
def iterate (c : Context) (body : Body) (g : FlowGraph) :
    Act (Except AnalysisFault (Solution State × Progress)) := do
  let sc := Scanner.ofContext c (← c.store.askNeeds c.method)
  let (result, p) := solve g (sc.analysis g body) c.config.maxVisits { session := ← get }
  set p.session
  return match result with
    | .ok solution => .ok (solution, p)
    | .error (.exhausted budget) => .error (.exhausted budget)
    | .error (.transfer b) => .error (.broken b)

/-- Acts on all observations of a method. -/
def applyAll (c : Context) (log : ObservationLog Observation) : Act Unit :=
  log.toList.forM fun (offset, o) => c.apply offset o

/-- Analyzes the body of a method that is known under a token. -/
def analyzeBody (c : Context) (token : Token) (body : Body) :
    Act (Except AnalysisFault MethodReport) := do
  match FlowGraph.ofBody body with
  | .error f => return .error (.flow c.method.token f)
  | .ok g =>
    match ← c.iterate body g with
    | .error f => return .error f
    | .ok (solution, p) =>
      c.applyAll p.log
      return .ok ⟨token, p.returned, .converged solution.visits, p.log.size, some solution⟩

end Context

namespace Store

/-- Analyzes a method, with arguments for generic parameters. -/
def tryAnalyze (s : Store) (config : Config) (token : Token) (typeArgs methodArgs : List TypeSig) :
    Act (Except AnalysisFault MethodReport) :=
  match s.methodDef? token with
  | none => pure (.error (.methodNotFound token))
  | some m => match s.body? m.token with
    | none => pure (.error (.missingBody token))
    | some body => Context.analyzeBody ⟨s, config, m, typeArgs, methodArgs⟩ token body

/-- The report on a method of which nothing is known. -/
def fallbackReport (token : Token) (cause : AnalysisFault) : MethodReport :=
  ⟨token, .unknown, .fallback cause, 0, none⟩

/-- Analyzes a method, with arguments for generic parameters; when there is nothing to analyze,
    the report says so. -/
def analyze (s : Store) (config : Config) (token : Token) (typeArgs methodArgs : List TypeSig := []) :
    Act (Except AnalysisFault MethodReport) := do
  match ← s.tryAnalyze config token typeArgs methodArgs with
  | .ok report => return .ok report
  | .error f => return if f.isFallback then .ok (fallbackReport token f) else .error f

/-- Analyzes methods one after the other. -/
def analyzeAll (s : Store) (config : Config) (tokens : List Token) :
    Act (List (Except AnalysisFault MethodReport)) :=
  tokens.mapM fun t => s.analyze config t

end Store

end ReflectionFlow

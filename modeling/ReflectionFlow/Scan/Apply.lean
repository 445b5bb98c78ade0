/-
  File:      ReflectionFlow/Scan/Apply.lean
  Subject:   Acting on the observations of a method.

  Observations are acted on once, in the order of their instructions, with a live reporter.
-/
import ReflectionFlow.Reflection.Handle
import ReflectionFlow.Reflection.Interop
import ReflectionFlow.Scan.Trace

namespace ReflectionFlow

namespace Context

/-! ## 1. Calls -/

/-- Reports the use of a method that requires unreferenced code, unless the calling method
    requires it as well. -/
def checkWarning (c : Context) (r : Reporter) (m : MethodDef) (needs : Needs) : Act Unit :=
  match needs.warning with
  | some message => do
    if (← c.store.askNeeds c.method).warning.isNone then
      r.report (.requiresUnreferencedCode m.name message)
  | none => pure ()

/-- Requires what the parameters of a method need. -/
def checkParameters (r : Reporter) (site : CallSite) (needs : Needs) : Act Unit :=
  needs.params.zipIdx.forM fun (need, index) =>
    match site.parameter? index with
    | some v => r.require v need (.ofParameter site.method index)
    | none => pure ()

/-- Requires what the instance of a method needs. -/
def checkReceiver (r : Reporter) (site : CallSite) (needs : Needs) : Act Unit :=
  match site.receiver? with
  | some v => r.require v needs.this (.this site.method.name)
  | none => pure ()

/-- Requires what generic parameters need of their arguments. -/
def checkGenerics (c : Context) (r : Reporter) (owner : Owner) (args : List TypeSig) : Act Unit :=
  if args.isEmpty then pure ()
  else do
    let needs ← c.store.askGenericNeeds owner
    (args.zip needs).zipIdx.forM fun ((arg, need), index) =>
      if (wordIndex? index).isSome then do
        r.require (.single (← c.typeValue arg)) need (.generic owner index)
      else pure ()

/-- Acts on a call of a method that is not catalogued: every annotation of it is checked. -/
def applyOrdinary (c : Context) (r : Reporter) (site : CallSite) (needs : Needs)
    (constructs : Bool) : Act Unit := do
  checkParameters r site needs
  if !constructs then checkReceiver r site needs
  c.checkGenerics r (.method site.method.token) site.callee.methodArgs
  c.checkGenerics r (.type site.method.declaring) site.callee.typeArgs

/-- Acts on a call of a catalogued method. -/
def applyCatalogued (r : Reporter) (site : CallSite) (what : Intrinsic) : Act Unit :=
  match site.handle? r what with
  | some rule => discard rule
  | none => r.report (.unanalyzedOverload what)

/-- Acts on a call. -/
def applyCall (c : Context) (r : Reporter) (site : CallSite) (intrinsic : Option Intrinsic)
    (constructs : Bool) : Act Unit := do
  let needs ← c.store.askNeeds site.method
  c.checkWarning r site.method needs
  match intrinsic, constructs with
  | some what, false => applyCatalogued r site what
  | _, _ => c.applyOrdinary r site needs constructs
  if c.config.checksInterop then r.checkInterop site.method

/-! ## 2. Casts -/

/-- Marks on a cast target what a created instance still requires. -/
def applyCastOne (c : Context) (r : Reporter) (target : Token) : Value → Act Unit
  | .symbol (.ret method) need _ =>
    if need.isEmpty then pure ()
    else do
      match ← c.store.askIntrinsic method with
      | some what => if what.isActivation then r.markMembers target need .any .castTarget
      | none => pure ()
  | _ => pure ()

/-- Acts on a cast. -/
def applyCast (c : Context) (r : Reporter) (values : ValueSet) (target : Token) : Act Unit :=
  match (c.store.typeSig? target).bind c.typeOf? with
  | some t => values.members.forM (c.applyCastOne r t)
  | none => pure ()

/-! ## 3. Observations -/

/-- Acts on an observation. -/
def apply (c : Context) (offset : Nat) (o : Observation) : Act Unit :=
  let r := c.reporter offset true
  match o with
  | .call callee arguments intrinsic constructs =>
    c.applyCall r ⟨c, offset, callee, arguments⟩ intrinsic constructs
  | .assignment values required place => r.require values required place
  | .cast values target => c.applyCast r values target
  | .fault f => if c.config.reportsInvalidCode then r.report (.invalidCode f) else pure ()

end Context

end ReflectionFlow

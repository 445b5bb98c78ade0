/-
  File:      ReflectionFlow/Scan/Call.lean
  Subject:   Calls and type tokens.

  A call takes its operands, leaves what it returns and stores through the addresses that it
  is passed by reference.  A catalogued method returns what its rule says, under a reporter
  that is not live.  A rule must not promise less than the method's own annotation does.

  Main definitions:
  * `BrokenPromise`              a rule that promises too little
  * `Scanner.call`               a call of a known method
  * `Scanner.opaqueCall`         a call of which only a signature is known, if that
-/
import ReflectionFlow.Code.Role
import ReflectionFlow.Reflection.Handle
import ReflectionFlow.Scan.Scanner

namespace ReflectionFlow

/-- A rule of the catalogue returns a symbol that promises less than the method declares. -/
structure BrokenPromise where
  intrinsic : Intrinsic
  value : Value
  declared : Categories
  method : String
  deriving DecidableEq, Repr

/-- A broken promise in words. -/
def BrokenPromise.message (b : BrokenPromise) : String :=
  "intrinsic " ++ b.intrinsic.name ++ " returned " ++ b.value.render ++
    ", which does not satisfy the declared return requirement " ++ b.declared.render ++ " of '" ++
    b.method ++ "'"

namespace Scanner

/-! ## 1. Type tokens -/

/-- What a token denotes on the stack: the handle of a type or of a method. -/
def tokenValue (sc : Scanner) (token : Option Token) : Act Value :=
  match token with
  | some t =>
    if t.isType then sc.context.handleValue t
    else if t.isMethodLike then
      pure (match sc.context.callee? t with
        | some r => .methodHandle r.method.token
        | none => .unknown)
    else pure .unknown
  | none => pure .unknown

/-! ## 2. Calls of known methods -/

/-- Does a value break the promise of a method's return annotation? -/
def breaks (m : MethodDef) (declared : Categories) : Value → Bool
  | .symbol (.ret t) need _ => t == m.token && !need.covers declared
  | _ => false

/-- The first value that promises less than the method declares. -/
def broken? (what : Intrinsic) (m : MethodDef) (declared : Categories) (returned : ValueSet) :
    Option BrokenPromise :=
  if declared.isEmpty then none
  else (returned.members.find? (breaks m declared)).map fun v => ⟨what, v, declared, m.name⟩

/-- What a call of a catalogued method returns. -/
def catalogued (sc : Scanner) (site : CallSite) (what : Intrinsic) :
    Act (Except BrokenPromise ValueSet) :=
  match site.handle? (sc.context.reporter site.offset false) what with
  | none => pure (.ok .unknown)
  | some rule => do
    let returned ← rule
    let declared := (← sc.context.store.askNeeds site.method).ret
    return match broken? what site.method declared returned with
      | some b => .error b
      | none => .ok returned

/-- What a call returns. -/
def resultOf (sc : Scanner) (site : CallSite) (intrinsic : Option Intrinsic) (constructs : Bool) :
    Act (Except BrokenPromise ValueSet) :=
  if constructs then pure (.ok .unknown)
  else match intrinsic with
  | some what => sc.catalogued site what
  | none => do return .ok (← site.defaultReturn)

/-- What a by-reference parameter of the called method refers to after the call. -/
def writtenBack (m : MethodDef) (needs : Needs) (index : Nat) (t : TypeSig) : Value :=
  .symbol (.parameter m.token (clampIndex index)) (needs.param index) t.stripByRef

/-- Stores through the addresses that are passed by reference. -/
def writeBack (sc : Scanner) (block offset : Nat) (callee : MethodRef) (needs : Needs)
    (operands : List ValueSet) (t : Trace) : Trace :=
  (callee.instantiated.params.zip operands).zipIdx.foldl
    (fun t ((param, address), index) =>
      if param.isByRef && (wordIndex? index).isSome then
        sc.storeThrough block offset address
          (.single (writtenBack callee.method needs index param)) t
      else t) t

/-- Takes the operands of a call: those of the parameters as they were pushed, then the
    arguments with addresses replaced by what they refer to, an instance first. -/
def takeOperands (sc : Scanner) (offset : Nat) (callee : MethodRef) (constructs : Bool)
    (t : Trace) : List ValueSet × List ValueSet × Trace :=
  let (operands, t) := t.popMany offset callee.instantiated.params.length
  let (instance?, t) : List ValueSet × Trace :=
    if constructs then ([.unknown], t)
    else if callee.method.hasThis then
      let (v, t) := sc.popValue t offset
      ([v], t)
    else ([], t)
  (operands, instance? ++ operands.map (sc.dereference t.state), t)

/-- The signature with the generic arguments in place says the same about an instance as the
    definition, so it does not matter which one is asked. -/
theorem hasThis_instantiated (callee : MethodRef) :
    (callee.instantiated.hasThis && !callee.instantiated.explicitThis) = callee.method.hasThis := by
  unfold MethodRef.instantiated
  obtain ⟨⟨_, _, _, _, ⟨⟩⟩⟩ := callee
  rfl

/-- Leaves what a call returns; something is left also when nothing is known to return. -/
def leave (callee : MethodRef) (constructs : Bool) (returned : ValueSet) (t : Trace) : Trace :=
  if constructs || !callee.instantiated.ret.isVoid then
    t.push (if returned.isEmpty then .unknown else returned)
  else t

/-- Interprets a call of a known method. -/
def call (sc : Scanner) (block : Nat) (i : Instruction) (callee : MethodRef) (constructs : Bool)
    (t : Trace) : Act (Except BrokenPromise Trace) := do
  let (operands, arguments, t) := sc.takeOperands i.offset callee constructs t
  let store := sc.context.store
  let intrinsic ← store.askIntrinsic callee.method.token
  match ← sc.resultOf ⟨sc.context, i.offset, callee, arguments⟩ intrinsic constructs with
  | .error b => return .error b
  | .ok returned =>
    let needs ← store.askNeeds callee.method
    let t := sc.writeBack block i.offset callee needs operands (leave callee constructs returned t)
    return .ok (t.observe i.offset (.call callee arguments intrinsic constructs))

/-! ## 3. Other calls -/

/-- Interprets a call whose target is not known.  A signature says how many operands it takes;
    without one the stack is given up. -/
def opaqueCall (sc : Scanner) (i : Instruction) (role : Role) (t : Trace) : Trace :=
  let constructs := role == .construct
  let t := t.drop i.offset (role == .callIndirect).toNat
  match i.token?.bind sc.context.store.callSite? with
  | some sig =>
    let t := t.drop i.offset (if constructs then sig.params.length else sig.stackArguments)
    if constructs || !sig.ret.isVoid then t.push .unknown else t
  | none =>
    let t := (t.observe i.offset (.fault (.unresolvedCall i))).clear
    if constructs then t.push .unknown else t

/-- The known target of a call; a call through a pointer has none. -/
def target? (sc : Scanner) (i : Instruction) (role : Role) : Option MethodRef :=
  if role = .callIndirect then none else i.token?.bind sc.context.callee?

/-- Interprets a call. -/
def stepCall (sc : Scanner) (block : Nat) (i : Instruction) (role : Role) (t : Trace) :
    Act (Except BrokenPromise Trace) :=
  match sc.target? i role with
  | some callee => sc.call block i callee (role == .construct) t
  | none => pure (.ok (sc.opaqueCall i role t))

end Scanner

end ReflectionFlow

/-
  File:      ReflectionFlow/Proofs/Reflection/Blame.lean
  Subject:   Which diagnostics are about faults in code.

  Rules, requirements and checks report what flows through a program; none of them ever says that
  the code itself makes no sense.  Only an observed fault does.  So the diagnostics about code that
  an analysis adds are its observed faults, one for each and in their order.

  * `Ledger.codeFaults`                  the diagnostics about code
  * `Act.Blameless`                      an action that adds none of them
  * `CallSite.blameless_rule`            the rules of the catalogue
  * `Context.blameless_apply`            observations other than faults
  * `Context.codeFaults_applyAll`        what all observations of a method report about code
-/
import ReflectionFlow.Proofs.Scan.Conduct

namespace ReflectionFlow

open Store Reporter

/-! ## 1. Actions -/

/-- The diagnostics about faults in code, in order. -/
def Ledger.codeFaults (l : Ledger) : List Diagnostic :=
  l.diagnostics.filter fun d => d.code == .invalidCode

theorem Ledger.codeFaults_append (l l' : Ledger) :
    (l ++ l').codeFaults = l.codeFaults ++ l'.codeFaults :=
  List.filter_append _ _

namespace Act

variable {α β : Type}

/-- **An action that reports no fault in code.** -/
def Blameless (x : Act α) : Prop :=
  ∀ session : Session, (x.run session).2.ledger.codeFaults = session.ledger.codeFaults

theorem blameless_pure (a : α) : Blameless (pure a) := fun _ => rfl

theorem Blameless.bind {x : Act α} {f : α → Act β} (hx : Blameless x) (hf : ∀ a, Blameless (f a)) :
    Blameless (x >>= f) := by
  intro session
  rw [run_bind]
  exact (hf _ _).trans (hx session)

theorem Blameless.forM {f : α → Act Unit} (h : ∀ a, Blameless (f a)) (l : List α) :
    Blameless (l.forM f) := by
  induction l with
  | nil => exact blameless_pure _
  | cons a l ih => exact (h a).bind fun _ => ih

theorem Blameless.mapM {f : α → Act β} (h : ∀ a, Blameless (f a)) (l : List α) :
    Blameless (l.mapM f) := by
  induction l with
  | nil => exact blameless_pure _
  | cons a l ih =>
      rw [List.mapM_cons]
      exact (h a).bind fun _ => ih.bind fun _ => blameless_pure _

theorem Blameless.collectM {f : Value → Act ValueSet} (h : ∀ v, Blameless (f v))
    (values : ValueSet) : Blameless (values.collectM f) := by
  unfold SetOf.collectM
  generalize SetOf.empty = acc
  induction values.members generalizing acc with
  | nil => exact blameless_pure _
  | cons v l ih =>
      rw [List.foldlM_cons]
      exact ((h v).bind fun _ => blameless_pure _).bind fun _ => ih _

/-- An action that enters nothing reports nothing. -/
theorem blameless_of_alike {s : Store} {x y : Act α}
    (h : s.Alike (fun _ => True) (fun _ => False) x y) : Blameless x := fun session =>
  congrArg Ledger.codeFaults (h.ledger_eq session)

theorem blameless_enter (m : Mark) : Blameless (Reporter.enter m) := fun _ => rfl

theorem blameless_note {d : Diagnostic} (hd : d.code ≠ .invalidCode) :
    Blameless (Reporter.note d) := by
  intro session
  show (session.ledger.diagnostics ++ [d]).filter _ = _
  rw [List.filter_append, List.filter_cons_of_neg (by simpa using hd), List.filter_nil,
    List.append_nil]
  rfl

end Act

open Act

/-! ## 2. Reporters -/

namespace Reporter

variable {r : Reporter}

theorem blameless_report {f : Finding} (hf : f.code ≠ .invalidCode) : Blameless (r.report f) := by
  unfold report
  split
  · exact blameless_note hf
  · exact blameless_pure _

theorem blameless_mark (m : Member) (reason : MarkReason) : Blameless (r.mark m reason) := by
  unfold mark
  split
  · exact blameless_enter _
  · exact blameless_pure _

theorem blameless_markType (t : Token) (reason : MarkReason) : Blameless (r.markType t reason) :=
  blameless_mark _ reason

theorem blameless_markAll (members : List Member) (reason : MarkReason) :
    Blameless (r.markAll members reason) :=
  .forM (fun m => blameless_mark m reason) members

theorem blameless_markNamed (tokens : List Token) : Blameless (r.markNamed tokens) :=
  .forM (fun t => blameless_markType t .typeName) tokens

theorem blameless_markMembers (t : Token) (c : Categories) (f : NameFilter) (reason : MarkReason) :
    Blameless (r.markMembers t c f reason) := by
  unfold markMembers
  split
  · split
    · exact (blameless_markType _ reason).bind fun _ => blameless_markAll _ reason
    · exact blameless_pure _
  · exact blameless_pure _

theorem blameless_requireNamed (text : String) (required : Categories) (place : Place) :
    Blameless (r.requireNamed text required place) := by
  unfold requireNamed
  refine (blameless_of_alike (.askTypeName text)).bind fun found => ?_
  split
  · exact (blameless_markType _ _).bind fun _ => (blameless_markMembers _ _ _ _).bind fun _ =>
      blameless_markNamed _
  · exact blameless_pure _
  · exact blameless_report nofun

theorem blameless_requireOne (required : Categories) (place : Place) (v : Value) :
    Blameless (r.requireOne required place v) := by
  unfold requireOne
  split
  · exact blameless_pure _
  · exact blameless_markMembers _ _ _ _
  · exact blameless_requireNamed _ required place
  · split
    · split
      · exact blameless_pure _
      · exact blameless_report nofun
    · exact blameless_report nofun

/-- **A requirement that is not met is no fault in code.** -/
theorem blameless_require (values : ValueSet) (required : Categories) (place : Place) :
    Blameless (r.require values required place) := by
  unfold require
  split
  · exact blameless_pure _
  · exact .forM (blameless_requireOne required place) _

theorem blameless_checkInterop (m : MethodDef) : Blameless (r.checkInterop m) := by
  unfold checkInterop
  split
  · exact blameless_report nofun
  · exact blameless_pure _

end Reporter

theorem Finding.genericCode_ne (what : Intrinsic) : genericCode what ≠ .invalidCode := by
  intro h
  cases what <;> cases h

/-! ## 3. Rules -/

namespace CallSite

variable {c : CallSite} {r : Reporter}

theorem blameless_defaultReturn : Blameless c.defaultReturn :=
  blameless_of_alike (alike_defaultReturn ⟨rfl, trivial⟩)

theorem blameless_orDefault (result : ValueSet) : Blameless (c.orDefault result) :=
  blameless_of_alike (alike_orDefault ⟨rfl, trivial⟩ result)

/-- Something that is no fault is reported, and the answer is the default one. -/
theorem blameless_thenDefault {x : Act Unit} (h : Blameless x) :
    Blameless (do x; c.defaultReturn) :=
  h.bind fun _ => blameless_defaultReturn

theorem blameless_namedBy (v : Value) : Blameless (c.namedBy r v) := by
  have hunrecognized : Blameless (namedBy.unrecognized r v) :=
    (blameless_report (f := .unknownTypeName v) nofun).bind fun _ => blameless_pure _
  unfold namedBy
  split
  · exact blameless_pure _
  · refine (blameless_of_alike (.askTypeName _)).bind fun found => ?_
    cases found with
    | none => exact blameless_pure _
    | some tokens => exact (blameless_markNamed tokens).bind fun _ => blameless_pure _
  · cases v.annotation? with
    | none => exact hunrecognized
    | some a =>
        show Blameless (if a.2.isEmpty then _ else _)
        split
        · exact hunrecognized
        · exact blameless_pure _

theorem blameless_lookupOn (kind : LookupKind) (names : LookupNames) (l : Lookup) (d : TypeDef) :
    Blameless (c.lookupOn r kind names l d) := by
  unfold lookupOn
  cases names.names with
  | none => exact blameless_thenDefault (blameless_markMembers _ _ _ _)
  | some names =>
      refine (Blameless.forM (fun n => blameless_markMembers _ _ _ _) names).bind fun _ => ?_
      cases uniqueMatch? kind (membersNamed r.store d l names) with
      | none => exact blameless_defaultReturn
      | some v => exact blameless_pure _

theorem blameless_lookupIn (kind : LookupKind) (names : LookupNames) (l : Lookup) (v : Value) :
    Blameless (c.lookupIn r kind names l v) := by
  unfold lookupIn
  split
  · exact blameless_pure _
  · next t =>
    cases r.store.type? t with
    | none => exact blameless_defaultReturn
    | some d => exact blameless_lookupOn kind names l d
  · exact blameless_thenDefault (blameless_require _ _ _)

theorem blameless_nameMember (categories : Categories) (index : Nat) (names : Option (List String))
    (v : Value) : Blameless (c.nameMember r categories index names v) := by
  unfold nameMember
  split
  · exact blameless_pure _
  · split
    · exact .forM (fun n => blameless_markMembers _ _ _ _) _
    · exact blameless_markMembers _ _ _ _
  · exact blameless_require _ _ _

theorem blameless_markLayout (v : Value) : Blameless (markLayout r v) := by
  unfold markLayout
  split
  · exact blameless_markMembers _ _ _ _
  · exact blameless_pure _

theorem blameless_markActivated (t : Token) (a : Activation) : Blameless (markActivated r t a) := by
  unfold markActivated
  cases r.store.type? t with
  | none => exact blameless_pure _
  | some d => exact (blameless_markType _ _).bind fun _ => blameless_markAll _ _

theorem blameless_create (a : Activation) (v : Value) : Blameless (c.create r a v) := by
  have hrequired : ∀ result, Blameless (create.required c r a v result) := fun result =>
    (blameless_require _ _ _).bind fun _ => blameless_pure _
  unfold create
  split
  · exact blameless_pure _
  · exact (blameless_markActivated _ a).bind fun _ => blameless_pure _
  · exact hrequired _
  · cases v.annotation? with
    | none => exact hrequired _
    | some promise =>
        show Blameless (if promise.2.covers a.requirement then _ else _)
        split
        · exact blameless_pure _
        · refine (blameless_of_alike (alike_isRuntimeType v)).bind fun isRuntime => ?_
          cases isRuntime with
          | true => exact blameless_pure _
          | false => exact hrequired _

theorem blameless_createNamed (a : Activation) (assembly name : Value) :
    Blameless (createNamed r a assembly name) := by
  unfold createNamed
  split
  · next assembly name =>
    cases r.store.typeIn? assembly name with
    | none => exact blameless_report nofun
    | some d => exact (blameless_markType _ _).bind fun _ => blameless_markActivated _ a
  · exact blameless_report nofun

theorem blameless_classConstructorOf (v : Value) : Blameless (classConstructorOf r v) := by
  unfold classConstructorOf
  split
  · exact blameless_pure _
  · next t =>
    cases r.store.type? t with
    | none => exact blameless_pure _
    | some d => exact (blameless_markType _ _).bind fun _ => blameless_markAll _ _
  · exact blameless_report nofun

theorem blameless_checkArgument (what : Intrinsic) (owner : Owner) (a : ArrayValue)
    (need : Categories) (index : Nat) : Blameless (checkArgument r what owner a need index) := by
  unfold checkArgument
  split
  · exact blameless_pure _
  · show Blameless (if (a.element (Int32.ofNat index)).isUnknown then _ else _)
    split
    · exact blameless_report (Finding.genericCode_ne what)
    · exact blameless_require _ _ _

theorem blameless_checkArguments (what : Intrinsic) (owner : Owner) (needs : List Categories)
    (v : Value) : Blameless (checkArguments r what owner needs v) := by
  unfold checkArguments
  split
  · exact blameless_pure _
  · exact .forM (fun (need, index) => blameless_checkArgument what owner _ need index) _
  · exact blameless_report (Finding.genericCode_ne what)

theorem blameless_instantiate (what : Intrinsic) (arguments : ValueSet) (v : Value) :
    Blameless (instantiate r what arguments v) := by
  unfold instantiate
  split
  · exact blameless_pure _
  · next owner _ _ =>
    refine (blameless_of_alike (.askGenericNeeds _)).bind fun needs => ?_
    split
    · exact blameless_pure _
    · exact .forM (blameless_checkArguments what owner needs) _
  · exact blameless_report (Finding.genericCode_ne what)

/-! ## 4. The catalogue -/

/-- A rule, if it applies, reports no fault in code. -/
abbrev BlamelessRule (rule? : Option (Act ValueSet)) : Prop := ∀ rule ∈ rule?, Blameless rule

theorem blamelessRule_some {x : Act ValueSet} (h : Blameless x) : BlamelessRule (some x) := by
  rintro _ ⟨⟩
  exact h

theorem blamelessRule_map {α : Type} {f : α → Act ValueSet} (h : ∀ a, Blameless (f a))
    (o : Option α) : BlamelessRule (o.map f) := by
  intro rule hrule
  obtain ⟨a, _, rfl⟩ := Option.map_eq_some_iff.mp hrule
  exact h a

theorem blamelessRule_bind {α : Type} {f : α → Option (Act ValueSet)}
    (h : ∀ a, BlamelessRule (f a)) (o : Option α) : BlamelessRule (o >>= f) := by
  intro rule hrule
  obtain ⟨a, _, ha⟩ := Option.bind_eq_some_iff.mp hrule
  exact h a rule ha

/-- A rule that tells its reporter nothing reports nothing. -/
theorem blamelessRule_of_alike {s : Store} {x y : Option (Act ValueSet)}
    (h : s.AlikeRules (fun _ => True) (fun _ => False) x y) : BlamelessRule x := by
  cases h with
  | none => exact nofun
  | some h => exact blamelessRule_some (blameless_of_alike h)

theorem blamelessRule_getType? : BlamelessRule (c.getType? r) := by
  unfold getType?
  split
  · exact blamelessRule_map (fun names =>
      (Blameless.collectM blameless_namedBy names).bind fun _ => blameless_pure _) _
  · exact nofun

theorem blamelessRule_lookupMembers? (kind : LookupKind) (named : Bool) :
    BlamelessRule (c.lookupMembers? r kind named) := by
  refine blamelessRule_bind (fun names => blamelessRule_bind (fun l => blamelessRule_bind
    (fun types => ?_) _) _) _
  exact blamelessRule_some ((Blameless.collectM (blameless_lookupIn kind names l) types).bind
    blameless_orDefault)

theorem blamelessRule_expressionMember? (member : ExpressionMember) :
    BlamelessRule (c.expressionMember? r member) := by
  unfold expressionMember?
  split
  · exact blamelessRule_some blameless_defaultReturn
  · refine blamelessRule_bind (fun names => blamelessRule_bind (fun types => ?_) _) _
    exact blamelessRule_some (blameless_thenDefault (.forM (blameless_nameMember _ _ _) _))

theorem blamelessRule_expressionNew? : BlamelessRule (c.expressionNew? r) := by
  unfold expressionNew?
  split
  · exact blamelessRule_map (fun types => blameless_thenDefault (blameless_require _ _ _)) _
  · exact blamelessRule_some blameless_defaultReturn

theorem blamelessRule_layout? : BlamelessRule (c.layout? r) := by
  unfold layout?
  split
  · exact blamelessRule_map (fun types => blameless_thenDefault (.forM blameless_markLayout _)) _
  · refine blamelessRule_some ?_
    split
    · exact (blameless_of_alike (c.context.alike_typeValue _)).bind fun v =>
        blameless_thenDefault (blameless_markLayout v)
    · exact blameless_defaultReturn

theorem blamelessRule_createInstance? : BlamelessRule (c.createInstance? r) := by
  refine blamelessRule_bind (fun a => blamelessRule_bind (fun types => blamelessRule_some ?_) _) _
  refine (Blameless.mapM (blameless_create a) _).bind fun created => ?_
  dsimp only
  split
  · exact blameless_defaultReturn.bind fun _ => blameless_orDefault _
  · exact (blameless_pure _).bind fun _ => blameless_orDefault _

theorem blamelessRule_createGeneric? : BlamelessRule (c.createGeneric? r) :=
  blamelessRule_map (fun arg => (blameless_of_alike (c.context.alike_typeValue arg)).bind fun _ =>
    blameless_thenDefault (blameless_require _ _ _)) _

theorem blamelessRule_createInstanceByName? : BlamelessRule (c.createInstanceByName? r) := by
  refine blamelessRule_bind (fun a => blamelessRule_bind (fun assemblies => blamelessRule_bind
    (fun names => blamelessRule_some (blameless_thenDefault ?_)) _) _) _
  exact .forM (fun assembly => .forM (blameless_createNamed a assembly) _) _

theorem blamelessRule_runClassConstructor? : BlamelessRule (c.runClassConstructor? r) :=
  blamelessRule_map (fun _ => blameless_thenDefault (.forM blameless_classConstructorOf _)) _

theorem blamelessRule_makeGeneric? (what : Intrinsic) : BlamelessRule (c.makeGeneric? r what) := by
  refine blamelessRule_bind (fun arguments => blamelessRule_bind (fun receivers =>
    blamelessRule_some ?_) _) _
  exact blameless_thenDefault (.forM (blameless_instantiate what arguments) _)

/-- **No rule of the catalogue reports a fault in code.** -/
theorem blameless_rule {what : Intrinsic} {rule : Act ValueSet} (h : c.handle? r what = some rule) :
    Blameless rule := by
  have hc : c.Within c.context.store fun _ => True := ⟨rfl, trivial⟩
  suffices hrule : BlamelessRule (c.handle? r what) from hrule rule h
  cases what with
  | getType => exact blamelessRule_getType?
  | typeFromHandle => exact blamelessRule_of_alike (alike_typeFromHandle? hc)
  | typeHandle => exact blamelessRule_of_alike (alike_typeHandle? hc)
  | objectGetType => exact blamelessRule_of_alike (alike_objectType? hc)
  | baseType => exact blamelessRule_of_alike (alike_baseType? hc)
  | lookup kind named => exact blamelessRule_lookupMembers? kind named
  | makeGenericType => exact blamelessRule_makeGeneric? .makeGenericType
  | makeGenericMethod => exact blamelessRule_makeGeneric? .makeGenericMethod
  | methodFromHandle => exact blamelessRule_of_alike (alike_methodFromHandle? hc)
  | createInstance => exact blamelessRule_createInstance?
  | createInstanceByName => exact blamelessRule_createInstanceByName?
  | createInstanceGeneric => exact blamelessRule_createGeneric?
  | createInstanceFromAssembly =>
      exact blamelessRule_some (blameless_thenDefault (blameless_report nofun))
  | runClassConstructor => exact blamelessRule_runClassConstructor?
  | expression member => exact blamelessRule_expressionMember? member
  | expressionNew => exact blamelessRule_expressionNew?
  | layout operation => exact blamelessRule_layout?
  | emptyArray => exact blamelessRule_some (blameless_pure _)

end CallSite

/-! ## 5. Observations -/

/-- The fault that an observation is of. -/
def Observation.fault? : Observation → Option CodeFault
  | .fault f => some f
  | _ => none

namespace Context

variable {c : Context} {r : Reporter}

theorem blameless_checkWarning (m : MethodDef) (needs : Needs) :
    Blameless (c.checkWarning r m needs) := by
  unfold checkWarning
  split
  · refine (blameless_of_alike (.askNeeds _ trivial)).bind fun _ => ?_
    split
    · exact blameless_report nofun
    · exact blameless_pure _
  · exact blameless_pure _

theorem blameless_checkGenerics (owner : Owner) (args : List TypeSig) :
    Blameless (c.checkGenerics r owner args) := by
  unfold checkGenerics
  split
  · exact blameless_pure _
  · refine (blameless_of_alike (.askGenericNeeds owner)).bind fun needs =>
      .forM (fun ((arg, need), index) => ?_) _
    dsimp only
    split
    · exact (blameless_of_alike (c.alike_typeValue arg)).bind fun _ => blameless_require _ _ _
    · exact blameless_pure _

theorem blameless_applyOrdinary (site : CallSite) (needs : Needs) (constructs : Bool) :
    Blameless (c.applyOrdinary r site needs constructs) := by
  have hparameters : Blameless (checkParameters r site needs) := by
    refine .forM (fun (need, index) => ?_) _
    dsimp only
    split
    · exact blameless_require _ _ _
    · exact blameless_pure _
  have hreceiver : Blameless (checkReceiver r site needs) := by
    unfold checkReceiver
    split
    · exact blameless_require _ _ _
    · exact blameless_pure _
  have hgenerics : Blameless (do
      c.checkGenerics r (.method site.method.token) site.callee.methodArgs
      c.checkGenerics r (.type site.method.declaring) site.callee.typeArgs) :=
    (blameless_checkGenerics _ _).bind fun _ => blameless_checkGenerics _ _
  unfold applyOrdinary
  refine hparameters.bind fun _ => ?_
  dsimp only
  split
  · exact hreceiver.bind fun _ => hgenerics
  · exact hgenerics

theorem blameless_applyCatalogued (site : CallSite) (what : Intrinsic) :
    Blameless (applyCatalogued r site what) := by
  unfold applyCatalogued
  split
  · next rule hrule => exact (CallSite.blameless_rule hrule).bind fun _ => blameless_pure _
  · exact blameless_report nofun

theorem blameless_applyCall (site : CallSite) (intrinsic : Option Intrinsic) (constructs : Bool) :
    Blameless (c.applyCall r site intrinsic constructs) := by
  have hlast : Blameless
      (if c.config.checksInterop then r.checkInterop site.method else pure ()) := by
    split
    · exact blameless_checkInterop _
    · exact blameless_pure _
  unfold applyCall
  refine (blameless_of_alike (.askNeeds _ trivial)).bind fun needs =>
    (blameless_checkWarning _ _).bind fun _ => ?_
  dsimp only
  split
  · exact (blameless_applyCatalogued _ _).bind fun _ => hlast
  · exact (blameless_applyOrdinary _ _ _).bind fun _ => hlast

theorem blameless_applyCast (values : ValueSet) (target : Token) :
    Blameless (c.applyCast r values target) := by
  have hone : ∀ t v, Blameless (c.applyCastOne r t v) := by
    intro t v
    unfold applyCastOne
    split
    · split
      · exact blameless_pure _
      · refine (blameless_of_alike (.askIntrinsic _)).bind fun found => ?_
        split
        · split
          · exact blameless_markMembers _ _ _ _
          · exact blameless_pure _
        · exact blameless_pure _
    · exact blameless_pure _
  unfold applyCast
  split
  · exact .forM (hone _) _
  · exact blameless_pure _

/-- **An observation that is no fault reports none.** -/
theorem blameless_apply (offset : Nat) {o : Observation} (h : o.fault? = none) :
    Blameless (c.apply offset o) := by
  cases o with
  | call callee arguments intrinsic constructs => exact blameless_applyCall _ _ _
  | assignment values required place => exact blameless_require _ _ _
  | cast values target => exact blameless_applyCast _ _
  | fault f => cases h

/-- The diagnostic that a fault gives. -/
def faultReport? (c : Context) (e : Nat × Observation) : Option Diagnostic :=
  e.2.fault?.map fun f => (Finding.invalidCode f).diagnostic ⟨c.method.token, some e.1⟩

/-- **The diagnostics about code that an analysis adds are the observed faults**, one for each. -/
theorem codeFaults_applyAll (hreports : c.config.reportsInvalidCode = true)
    (log : ObservationLog Observation) (session : Session) :
    ((c.applyAll log).run session).2.ledger.codeFaults =
      session.ledger.codeFaults ++ log.toList.filterMap c.faultReport? := by
  unfold applyAll
  induction log.toList generalizing session with
  | nil => exact (List.append_nil _).symm
  | cons e l ih =>
      obtain ⟨offset, o⟩ := e
      refine (ih ((c.apply offset o).run session).2).trans ?_
      cases o with
      | fault f =>
          have happly : c.apply offset (.fault f) =
              Reporter.note ((Finding.invalidCode f).diagnostic ⟨c.method.token, some offset⟩) :=
            if_pos hreports
          rw [happly, List.filterMap_cons_some (f := c.faultReport?) rfl, List.append_cons]
          refine congrArg (· ++ _) ?_
          show (session.ledger.diagnostics ++ [_]).filter _ = _
          rw [List.filter_append]
          rfl
      | call callee arguments intrinsic constructs =>
          rw [blameless_apply offset rfl, List.filterMap_cons_none rfl]
      | assignment values required place =>
          rw [blameless_apply offset rfl, List.filterMap_cons_none rfl]
      | cast values target =>
          rw [blameless_apply offset rfl, List.filterMap_cons_none rfl]

end Context

end ReflectionFlow

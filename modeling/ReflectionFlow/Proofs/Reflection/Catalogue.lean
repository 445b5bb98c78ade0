/-
  File:      ReflectionFlow/Proofs/Reflection/Catalogue.lean
  Subject:   Every rule of the catalogue answers the same with and without a live reporter.

  A rule looks at the shape of a call to see whether it applies, and at the values of the
  arguments for its answer.  Whether its reporter is live decides about entries and nothing else.

  * `CallSite.Within`         a call in a store, of a method that may be asked about
  * `CallSite.alike_handle?`  the rule for a call, with a reporter and with a dimmed one;
                              `CallSite.alike_rule` is the same for one reporter
-/
import ReflectionFlow.Proofs.Session.Conduct
import ReflectionFlow.Reflection.Handle

namespace ReflectionFlow

open Store Reporter

/-! ## 1. Rules -/

/-- The call refers to a store and is of a method that may be asked about. -/
structure CallSite.Within (c : CallSite) (s : Store) (M : MethodDef → Prop) : Prop where
  store : c.context.store = s
  method : M c.method

/-- Rules that apply to the same calls and answer alike. -/
abbrev Store.AlikeRules (s : Store) (M : MethodDef → Prop) (P : Origin → Prop) :
    Option (Act ValueSet) → Option (Act ValueSet) → Prop :=
  Option.Rel (s.Alike M P)

namespace CallSite

variable {s : Store} {M : MethodDef → Prop} {P : Origin → Prop} {r : Reporter} {c : CallSite}

theorem alikeRules_map {α : Type} {f g : α → Act ValueSet} (h : ∀ a, s.Alike M P (f a) (g a))
    (o : Option α) : s.AlikeRules M P (o.map f) (o.map g) := by
  cases o with
  | none => exact .none
  | some a => exact .some (h a)

theorem alikeRules_bind {α : Type} {f g : α → Option (Act ValueSet)}
    (h : ∀ a, s.AlikeRules M P (f a) (g a)) (o : Option α) :
    s.AlikeRules M P (o >>= f) (o >>= g) := by
  cases o with
  | none => exact .none
  | some a => exact h a

theorem alike_defaultReturn (hc : c.Within s M) : s.Alike M P c.defaultReturn c.defaultReturn := by
  unfold defaultReturn
  rw [hc.store]
  split
  · exact .pure _
  · split
    · exact .pure _
    · exact .bind (.askNeeds _ hc.method) fun _ => .pure _

theorem alike_orDefault (hc : c.Within s M) (result : ValueSet) :
    s.Alike M P (c.orDefault result) (c.orDefault result) := by
  unfold orDefault
  split
  · exact alike_defaultReturn hc
  · exact .pure _

/-- Something is entered, and the answer is the default one. -/
theorem alike_thenDefault (hc : c.Within s M) {x y : Act Unit} (h : s.Alike M P x y) :
    s.Alike M P (do x; c.defaultReturn) (do y; c.defaultReturn) :=
  .bind h fun _ => alike_defaultReturn hc

/-! ## 2. Types and handles -/

theorem alike_namedBy (hr : r.Serves s P) (b : Bool) (v : Value) :
    s.Alike M P (c.namedBy r v) (c.namedBy (r.dimmed b) v) := by
  have hunrecognized : s.Alike M P (namedBy.unrecognized r v) (namedBy.unrecognized (r.dimmed b) v) :=
    .bind (alike_report hr _ b) fun _ => .pure _
  unfold namedBy
  split
  · exact .pure _
  · refine .bind ?_ fun found => ?_
    · rw [dimmed_store, hr.store]
      exact .askTypeName _
    · cases found with
      | none => exact .pure _
      | some tokens => exact .bind (alike_markNamed hr tokens b) fun _ => .pure _
  · cases v.annotation? with
    | none => exact hunrecognized
    | some a =>
        show s.Alike M P (if a.2.isEmpty then _ else _) (if a.2.isEmpty then _ else _)
        split
        · exact hunrecognized
        · exact .pure _

theorem alike_getType? (hr : r.Serves s P) (b : Bool) :
    s.AlikeRules M P (c.getType? r) (c.getType? (r.dimmed b)) := by
  unfold getType?
  split
  · exact alikeRules_map (fun names => .bind (.collectM (alike_namedBy hr b) names)
      fun _ => .pure _) _
  · exact .none

theorem alike_typeFromHandle? (hc : c.Within s M) :
    s.AlikeRules M P c.typeFromHandle? c.typeFromHandle? := by
  refine alikeRules_map (.flatMapM fun v => ?_) _
  split
  · exact .pure _
  · exact .pure _
  · exact alike_defaultReturn hc

theorem alike_typeHandle? (hc : c.Within s M) : s.AlikeRules M P c.typeHandle? c.typeHandle? := by
  refine alikeRules_map (.flatMapM fun v => ?_) _
  split
  · exact .pure _
  · exact .pure _
  · exact alike_defaultReturn hc

theorem alike_methodFromHandle? (hc : c.Within s M) :
    s.AlikeRules M P c.methodFromHandle? c.methodFromHandle? := by
  refine alikeRules_map (.flatMapM fun v => ?_) _
  split
  · exact .pure _
  · exact alike_defaultReturn hc

theorem alike_objectType? (hc : c.Within s M) : s.AlikeRules M P c.objectType? c.objectType? := by
  refine alikeRules_map (fun objects => .bind (.flatMapM (fun v => ?_) objects)
    (alike_orDefault hc)) _
  split
  · exact .pure _
  · split
    · exact .pure _
    · exact alike_defaultReturn hc

theorem alike_baseOf (hc : c.Within s M) (v : Value) : s.Alike M P (c.baseOf v) (c.baseOf v) := by
  unfold baseOf
  split
  · split
    · split
      · exact .pure _
      · split
        · exact .pure _
        · exact alike_defaultReturn hc
    · exact alike_defaultReturn hc
  · split
    · split
      · exact alike_defaultReturn hc
      · exact .pure _
    · exact alike_defaultReturn hc

theorem alike_baseType? (hc : c.Within s M) : s.AlikeRules M P c.baseType? c.baseType? :=
  alikeRules_map (.flatMapM (alike_baseOf hc)) _

/-! ## 3. Members -/

theorem alike_lookupOn (hr : r.Serves s P) (hc : c.Within s M) (b : Bool) (kind : LookupKind)
    (names : LookupNames) (l : Lookup) (d : TypeDef) :
    s.Alike M P (c.lookupOn r kind names l d) (c.lookupOn (r.dimmed b) kind names l d) := by
  unfold lookupOn
  cases names.names with
  | none => exact alike_thenDefault hc (alike_markMembers hr _ _ _ _ b)
  | some names =>
      refine .bind (.forM (fun n => alike_markMembers hr _ _ _ _ b) names) fun _ => ?_
      rw [dimmed_store]
      cases uniqueMatch? kind (membersNamed r.store d l names) with
      | none => exact alike_defaultReturn hc
      | some v => exact .pure _

theorem alike_lookupIn (hr : r.Serves s P) (hc : c.Within s M) (b : Bool) (kind : LookupKind)
    (names : LookupNames) (l : Lookup) (v : Value) :
    s.Alike M P (c.lookupIn r kind names l v) (c.lookupIn (r.dimmed b) kind names l v) := by
  unfold lookupIn
  split
  · exact .pure _
  · next t =>
    rw [dimmed_store]
    cases r.store.type? t with
    | none => exact alike_defaultReturn hc
    | some d => exact alike_lookupOn hr hc b kind names l d
  · exact alike_thenDefault hc (alike_require hr _ _ _ b)

theorem alike_lookupMembers? (hr : r.Serves s P) (hc : c.Within s M) (b : Bool)
    (kind : LookupKind) (named : Bool) :
    s.AlikeRules M P (c.lookupMembers? r kind named) (c.lookupMembers? (r.dimmed b) kind named) := by
  refine alikeRules_bind (fun names => alikeRules_bind (fun l => alikeRules_bind (fun types => ?_) _)
    _) _
  exact .some (.bind (.collectM (alike_lookupIn hr hc b kind names l) types) (alike_orDefault hc))

theorem alike_nameMember (hr : r.Serves s P) (b : Bool) (categories : Categories) (index : Nat)
    (names : Option (List String)) (v : Value) :
    s.Alike M P (c.nameMember r categories index names v)
      (c.nameMember (r.dimmed b) categories index names v) := by
  unfold nameMember
  split
  · exact .pure _
  · split
    · exact .forM (fun n => alike_markMembers hr _ _ _ _ b) _
    · exact alike_markMembers hr _ _ _ _ b
  · exact alike_require hr _ _ _ b

theorem alike_expressionMember? (hr : r.Serves s P) (hc : c.Within s M) (b : Bool)
    (member : ExpressionMember) :
    s.AlikeRules M P (c.expressionMember? r member) (c.expressionMember? (r.dimmed b) member) := by
  unfold expressionMember?
  split
  · exact .some (alike_defaultReturn hc)
  · refine alikeRules_bind (fun names => alikeRules_bind (fun types => ?_) _) _
    exact .some (alike_thenDefault hc (.forM (alike_nameMember hr b _ _ _) _))

theorem alike_markLayout (hr : r.Serves s P) (b : Bool) (v : Value) :
    s.Alike M P (markLayout r v) (markLayout (r.dimmed b) v) := by
  unfold markLayout
  split
  · exact alike_markMembers hr _ _ _ _ b
  · exact .pure _

theorem alike_layout? (hr : r.Serves s P) (hc : c.Within s M) (b : Bool) :
    s.AlikeRules M P (c.layout? r) (c.layout? (r.dimmed b)) := by
  unfold layout?
  split
  · exact alikeRules_map (fun types => alike_thenDefault hc (.forM (alike_markLayout hr b) _)) _
  · refine .some ?_
    split
    · refine .bind ?_ fun v => alike_thenDefault hc (alike_markLayout hr b v)
      have := c.context.alike_typeValue (M := M) (P := P)
      rw [hc.store] at this
      exact this _
    · exact alike_defaultReturn hc

/-! ## 4. Instances -/

theorem alike_markActivated (hr : r.Serves s P) (b : Bool) (t : Token) (a : Activation) :
    s.Alike M P (markActivated r t a) (markActivated (r.dimmed b) t a) := by
  unfold markActivated
  rw [dimmed_store]
  cases r.store.type? t with
  | none => exact .pure _
  | some d => exact .bind (alike_markType hr _ _ b) fun _ => alike_markAll hr _ _ b

theorem alike_isRuntimeType (v : Value) : s.Alike M P (isRuntimeType s v) (isRuntimeType s v) := by
  unfold isRuntimeType
  split
  · exact .bind (.askIntrinsic _) fun _ => .pure _
  · exact .pure _

theorem alike_create (hr : r.Serves s P) (b : Bool) (a : Activation) (v : Value) :
    s.Alike M P (c.create r a v) (c.create (r.dimmed b) a v) := by
  have hrequired : ∀ result, s.Alike M P (create.required c r a v result)
      (create.required c (r.dimmed b) a v result) := fun result =>
    .bind (alike_require hr _ _ _ b) fun _ => .pure _
  have hruntime : s.Alike M P (isRuntimeType r.store v) (isRuntimeType (r.dimmed b).store v) := by
    rw [dimmed_store, hr.store]
    exact alike_isRuntimeType v
  unfold create
  split
  · exact .pure _
  · exact .bind (alike_markActivated hr b _ a) fun _ => .pure _
  · exact hrequired _
  · cases v.annotation? with
    | none => exact hrequired _
    | some promise =>
        show s.Alike M P (if promise.2.covers a.requirement then _ else _)
          (if promise.2.covers a.requirement then _ else _)
        split
        · exact .pure _
        · refine .bind hruntime fun isRuntime => ?_
          cases isRuntime with
          | true => exact .pure _
          | false => exact hrequired _

theorem alike_createInstance? (hr : r.Serves s P) (hc : c.Within s M) (b : Bool) :
    s.AlikeRules M P (c.createInstance? r) (c.createInstance? (r.dimmed b)) := by
  refine alikeRules_bind (fun a => alikeRules_bind (fun types => .some ?_) _) _
  refine .bind (.mapM (alike_create hr b a) _) fun created => ?_
  dsimp only
  split
  · exact .bind (alike_defaultReturn hc) fun _ => alike_orDefault hc _
  · exact .bind (.pure _) fun _ => alike_orDefault hc _

theorem alike_createGeneric? (hr : r.Serves s P) (hc : c.Within s M) (b : Bool) :
    s.AlikeRules M P (c.createGeneric? r) (c.createGeneric? (r.dimmed b)) := by
  refine alikeRules_map (fun arg => .bind ?_ fun v =>
    alike_thenDefault hc (alike_require hr _ _ _ b)) _
  have := c.context.alike_typeValue (M := M) (P := P) arg
  rw [hc.store] at this
  exact this

theorem alike_createNamed (hr : r.Serves s P) (b : Bool) (a : Activation) (assembly name : Value) :
    s.Alike M P (createNamed r a assembly name) (createNamed (r.dimmed b) a assembly name) := by
  unfold createNamed
  split
  · next assembly name =>
    rw [dimmed_store]
    cases r.store.typeIn? assembly name with
    | none => exact alike_report hr _ b
    | some d => exact .bind (alike_markType hr _ _ b) fun _ => alike_markActivated hr b _ a
  · exact alike_report hr _ b

theorem alike_createInstanceByName? (hr : r.Serves s P) (hc : c.Within s M) (b : Bool) :
    s.AlikeRules M P (c.createInstanceByName? r) (c.createInstanceByName? (r.dimmed b)) := by
  refine alikeRules_bind (fun a => alikeRules_bind (fun assemblies => alikeRules_bind (fun names =>
    .some (alike_thenDefault hc ?_)) _) _) _
  exact .forM (fun assembly => .forM (alike_createNamed hr b a assembly) _) _

theorem alike_classConstructorOf (hr : r.Serves s P) (b : Bool) (v : Value) :
    s.Alike M P (classConstructorOf r v) (classConstructorOf (r.dimmed b) v) := by
  unfold classConstructorOf
  split
  · exact .pure _
  · next t =>
    rw [dimmed_store]
    cases r.store.type? t with
    | none => exact .pure _
    | some d => exact .bind (alike_markType hr _ _ b) fun _ => alike_markAll hr _ _ b
  · exact alike_report hr _ b

theorem alike_runClassConstructor? (hr : r.Serves s P) (hc : c.Within s M) (b : Bool) :
    s.AlikeRules M P (c.runClassConstructor? r) (c.runClassConstructor? (r.dimmed b)) :=
  alikeRules_map (fun _ => alike_thenDefault hc (.forM (alike_classConstructorOf hr b) _)) _

/-! ## 5. Generic arguments -/

theorem alike_checkArgument (hr : r.Serves s P) (b : Bool) (what : Intrinsic) (owner : Owner)
    (a : ArrayValue) (need : Categories) (index : Nat) :
    s.Alike M P (checkArgument r what owner a need index)
      (checkArgument (r.dimmed b) what owner a need index) := by
  unfold checkArgument
  split
  · exact .pure _
  · show s.Alike M P (if (a.element (Int32.ofNat index)).isUnknown then _ else _)
      (if (a.element (Int32.ofNat index)).isUnknown then _ else _)
    split
    · exact alike_report hr _ b
    · exact alike_require hr _ _ _ b

theorem alike_checkArguments (hr : r.Serves s P) (b : Bool) (what : Intrinsic) (owner : Owner)
    (needs : List Categories) (v : Value) :
    s.Alike M P (checkArguments r what owner needs v)
      (checkArguments (r.dimmed b) what owner needs v) := by
  unfold checkArguments
  split
  · exact .pure _
  · exact .forM (fun (need, index) => alike_checkArgument hr b what owner _ need index) _
  · exact alike_report hr _ b

theorem alike_instantiate (hr : r.Serves s P) (b : Bool) (what : Intrinsic) (arguments : ValueSet)
    (v : Value) :
    s.Alike M P (instantiate r what arguments v) (instantiate (r.dimmed b) what arguments v) := by
  unfold instantiate
  rw [dimmed_store]
  split
  · exact .pure _
  · next owner _ _ =>
    refine .bind ?_ fun needs => ?_
    · rw [hr.store]
      exact .askGenericNeeds _
    · split
      · exact .pure _
      · exact .forM (alike_checkArguments hr b what owner needs) _
  · exact alike_report hr _ b

theorem alike_makeGeneric? (hr : r.Serves s P) (hc : c.Within s M) (b : Bool) (what : Intrinsic) :
    s.AlikeRules M P (c.makeGeneric? r what) (c.makeGeneric? (r.dimmed b) what) := by
  refine alikeRules_bind (fun arguments => alikeRules_bind (fun receivers => .some ?_) _) _
  exact alike_thenDefault hc (.forM (alike_instantiate hr b what arguments) _)

/-! ## 6. The catalogue -/

theorem alike_expressionNew? (hr : r.Serves s P) (hc : c.Within s M) (b : Bool) :
    s.AlikeRules M P (c.expressionNew? r) (c.expressionNew? (r.dimmed b)) := by
  unfold expressionNew?
  split
  · exact alikeRules_map (fun types => alike_thenDefault hc (alike_require hr _ _ _ b)) _
  · exact .some (alike_defaultReturn hc)

/-- **The rule for a call does not depend on its reporter being live**: it applies to the same
    calls and gives the same answer, and a dimmed reporter only enters less. -/
theorem alike_handle? (hr : r.Serves s P) (hc : c.Within s M) (b : Bool) (what : Intrinsic) :
    s.AlikeRules M P (c.handle? r what) (c.handle? (r.dimmed b) what) := by
  cases what with
  | getType => exact alike_getType? hr b
  | typeFromHandle => exact alike_typeFromHandle? hc
  | typeHandle => exact alike_typeHandle? hc
  | objectGetType => exact alike_objectType? hc
  | baseType => exact alike_baseType? hc
  | lookup kind named => exact alike_lookupMembers? hr hc b kind named
  | makeGenericType => exact alike_makeGeneric? hr hc b .makeGenericType
  | makeGenericMethod => exact alike_makeGeneric? hr hc b .makeGenericMethod
  | methodFromHandle => exact alike_methodFromHandle? hc
  | createInstance => exact alike_createInstance? hr hc b
  | createInstanceByName => exact alike_createInstanceByName? hr hc b
  | createInstanceGeneric => exact alike_createGeneric? hr hc b
  | createInstanceFromAssembly => exact .some (alike_thenDefault hc (alike_report hr _ b))
  | runClassConstructor => exact alike_runClassConstructor? hr hc b
  | expression member => exact alike_expressionMember? hr hc b member
  | expressionNew => exact alike_expressionNew? hr hc b
  | layout operation => exact alike_layout? hr hc b
  | emptyArray => exact .some (.pure _)

/-- The rule for a call, with one reporter. -/
theorem alike_rule (hr : r.Serves s P) (hc : c.Within s M) {what : Intrinsic} {rule : Act ValueSet}
    (h : c.handle? r what = some rule) : s.Alike M P rule rule := by
  have hrule := alike_handle? hr hc true what
  rw [dimmed_true, h] at hrule
  cases hrule with
  | some hrule => exact hrule

end CallSite

end ReflectionFlow

/-
  File:      ReflectionFlow/Proofs/Reflection/Activations.lean
  Subject:   Merged arguments of calls that create instances.

  Which constructors a creation may run is read off three arguments: binding flags, a flag for
  non-public constructors and the array of constructor arguments.  Each of them is taken together
  before the types are gone through.

  For binding flags this can lose something.  Flags that name no visibility mean public
  constructors; taken together with flags that name non-public ones they mean nothing.

  * `SetOf.clearFlags`, `Activation.clearFlags_iff`   flags for which nothing is lost
  * `Activation.Covers`                  an activation that runs what another one runs
  * `CallSite.activation_conservative`   the rules for activations, with clear flags
-/
import ReflectionFlow.Proofs.Reflection.Merging

namespace ReflectionFlow

open Store Reporter

/-! ## 1. Activations -/

/-- Flags that leave no doubt about visibility when they are taken together: some name public
    members, or all or none of them name non-public ones. -/
def SetOf.clearFlags (flags : ValueSet) : Bool :=
  match Lookup.flagsOf? flags.members with
  | some all =>
    all.any BindingFlags.wantsPublic || all.all BindingFlags.wantsNonPublic ||
      !all.any BindingFlags.wantsNonPublic
  | none => true

namespace Activation

/-- An activation that runs what another one runs. -/
structure Covers (a' a : Activation) : Prop where
  reachesPublic : a.reachesPublic = true → a'.reachesPublic = true
  reachesNonPublic : a.reachesNonPublic = true → a'.reachesNonPublic = true
  arity : ∀ n, a'.arity = some n → a.arity = some n

variable {a a' : Activation}

theorem Covers.refl (a : Activation) : a.Covers a := ⟨id, id, fun _ => id⟩

theorem Covers.requirement (h : a'.Covers a) : a'.requirement.covers a.requirement = true := by
  have hbits : ∀ p n z p' n' z' : Bool, (p = true → p' = true) → (n = true → n' = true) →
      (z' = true → z = true) →
      ((if p' then if z' then Categories.publicParameterlessConstructor else .publicConstructors
          else .nothing) ∪ if n' then .nonPublicConstructors else .nothing).covers
        ((if p then if z then Categories.publicParameterlessConstructor else .publicConstructors
          else .nothing) ∪ if n then .nonPublicConstructors else .nothing) = true := by decide
  have hcovers := hbits _ _ (decide (a.arity = some 0)) _ _ (decide (a'.arity = some 0))
    h.reachesPublic h.reachesNonPublic (by simpa using h.arity 0)
  simp only [decide_eq_true_eq] at hcovers
  exact hcovers

theorem Covers.runs (h : a'.Covers a) {m : MethodDef} (hm : a.runs m = true) : a'.runs m = true := by
  unfold Activation.runs at hm ⊢
  simp only [Bool.and_eq_true] at hm ⊢
  obtain ⟨⟨hconstructor, hvisible⟩, harity⟩ := hm
  refine ⟨⟨hconstructor, ?_⟩, ?_⟩
  · split at hvisible
    next hpublic => rw [if_pos hpublic]; exact h.reachesPublic hvisible
    next hpublic => rw [if_neg hpublic]; exact h.reachesNonPublic hvisible
  · cases ha' : a'.arity with
    | none => rfl
    | some n =>
        rw [h.arity n ha'] at harity
        exact harity

theorem arityOf?_single {arguments : ValueSet} {v : Value} (hv : v ∈ arguments) {n : Nat}
    (h : arityOf? arguments = some n) : arityOf? (.single v) = some n := by
  have hall : ∀ w ∈ arguments.members, sizeOf? w = some n := by
    unfold arityOf? at h
    split at h
    next first rest hsizes =>
      split at h
      next hrest =>
        obtain rfl := Option.some.inj h
        have hmem : ∀ size ∈ arguments.members.map sizeOf?, size = some first := by
          rw [hsizes]
          simpa using List.all_eq_true.mp hrest
        exact fun w hw => hmem _ (List.mem_map_of_mem hw)
      next => cases h
    next => cases h
  simp [arityOf?, SetOf.single, hall v hv]

/-- **Clear flags are those that lose no public constructor when they are taken together.** -/
theorem clearFlags_iff (kind : LookupKind) (flags : ValueSet) (n n' : Option Nat) :
    flags.clearFlags = true ↔ ∀ v ∈ flags,
      (ofLookup (.ofFlags kind (.single v)) n).reachesPublic = true →
        (ofLookup (.ofFlags kind flags) n').reachesPublic = true := by
  unfold SetOf.clearFlags
  cases hall : Lookup.flagsOf? flags.members with
  | none =>
      simp [Lookup.ofFlags_of_none kind hall, ofLookup, Lookup.anything, Lookup.reaching]
  | some all =>
      have hone : ∀ v ∈ flags, ∀ f, v.constant?.bind BindingFlags.ofConstant? = some f →
          ((ofLookup (.ofFlags kind (.single v)) n).reachesPublic = true →
            (ofLookup (.ofFlags kind flags) n').reachesPublic = true) =
          (f.wantsPublic = true ∨ f.wantsNonPublic = false →
            all.any BindingFlags.wantsPublic = true ∨ all.any BindingFlags.wantsNonPublic = false) := by
        intro v hv f hf
        rw [Lookup.ofFlags_of_some kind hv hall, Lookup.ofFlags_single, hf]
        simp [ofLookup, Lookup.reaching]
      constructor
      · intro hclear v hv
        obtain ⟨f, hf, hvf⟩ := image_of_mapM hall hv
        rw [hone v hv f hvf]
        simp only [Bool.or_eq_true, Bool.not_eq_true'] at hclear
        rintro (hpublic | hnonPublic)
        · exact .inl (List.any_eq_true.mpr ⟨f, hf, hpublic⟩)
        · rcases hclear with (hpublic | hnonPublic') | hnone
          · exact .inl hpublic
          · rw [List.all_eq_true.mp hnonPublic' f hf] at hnonPublic
            cases hnonPublic
          · exact .inr hnone
      · intro hlost
        simp only [Bool.or_eq_true, Bool.not_eq_true']
        by_cases hnonPublic : all.all BindingFlags.wantsNonPublic = true
        · exact .inl (.inr hnonPublic)
        · -- a constant that names no non-public members means public ones
          obtain ⟨f, hf, hfn⟩ : ∃ f ∈ all, f.wantsNonPublic = false := by simpa using hnonPublic
          obtain ⟨v, hv, hvf⟩ := preimage_of_mapM hall hf
          have h := hlost v hv
          rw [hone v hv f hvf] at h
          exact (h (.inr hfn)).imp .inl id

theorem covers_ofFlags (kind : LookupKind) {flags arguments : ValueSet}
    (hclear : flags.clearFlags = true) {v w : Value} (hv : v ∈ flags) (hw : w ∈ arguments) :
    (ofLookup (.ofFlags kind flags) (arityOf? arguments)).Covers
      (ofLookup (.ofFlags kind (.single v)) (arityOf? (.single w))) :=
  ⟨(clearFlags_iff kind flags _ _).mp hclear v hv,
    (Lookup.wider_ofFlags kind hv).reachesNonPublic, fun _ => arityOf?_single hw⟩

end Activation

/-! ## 2. Rules -/

namespace CallSite

/-- The flags of a call leave no doubt about visibility. -/
def ClearFlags (c : CallSite) : Prop :=
  ∀ index flags, c.shapes[index]? = some .bindingFlags → c.parameter? index = some flags →
    flags.clearFlags = true

section Activations

variable {s : Store} {r : Reporter} {c : CallSite} {vs : List Value}
  (hr : r.Serves s fun _ => True) (hc : c.context.store = s) (hs : s.TypesTabled)
  (hvs : c.Offers vs) (hclear : c.ClearFlags)

include hvs hclear in
/-- Flags and arguments are each taken together. -/
theorem rel_ofFlags {index index' : Nat} (hshape : c.shapes[index]? = some .bindingFlags) :
    Option.Rel Activation.Covers
      (do
        let flags ← c.parameter? index
        let arguments ← c.parameter? index'
        return .ofLookup (.ofFlags .constructors flags) (Activation.arityOf? arguments))
      (do
        let flags ← (c.choosing vs).parameter? index
        let arguments ← (c.choosing vs).parameter? index'
        return .ofLookup (.ofFlags .constructors flags) (Activation.arityOf? arguments)) := by
  refine rel_bind (hvs.parameter? index) ?_
  rintro flags _ hflags ⟨v, hv, rfl⟩
  refine rel_bind (hvs.parameter? index') ?_
  rintro arguments _ _ ⟨w, hw, rfl⟩
  exact .some (Activation.covers_ofFlags _ (hclear index flags hshape hflags) hv hw)

include hvs hclear in
theorem rel_activation? :
    Option.Rel Activation.Covers c.activation? (c.choosing vs).activation? := by
  have harguments : Option.Rel Activation.Covers
      ((c.parameter? 1).map fun arguments => ⟨true, false, Activation.arityOf? arguments⟩)
      (((c.choosing vs).parameter? 1).map fun arguments =>
        ⟨true, false, Activation.arityOf? arguments⟩) := by
    refine rel_map (hvs.parameter? 1) ?_
    rintro arguments _ ⟨v, hv, rfl⟩
    exact ⟨id, id, fun _ => Activation.arityOf?_single hv⟩
  unfold activation?
  rw [choosing_shapes]
  split
  next => exact .some (.refl _)
  next =>
    refine rel_map (hvs.parameter? 1) ?_
    rintro flag _ ⟨v, hv, rfl⟩
    exact ⟨id, maybeTrue_of_single hv, fun _ => id⟩
  next => exact harguments
  next => exact harguments
  next hshapes => exact rel_ofFlags hvs hclear (by rw [hshapes]; rfl)
  next hshapes => exact rel_ofFlags hvs hclear (by rw [hshapes]; rfl)
  next => exact .none

include hvs hclear in
theorem rel_activationByName? :
    Option.Rel Activation.Covers c.activationByName? (c.choosing vs).activationByName? := by
  unfold activationByName?
  rw [choosing_shapes]
  split
  next => exact .some (.refl _)
  next => exact .some (.refl _)
  next hshapes => exact rel_ofFlags hvs hclear (by rw [hshapes]; rfl)
  next => exact .none

theorem mem_methodsWhere {d : TypeDef} {p : MethodDef → Bool} {member : Member} :
    member ∈ methodsWhere s d p ↔
      ∃ t ∈ d.methods, ∃ x, s.methodDef? t = some x ∧ p x = true ∧ member = ⟨.method, t⟩ :=
  mem_tested fun t => by cases s.methodDef? t <;> rfl

theorem methodsWhere_subset {d : TypeDef} {p q : MethodDef → Bool}
    (h : ∀ m, p m = true → q m = true) : methodsWhere s d p ⊆ methodsWhere s d q := by
  intro member hmember
  obtain ⟨t, ht, x, hx, hp, rfl⟩ := mem_methodsWhere.mp hmember
  exact mem_methodsWhere.mpr ⟨t, ht, x, hx, h x hp, rfl⟩

section Covering

variable {a a' : Activation} (ha : a'.Covers a)
include hr ha

/-- **An activation that covers another one marks more constructors.** -/
theorem outdoes_markActivated {m : MethodDef} (t : Token) :
    s.Outdoes m (markActivated r t a') (markActivated r t a) := by
  unfold markActivated
  rw [hr.store]
  cases s.type? t with
  | none => exact outdoes_of_quiet (.pure ()) (.pure ())
  | some d =>
      refine .bind (Plain.outdoes ?_) fun _ _ => ?_
      · simpa only [dimmed_true] using alike_markType hr d.token .activation true
      · exact outdoes_markAll hr _ (methodsWhere_subset fun _ => ha.runs)

include hs in
theorem outdoes_create (v : Value) :
    s.Outdoes c.method (c.create r a' v) ((c.choosing vs).create r a v) := by
  have hrequired : ∀ result result', s.Outdoes c.method (create.required c r a' v result)
      (create.required (c.choosing vs) r a v result') := fun result result' =>
    (outdoes_require hr hs ha.requirement (List.Subset.refl _) _).bind fun _ _ =>
      outdoes_of_quiet (.pure _) (.pure _)
  have hplain : ∀ result, s.Plain c.method (create.required c r a' v result) := fun result =>
    .bind (by simpa only [dimmed_true] using alike_require hr _ _ _ true) fun _ => .pure _
  unfold create
  split
  · exact outdoes_of_quiet (.pure _) (.pure _)
  · exact (outdoes_markActivated hr ha _).bind fun _ _ => outdoes_of_quiet (.pure _) (.pure _)
  · exact hrequired _ _
  · cases v.annotation? with
    | none => exact hrequired _ _
    | some promise =>
        obtain ⟨source, available⟩ := promise
        dsimp only
        by_cases hcovers' : available.covers a'.requirement = true
        · rw [if_pos hcovers', if_pos (Categories.covers_trans hcovers' ha.requirement)]
          exact outdoes_of_quiet (.pure _) (.pure _)
        · rw [if_neg hcovers', hr.store]
          split
          · refine outdoes_pure (.bind (alike_isRuntimeType v) fun isRuntime => ?_) _
            cases isRuntime with
            | true => exact .pure _
            | false => exact hplain _
          · refine .ask (alike_isRuntimeType v) fun isRuntime => ?_
            cases isRuntime with
            | true => exact outdoes_of_quiet (.pure _) (.pure _)
            | false => exact hrequired _ _

theorem outdoes_createNamed {m : MethodDef} (assembly name : Value) :
    s.Outdoes m (createNamed r a' assembly name) (createNamed r a assembly name) := by
  unfold createNamed
  split
  · rw [hr.store]
    split
    next d _ =>
      refine .bind (Plain.outdoes ?_) fun _ _ => outdoes_markActivated hr ha d.token
      simpa only [dimmed_true] using alike_markType hr d.token .typeName true
    next => exact (alike_reportSame hr _).outdoes
  · exact (alike_reportSame hr _).outdoes

end Covering

include hr hc hs hvs hclear in
theorem outdoes_createInstance? :
    OutdoesRules s c.method (c.createInstance? r) ((c.choosing vs).createInstance? r) := by
  refine rel_bind (rel_activation? hvs hclear) fun a' a _ ha => ?_
  refine rel_bind (hvs.parameter? 0) ?_
  rintro types _ _ ⟨v, hv, rfl⟩
  have hone : ∀ v, s.Plain c.method (c.create r a' v) := fun v => by
    simpa only [dimmed_true] using alike_create hr true a' v
  have hcreate : s.Outdoes c.method (types.members.mapM (c.create r a'))
      ((SetOf.single v).members.mapM ((c.choosing vs).create r a)) :=
    outdoes_mapM_single (.mapM_left hone hv (outdoes_create hr hs ha v))
  have hresult : ∀ {c : CallSite} (hc : c.context.store = s) (settled : Bool) (deferred : ValueSet),
      s.Quiet c.method (do
        let settled ← if settled then c.defaultReturn else pure .empty
        c.orDefault (settled.merge deferred)) := by
    intro c hc settled deferred
    cases settled with
    | true => exact .bind (quiet_default hc) fun _ => alike_orDefault (within_self hc) _
    | false => exact .bind (.pure _) fun _ => alike_orDefault (within_self hc) _
  exact .some (hcreate.bind fun created created' =>
    outdoes_of_quiet (hresult hc _ _) (hresult (c := c.choosing vs) hc _ _))

include hr hc hvs hclear in
theorem outdoes_createInstanceByName? :
    OutdoesRules s c.method (c.createInstanceByName? r) ((c.choosing vs).createInstanceByName? r) := by
  refine rel_bind (rel_activationByName? hvs hclear) fun a' a _ ha => ?_
  refine rel_bind (hvs.parameter? 0) ?_
  rintro assemblies _ _ ⟨assembly, hassembly, rfl⟩
  refine rel_bind (hvs.parameter? 1) ?_
  rintro names _ _ ⟨name, hname, rfl⟩
  have hone : ∀ assembly name, s.Plain c.method (createNamed r a' assembly name) :=
    fun assembly name => by simpa only [dimmed_true] using alike_createNamed hr true a' assembly name
  refine .some (outdoes_thenDefault hc ?_)
  refine outdoes_forEach (fun assembly => .forM (hone assembly) _) hassembly ?_
  exact outdoes_forEach (hone assembly) hname (outdoes_createNamed hr ha assembly name)

end Activations

/-! ## 3. Merged activations -/

/-- **Merged arguments of an activation are handled conservatively** as long as its flags leave no
    doubt about visibility. -/
theorem activation_conservative (ds : List Declaration) (c : CallSite)
    (hstore : c.context.store = .ofList ds) (offset : Nat) (what : Intrinsic)
    (hwhat : what = .createInstance ∨ what = .createInstanceByName) (hclear : c.ClearFlags)
    (vs : List Value) (hvs : c.Offers vs) :
    Option.Rel Conservative (c.handle? (c.context.reporter offset true) what)
      ((c.choosing vs).handle? (c.context.reporter offset true) what) := by
  have hr : (c.context.reporter offset true).Serves (.ofList ds) fun _ => True :=
    ⟨hstore, fun _ => trivial⟩
  rcases hwhat with rfl | rfl
  · exact conservative_of_outdoes
      (outdoes_createInstance? hr hstore (typesTabled_ofList ds) hvs hclear)
  · exact conservative_of_outdoes (outdoes_createInstanceByName? hr hstore hvs hclear)

namespace Joined

/-- An instance is created with one of two flags. -/
def activation (one other : Int32) : CallSite :=
  site (library "CreateInstance" false [.classType ⟨0x02000001⟩, .valueType ⟨0x02000002⟩,
      .classType ⟨0x02000003⟩, .vector (.prim .object), .classType ⟨0x02000003⟩])
    [.single (.type ⟨0x02000004⟩), ⟨[.int one, .int other]⟩, .single .null, .single .null,
      .single .null]

/-- The first of the two flags. -/
def chosen (one : Int32) : List Value := [.type ⟨0x02000004⟩, .int one, .null, .null, .null]

theorem offers_chosen (one other : Int32) : (activation one other).Offers (chosen one) := by
  have hsingle : ∀ v : Value, v ∈ SetOf.single v := fun v => List.mem_singleton.mpr rfl
  exact .cons (hsingle _) (.cons List.mem_cons_self (.cons (hsingle _) (.cons (hsingle _)
    (.cons (hsingle _) .nil))))

end Joined

/-- Public and non-public flags together reach both constructors without arguments. -/
theorem joined_activation_conservative :
    Joined.marked ((Joined.activation 0x14 0x24).handle?
      ((Joined.activation 0x14 0x24).context.reporter 0 true) .createInstance) =
      [⟨.type, ⟨0x02000004⟩⟩, ⟨.method, ⟨0x06000003⟩⟩] ∧
    Option.Rel Conservative
      ((Joined.activation 0x14 0x24).handle?
        ((Joined.activation 0x14 0x24).context.reporter 0 true) .createInstance)
      (((Joined.activation 0x14 0x24).choosing (Joined.chosen 0x14)).handle?
        ((Joined.activation 0x14 0x24).context.reporter 0 true) .createInstance) := by
  refine ⟨by decide +kernel, activation_conservative Joined.declarations _ rfl 0 _ (.inl rfl) ?_ _
    (Joined.offers_chosen _ _)⟩
  have hshapes : (Joined.activation 0x14 0x24).shapes =
      [.type, .bindingFlags, .other, .objectArray, .other] := by decide +kernel
  intro index flags hshape hflags
  rw [hshapes] at hshape
  obtain rfl : index = 1 := by
    rcases index with _ | _ | _ | _ | _ | index <;> simp_all
  obtain rfl := Option.some.inj hflags
  decide

/-- **Flags that name no visibility mean public constructors, but not together with flags that name
    non-public ones.** -/
theorem joined_activation_loses : (Joined.activation 4 0x24).Offers (Joined.chosen 4) ∧
    ¬ Option.Rel Conservative
      ((Joined.activation 4 0x24).handle?
        ((Joined.activation 4 0x24).context.reporter 0 true) .createInstance)
      (((Joined.activation 4 0x24).choosing (Joined.chosen 4)).handle?
        ((Joined.activation 4 0x24).context.reporter 0 true) .createInstance) := by
  refine ⟨Joined.offers_chosen _ _, fun h => ?_⟩
  have hmem : ⟨.method, ⟨0x06000003⟩⟩ ∈ Joined.marked
      (((Joined.activation 4 0x24).choosing (Joined.chosen 4)).handle?
        ((Joined.activation 4 0x24).context.reporter 0 true) .createInstance) := by decide +kernel
  exact absurd (Joined.marked_subset h hmem) (by decide +kernel)

end CallSite

end ReflectionFlow

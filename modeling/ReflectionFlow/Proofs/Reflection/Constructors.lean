/-
  File:      ReflectionFlow/Proofs/Reflection/Constructors.lean
  Subject:   What satisfies an activation keeps every constructor that it may run.

  A call that creates an instance of a known type marks the constructors it may run, by visibility and
  by the exact number of arguments.  When the type is not known the call only asks for categories of
  constructors, and the constructors are marked elsewhere: where a type flows into the annotated place
  that made the promise, or where the created object is cast.  Categories tell no numbers of
  parameters apart but none from some.  So they may keep more than is run, and must not keep less.

  * `Activation.requests`              a constructor that may be run is requested
  * `Store.Denotes`, `Context.CastsCreated`   how a type is named later than by the call
  * `Ledger.Keeps`                     entries that mark the constructors of other ones
  * `Activation.requirement_keeps`     the comparison
-/
import ReflectionFlow.Proofs.Members.Rules
import ReflectionFlow.Proofs.Reflection.Activations
import ReflectionFlow.Proofs.Scan.Conduct
import ReflectionFlow.Proofs.Session.Requirements

namespace ReflectionFlow

open Store Reporter

/-! ## 1. Requested constructors -/

namespace Activation

variable {a : Activation} {x : MethodDef}

/-- What an activation may reach it asks for. -/
theorem requirement_covers (a : Activation) :
    (a.reachesPublic = true → a.arity = some 0 →
      a.requirement.covers .publicParameterlessConstructor = true) ∧
    (a.reachesPublic = true → a.arity ≠ some 0 →
      a.requirement.covers .publicConstructors = true) ∧
    (a.reachesNonPublic = true → a.requirement.covers .nonPublicConstructors = true) := by
  obtain ⟨isPublic, nonPublic, arity⟩ := a
  by_cases harity : arity = some 0 <;> cases isPublic <;> cases nonPublic <;>
    simp [requirement, harity] <;> decide

theorem requirement_ne_all (a : Activation) : a.requirement ≠ .all := by
  obtain ⟨isPublic, nonPublic, arity⟩ := a
  by_cases harity : arity = some 0 <;> cases isPublic <;> cases nonPublic <;>
    simp [requirement, harity] <;> decide

/-- **A constructor that may be run is requested.** -/
theorem requests (h : a.runs x = true) : RequestsConstructor a.requirement x := by
  obtain ⟨hparameterless, hpublic, hnonPublic⟩ := a.requirement_covers
  unfold runs at h
  simp only [Bool.and_eq_true] at h
  obtain ⟨⟨hx, hvisible⟩, hcount⟩ := h
  cases hp : x.isPublic with
  | false =>
      simp only [hp] at hvisible
      exact .ofNonPublic hx hp (hnonPublic hvisible)
  | true =>
      simp only [hp] at hvisible
      by_cases harity : a.arity = some 0
      · -- only here the exact number matters
        have hnone : x.paramCount = 0 := by
          rw [harity] at hcount
          exact (eq_of_beq hcount).symm
        exact .ofParameterless hx hp hnone (hparameterless hvisible harity)
      · exact .ofPublic hx hp (hpublic hvisible harity)

/-- **What an activation marks its requirement selects.** -/
theorem methodsWhere_subset_select {s : Store} {d : TypeDef} (hs : s.TypesTabled)
    (hd : s.DefinesType d) (a : Activation) :
    CallSite.methodsWhere s d a.runs ⊆ s.select d a.requirement .any := by
  intro m hm
  obtain ⟨t, ht, x, hx, hruns, rfl⟩ := CallSite.mem_methodsWhere.mp hm
  exact (hs.mem_select_iff hd a.requirement_ne_all).mpr (.constructor ht hx (requests hruns))

end Activation

/-! ## 2. Types that are named later -/

/-- **A value denotes a type**: it is the type, or a text that names it. -/
inductive Store.Denotes (s : Store) (d : TypeDef) : Value → Prop where
  | type {t : Token} (ht : s.type? t = some d) : Denotes s d (.type t)
  | named {text : String} {rest : List Token} (ht : s.resolveName? text = some (d.token :: rest)) :
      Denotes s d (.string text)

/-- **A cast names a type for what an activation created**: the created object still carries what is
    needed of its type. -/
structure Context.CastsCreated (c : Context) (values : ValueSet) (target : Token) (need : Categories)
    (d : TypeDef) : Prop where
  type : ∃ t, (c.store.typeSig? target).bind c.typeOf? = some t ∧ c.store.type? t = some d
  created : ∃ method declared what, .symbol (.ret method) need declared ∈ values.members ∧
    c.store.intrinsicOf? method = some what ∧ what.isActivation = true

/-- The entries mark every constructor that other entries mark. -/
def Ledger.Keeps (l l' : Ledger) : Prop :=
  ∀ mark ∈ l'.marks, mark.isConstructor = true → Marks l mark.member

theorem Store.select_of_isEmpty {s : Store} {d : TypeDef} {c : Categories} {f : NameFilter}
    (h : c.isEmpty = true) : s.select d c f = [] := by
  have hc : c ≠ .all := by
    rintro rfl
    cases h
  unfold select
  rw [if_neg hc, if_pos h]
  rfl

theorem Store.gives_forM {s : Store} {f : Value → Act Unit} (h : ∀ v, ∃ l, s.Gives (f v) () l)
    (values : List Value) : ∃ l, s.Gives (values.forM f) () l := by
  induction values with
  | nil => exact ⟨_, gives_pure ()⟩
  | cons v rest ih =>
      obtain ⟨l, hl⟩ := h v
      obtain ⟨l', hl'⟩ := ih
      exact ⟨_, hl.followed hl'⟩

/-- Of actions that are taken one after the other each leaves its entries. -/
theorem Store.gives_forM_of_mem {s : Store} {f : Value → Act Unit} {values : List Value} {v : Value}
    {l : Ledger} (hall : ∀ w, ∃ l, s.Gives (f w) () l) (hv : v ∈ values) (h : s.Gives (f v) () l) :
    ∃ l', s.Gives (values.forM f) () l' ∧ Within l l' := by
  induction values with
  | nil => cases hv
  | cons w rest ih =>
      cases hv with
      | head =>
          obtain ⟨l', hl'⟩ := gives_forM hall rest
          exact ⟨_, h.followed hl', within_append_left _ _⟩
      | tail _ hv =>
          obtain ⟨k, hk⟩ := hall w
          obtain ⟨l', hl', hwithin⟩ := ih hv
          exact ⟨_, hk.followed hl', hwithin.trans (within_append_right k l')⟩

/-- A type that flows into an annotated place gets the members marked that the place needs. -/
theorem Store.Denotes.gives_require {r : Reporter} {d : TypeDef} {v : Value}
    (hv : r.store.Denotes d v) (hlive : r.live = true) (hs : r.store.TypesTabled)
    (hd : r.store.DefinesType d) {values : ValueSet} (hmem : v ∈ values.members)
    (need : Categories) (place : Place) :
    ∃ l, r.store.Gives (r.require values need place) () l ∧
      ∀ m ∈ r.store.select d need .any, Marks l m := by
  cases hneed : need.isEmpty with
  | true =>
      refine ⟨{}, ?_, ?_⟩
      · unfold require
        rw [hneed]
        exact gives_pure ()
      · rw [select_of_isEmpty hneed]
        exact nofun
  | false =>
      have hone : ∃ l, r.store.Gives (r.requireOne need place v) () l ∧
          MarksRequired r.store need l d := by
        cases hv with
        | type ht => exact gives_markMembers hlive ht need .accessedMembers
        | named ht => exact gives_requireNamed_of_some hlive ht (hs.type?_token hd) need place
      obtain ⟨l, hgives, hmarks⟩ := hone
      have hall : ∀ w, ∃ l, r.store.Gives (r.requireOne need place w) () l := fun w =>
        (gives_requireOne hlive hs need place w).imp fun _ h => h.1
      obtain ⟨l', hgives', hwithin⟩ := gives_forM_of_mem hall hmem hgives
      refine ⟨l', ?_, (hmarks.mono hwithin).members⟩
      unfold require
      rw [hneed, hlive]
      exact hgives'

namespace Context

variable {c : Context} {r : Reporter} {d : TypeDef} {need : Categories}
  (hstore : r.store = c.store) (hlive : r.live = true)
include hstore hlive

theorem gives_applyCastOne_created {method t : Token} {declared : TypeSig} {what : Intrinsic}
    (hwhat : c.store.intrinsicOf? method = some what) (hactivation : what.isActivation = true)
    (ht : c.store.type? t = some d) :
    ∃ l, c.store.Gives (c.applyCastOne r t (.symbol (.ret method) need declared)) () l ∧
      ∀ m ∈ c.store.select d need .any, Marks l m := by
  cases hneed : need.isEmpty with
  | true =>
      refine ⟨{}, ?_, ?_⟩
      · simp only [applyCastOne, hneed]
        exact gives_pure ()
      · rw [select_of_isEmpty hneed]
        exact nofun
  | false =>
      have hask := gives_askIntrinsic (s := c.store) method
      rw [hwhat] at hask
      obtain ⟨l, hgives, hmarks⟩ :=
        gives_markMembers (s := c.store) hlive (hstore ▸ ht) need .castTarget
      refine ⟨{} ++ l, ?_, fun m hm => ?_⟩
      · simp only [applyCastOne, hneed]
        refine hask.bind ?_
        simp only [hactivation]
        exact hgives
      · exact (hmarks.mono (within_append_right {} l)).members m (hstore ▸ hm)

/-- A type to which a created object is cast gets the members marked that the object needs. -/
theorem CastsCreated.gives_applyCast {values : ValueSet} {target : Token}
    (h : c.CastsCreated values target need d) :
    ∃ l, c.store.Gives (c.applyCast r values target) () l ∧
      ∀ m ∈ c.store.select d need .any, Marks l m := by
  obtain ⟨⟨t, htarget, ht⟩, method, declared, what, hmem, hwhat, hactivation⟩ := h
  have hr : r.Serves c.store fun _ => True := ⟨hstore, fun _ => trivial⟩
  have hall : ∀ w, ∃ l, c.store.Gives (c.applyCastOne r t w) () l := by
    intro w
    obtain ⟨_, l, _, hw, _⟩ := (alike_applyCastOne (M := c.store.Defines) hr t w).gives
    exact ⟨l, hw⟩
  obtain ⟨l, hgives, hmarks⟩ := gives_applyCastOne_created hstore hlive hwhat hactivation ht
  obtain ⟨l', hgives', hwithin⟩ := gives_forM_of_mem hall hmem hgives
  refine ⟨l', ?_, fun m hm => ?_⟩
  · unfold applyCast
    rw [htarget]
    exact hgives'
  · obtain ⟨mark, hmark, rfl⟩ := hmarks m hm
    exact ⟨mark, hwithin.marks hmark, rfl⟩

end Context

/-! ## 3. The comparison -/

namespace Activation

/-- The constructors that are marked for a known type are those that may be run. -/
theorem gives_markActivated {r : Reporter} (hlive : r.live = true) {t : Token} {d : TypeDef}
    (hd : r.store.type? t = some d) (a : Activation) :
    ∃ l, r.store.Gives (CallSite.markActivated r t a) () l ∧
      (∀ m ∈ CallSite.methodsWhere r.store d a.runs, Marks l m) ∧
      ∀ mark ∈ l.marks, mark.isConstructor = true →
        mark.member ∈ CallSite.methodsWhere r.store d a.runs := by
  refine ⟨⟨[r.markOf ⟨.type, d.token⟩ .activation], []⟩ ++
    ⟨(CallSite.methodsWhere r.store d a.runs).map (r.markOf · .activation), []⟩, ?_, ?_, ?_⟩
  · unfold CallSite.markActivated
    rw [hd]
    exact (gives_mark hlive _ _).followed (gives_markAll hlive _ _)
  · intro m hm
    exact ⟨_, List.mem_append_right _ (List.mem_map_of_mem hm), rfl⟩
  · intro mark hmark hconstructor
    cases hmark with
    | head => cases hconstructor
    | tail _ hmark =>
        obtain ⟨m, hm, rfl⟩ := List.mem_map.mp hmark
        exact hm

/-- A promise that satisfies an activation is accepted without a look at types. -/
theorem create_of_covers {site : CallSite} {r : Reporter} {a : Activation} {v : Value}
    {source : SourceKind} {available : Categories} (hv : v.annotation? = some (source, available))
    (hcovers : available.covers a.requirement = true) : site.create r a v = pure .settled := by
  cases v with
  | symbol place need declared =>
      obtain ⟨-, rfl⟩ := Prod.mk.inj (Option.some.inj hv)
      simp [CallSite.create, Value.annotation?, hcovers]
  | generic p =>
      obtain ⟨-, rfl⟩ := Prod.mk.inj (Option.some.inj hv)
      simp [CallSite.create, CallSite.create.required, require, requireOne, Value.annotation?,
        SetOf.single, hcovers]
  | _ => cases hv

/-- **What satisfies the requirement of an activation keeps every constructor that the activation
    marks on a known type.**  The constructors are among the members that the requirement selects,
    and in the outcome of that selection, if its searches end; every promise that covers the
    requirement is accepted; the place that made the promise marks them when the type flows into it,
    and so does a cast of the created object to the type. -/
theorem requirement_keeps (ds : List Declaration) {t : Token} {d : TypeDef}
    (hd : (ofList ds).type? t = some d) (a : Activation) (origin : Origin) :
    ∃ l, (ofList ds).Gives (CallSite.markActivated ⟨ofList ds, origin, true⟩ t a) () l ∧
      (∀ m ∈ CallSite.methodsWhere (ofList ds) d a.runs, Marks l m) ∧
      (∀ mark ∈ l.marks, mark.isConstructor = true →
        mark.member ∈ (ofList ds).select d a.requirement .any ∧
        ∀ selected, (ofList ds).select? d a.requirement .any = some selected →
          mark.member ∈ selected) ∧
      ∀ available : Categories, available.covers a.requirement = true →
        (∀ (site : CallSite) (r : Reporter) (v : Value) (source : SourceKind),
          v.annotation? = some (source, available) → site.create r a v = pure .settled) ∧
        (∀ (origin : Origin) (v : Value) (values : ValueSet) (place : Place),
          (ofList ds).Denotes d v → v ∈ values.members →
          ∃ l', (ofList ds).Gives
            ((⟨ofList ds, origin, true⟩ : Reporter).require values available place) () l' ∧
            l'.Keeps l) ∧
        ∀ (c : Context) (offset : Nat) (values : ValueSet) (target : Token),
          c.store = ofList ds → c.CastsCreated values target available d →
          ∃ l', (ofList ds).Gives (c.applyCast (c.reporter offset true) values target) () l' ∧
            l'.Keeps l := by
  have hs := typesTabled_ofList ds
  have hdefined := hs.defines hd
  obtain ⟨l, hgives, hmarked, hruns⟩ := gives_markActivated (r := ⟨ofList ds, origin, true⟩) rfl hd a
  have hselected : ∀ mark ∈ l.marks, mark.isConstructor = true →
      mark.member ∈ (ofList ds).select d a.requirement .any := fun mark hmark hconstructor =>
    methodsWhere_subset_select hs hdefined a (hruns mark hmark hconstructor)
  refine ⟨l, hgives, hmarked, fun mark hmark hconstructor => ?_, fun available hcovers => ?_⟩
  · have hmem := hselected mark hmark hconstructor
    exact ⟨hmem, fun selected h => eq_select_of_select? h ▸ hmem⟩
  -- more categories select no less
  have hwider : (ofList ds).select d a.requirement .any ⊆ (ofList ds).select d available .any :=
    hs.select_subset hdefined ⟨hcovers, fun _ => id⟩
  have hkeeps : ∀ {l' : Ledger}, (∀ m ∈ (ofList ds).select d available .any, Marks l' m) →
      l'.Keeps l := fun hmarks mark hmark hconstructor =>
    hmarks _ (hwider (hselected mark hmark hconstructor))
  refine ⟨fun site r v source hv => create_of_covers hv hcovers, ?_, ?_⟩
  · intro origin v values place hv hmem
    obtain ⟨l', hgives, hmarks⟩ := Denotes.gives_require (r := ⟨ofList ds, origin, true⟩) hv rfl hs
      hdefined hmem available place
    exact ⟨l', hgives, hkeeps hmarks⟩
  · intro c offset values target hstore hcast
    obtain ⟨l', hgives, hmarks⟩ := hcast.gives_applyCast (r := c.reporter offset true) rfl rfl
    rw [hstore] at hgives hmarks
    exact ⟨l', hgives, hkeeps hmarks⟩

namespace Created

/-- Varied types, and the part of a library that creates instances of types. -/
def declarations : List Declaration := Varied.declarations ++
  [.type "lib" "System" "Type" 1 none, .type "lib" "System" "Activator" 1 none,
   .method ⟨0x02000006⟩ "CreateInstance" 0x16
     ⟨false, false, 0, .prim .object, [.classType ⟨0x02000005⟩]⟩]

/-- Constructors with one parameter, public or not. -/
def activation : Activation := ⟨true, true, some 1⟩

/-- The private constructor of the first class. -/
def privateConstructor : Member := ⟨.method, ⟨0x06000003⟩⟩

/-- A method that casts what it creates. -/
def context : Context where
  store := ofList declarations
  config := {}
  method := ⟨⟨0x06000001⟩, Circle.second, "Run", 6, ⟨true, false, 0, .prim .void, []⟩, [], [], none,
    []⟩

/-- An object of which it is not known what it is an instance of. -/
def object : Value := .symbol (.ret ⟨0x06000007⟩) activation.requirement (.prim .object)

end Created

/-- A private constructor that a call runs is kept where the name of the class flows into a place that
    needs everything, and where the class is the target of a cast. -/
theorem created_keeps : ∃ l,
    (ofList Created.declarations).Gives
      (CallSite.markActivated (Created.context.reporter 0 true) Circle.first Created.activation) () l ∧
    Marks l Created.privateConstructor ∧
    (∃ l', (ofList Created.declarations).Gives ((Created.context.reporter 0 true).require
      (.single (.string "N.C")) .all (.this "Run")) () l' ∧ l'.Keeps l) ∧
    ∃ l', (ofList Created.declarations).Gives (Created.context.applyCast
      (Created.context.reporter 0 true) (.single Created.object) Circle.first) () l' ∧ l'.Keeps l := by
  have hd : (ofList Created.declarations).type? Circle.first = some Varied.type := rfl
  obtain ⟨l, hgives, hmarked, -, hkept⟩ :=
    requirement_keeps Created.declarations hd Created.activation ⟨⟨0x06000001⟩, some 0⟩
  refine ⟨l, hgives, hmarked _ (by decide +kernel), ?_, ?_⟩
  · obtain ⟨-, hflows, -⟩ := hkept .all (by decide)
    have hname : (ofList Created.declarations).resolveName? "N.C" = some [Varied.type.token] := by
      decide +kernel
    exact hflows _ _ _ _ (.named hname) (List.mem_singleton.mpr rfl)
  · obtain ⟨-, -, hcast⟩ := hkept _ (Categories.covers_refl _)
    refine hcast Created.context 0 _ _ rfl ⟨⟨Circle.first, rfl, hd⟩, ?_⟩
    exact ⟨⟨0x06000007⟩, _, .createInstance, List.mem_singleton.mpr rfl, rfl, rfl⟩

end Activation

end ReflectionFlow

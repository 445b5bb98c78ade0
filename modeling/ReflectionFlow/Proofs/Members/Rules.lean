/-
  File:      ReflectionFlow/Proofs/Members/Rules.lean
  Subject:   What is selected on a type, as rules.

  A selection walks the base types, then the interfaces, and for everything also the nested types,
  each walk with its own way to stop.  The rules know nothing of walks: a member is selected if a path
  of references leads to a type that declares it, and if its name, its visibility and the place where
  it is declared are right for a category.  Circles and references that lead nowhere need no rule.  But
  a selection that asks for a definition whose search never ends has no outcome.

  * `Store.RequestsConstructor`   constructors, by visibility and number of parameters
  * `Store.DeclaresMember`        methods, fields, properties and events of one type
  * `Store.Selects`               the rules for a set of categories
  * `Store.Lists`, `Store.SelectsAll`   the rules for everything
  * `Store.select_iff_rules`      every outcome is what the rules say
-/
import ReflectionFlow.Proofs.Members.Outcome

namespace ReflectionFlow

namespace Store

/-! ## 1. The rules -/

/-- **A constructor is requested** by its visibility; a public one without parameters has a category
    of its own.  A class constructor, which no one can name, counts as non-public. -/
inductive RequestsConstructor (c : Categories) (x : MethodDef) : Prop where
  | ofPublic (hx : x.isConstructor = true) (hp : x.isPublic = true)
      (hc : c.covers .publicConstructors = true)
  | ofParameterless (hx : x.isConstructor = true) (hp : x.isPublic = true) (hn : x.paramCount = 0)
      (hc : c.covers .publicParameterlessConstructor = true)
  | ofNonPublic (hx : x.isConstructor = true) (hp : x.isPublic = false)
      (hc : c.covers .nonPublicConstructors = true)
  | ofClass (hx : x.isClassConstructor = true) (hc : c.covers .nonPublicConstructors = true)

/-- **A type declares a member** under a name, public or not, in a category for public members and
    one for others.  A property or an event is public iff some accessor is, and it brings its
    accessors. -/
inductive DeclaresMember (s : Store) (d : TypeDef) :
    String → Bool → Categories → Categories → Member → Prop where
  | method {t : Token} {x : MethodDef} (ht : t ∈ d.methods) (hx : s.methodDef? t = some x)
      (hn : x.isAnyConstructor = false) :
      DeclaresMember s d x.name x.isPublic .publicMethods .nonPublicMethods ⟨.method, t⟩
  | field {t : Token} {x : FieldDef} (ht : t ∈ d.fields) (hx : s.field? t = some x) :
      DeclaresMember s d x.name x.isPublic .publicFields .nonPublicFields ⟨.field, t⟩
  | property {t : Token} {x : PropertyDef} {isPublic : Bool} {m : Member} (ht : t ∈ d.properties)
      (hx : s.property? t = some x) (hp : isPublic = true ↔ s.SomePublic x.accessors)
      (hm : m = ⟨.property, t⟩ ∨ ∃ u ∈ x.accessors, m = ⟨.method, u⟩) :
      DeclaresMember s d x.name isPublic .publicProperties .nonPublicProperties m
  | event {t : Token} {x : EventDef} {isPublic : Bool} {m : Member} (ht : t ∈ d.events)
      (hx : s.event? t = some x) (hp : isPublic = true ↔ s.SomePublic x.accessors)
      (hm : m = ⟨.event, t⟩ ∨ ∃ u ∈ x.accessors, m = ⟨.method, u⟩) :
      DeclaresMember s d x.name isPublic .publicEvents .nonPublicEvents m

/-- **The members that a set of categories selects on a type.** -/
inductive Selects (s : Store) (d : TypeDef) (c : Categories) (f : NameFilter) : Member → Prop where
  /-- Constructors of the type itself, whatever their name. -/
  | constructor {t : Token} {x : MethodDef} (ht : t ∈ d.methods) (hx : s.methodDef? t = some x)
      (hc : RequestsConstructor c x) : Selects s d c f ⟨.method, t⟩
  /-- Public members of the type and of its base types. -/
  | inherited {e : TypeDef} {name : String} {p q : Categories} {m : Member}
      (he : s.Leads baseReference d e) (hm : s.DeclaresMember e name true p q m)
      (hf : f.accepts name = true) (hc : c.covers p = true) : Selects s d c f m
  /-- Other members of the type itself. -/
  | declared {name : String} {p q : Categories} {m : Member}
      (hm : s.DeclaresMember d name false p q m) (hf : f.accepts name = true)
      (hc : c.covers q = true) : Selects s d c f m
  /-- Types that are nested in the type itself. -/
  | nested {t : Token} {n : TypeDef} (ht : t ∈ d.nested) (hn : s.type? t = some n)
      (hf : f.accepts n.name = true)
      (hc : c.covers (if n.isPublic then .publicNestedTypes else .nonPublicNestedTypes) = true) :
      Selects s d c f ⟨.type, t⟩
  /-- Interfaces of the type and of its base types, and those they extend. -/
  | interface {e i j : TypeDef} (he : s.Leads baseReference d e)
      (hi : s.Refers TypeDef.interfaces e i) (hj : s.Leads TypeDef.interfaces i j)
      (hf : f.accepts j.name = true ∨ f.accepts j.fullName = true)
      (hc : c.covers .interfaces = true) : Selects s d c f ⟨.type, j.token⟩

/-- **A type lists a member**, or a property or an event of which it is an accessor. -/
inductive Lists (s : Store) (d : TypeDef) : Member → Prop where
  | method {t : Token} (ht : t ∈ d.methods) : Lists s d ⟨.method, t⟩
  | field {t : Token} (ht : t ∈ d.fields) : Lists s d ⟨.field, t⟩
  | property {t : Token} (ht : t ∈ d.properties) : Lists s d ⟨.property, t⟩
  | event {t : Token} (ht : t ∈ d.events) : Lists s d ⟨.event, t⟩
  | ofProperty {t u : Token} {x : PropertyDef} (ht : t ∈ d.properties) (hx : s.property? t = some x)
      (hu : u ∈ x.accessors) : Lists s d ⟨.method, u⟩
  | ofEvent {t u : Token} {x : EventDef} (ht : t ∈ d.events) (hx : s.event? t = some x)
      (hu : u ∈ x.accessors) : Lists s d ⟨.method, u⟩

/-- **Everything about a type**: what the types list that nested types, interfaces and base types lead
    to, and the types that they refer to. -/
inductive SelectsAll (s : Store) (d : TypeDef) : Member → Prop where
  | member {e : TypeDef} {m : Member} (he : s.Leads related d e) (hm : s.Lists e m) : SelectsAll s d m
  | type {e r : TypeDef} (he : s.Leads related d e) (hr : s.Refers related e r) :
      SelectsAll s d ⟨.type, r.token⟩

variable {s : Store} {d e : TypeDef} {c : Categories} {f : NameFilter} {m : Member} {t : Token}

/-! ## 2. One type -/

theorem wantsConstructor_iff {x : MethodDef} :
    wantsConstructor c x = true ↔ RequestsConstructor c x := by
  have hclass : x.isConstructor = true → x.isClassConstructor = false := by
    intro h
    unfold MethodDef.isConstructor at h
    unfold MethodDef.isClassConstructor
    cases hs : x.isStatic with
    | true => rw [hs] at h; cases h
    | false => rfl
  unfold wantsConstructor
  constructor
  · intro h
    split at h
    · next hx => exact .ofClass hx h
    · split at h
      · cases h
      · next hx =>
        have hx : x.isConstructor = true := by simpa using hx
        split at h
        · next hp =>
          rcases Bool.or_eq_true_iff.mp h with hc | h
          · exact .ofPublic hx hp hc
          · obtain ⟨hn, hc⟩ := Bool.and_eq_true_iff.mp h
            exact .ofParameterless hx hp (eq_of_beq hn) hc
        · next hp => exact .ofNonPublic hx (by simpa using hp) h
  · intro h
    cases h with
    | ofPublic hx hp hc => simp [hclass hx, hx, hp, hc]
    | ofParameterless hx hp hn hc => simp [hclass hx, hx, hp, hn, hc]
    | ofNonPublic hx hp hc => simp [hclass hx, hx, hp, hc]
    | ofClass hx hc => simp [hx, hc]

theorem anyPublic_iff {accessors : List Token} :
    s.anyPublic accessors = true ↔ s.SomePublic accessors := by
  unfold anyPublic SomePublic
  rw [List.any_eq_true]
  refine exists_congr fun t => and_congr_right fun _ => ?_
  cases s.methodDef? t with
  | none => simp
  | some x => simp

theorem mem_withAccessors {k : MemberKind} {accessors : List Token} :
    m ∈ withAccessors ⟨k, t⟩ accessors ↔ m = ⟨k, t⟩ ∨ ∃ u ∈ accessors, m = ⟨.method, u⟩ := by
  unfold withAccessors
  rw [List.mem_cons, List.mem_map]
  simp only [eq_comm]

/-- **A type contributes what it declares**, if the name and the visibility are right. -/
theorem mem_membersOf_iff {declared : Bool} : m ∈ s.membersOf d c f declared ↔
    ∃ name isPublic p q, s.DeclaresMember d name isPublic p q m ∧ f.accepts name = true ∧
      c.wants isPublic declared p q = true := by
  rw [mem_membersOf]
  constructor
  · rintro (hm | hm | hm | hm)
    · obtain ⟨t, ht, x, hx, hw, rfl⟩ := mem_methodsOf.mp hm
      unfold wantsMethod at hw
      rw [Bool.and_eq_true, Bool.and_eq_true] at hw
      exact ⟨_, _, _, _, .method ht hx (by simpa using hw.1.1), hw.1.2, hw.2⟩
    · obtain ⟨t, ht, x, hx, hw, rfl⟩ := mem_fieldsOf.mp hm
      exact ⟨_, _, _, _, .field ht hx, Bool.and_eq_true_iff.mp hw⟩
    · obtain ⟨t, ht, x, hx, hw, hm⟩ := mem_propertiesOf.mp hm
      exact ⟨_, _, _, _, .property ht hx anyPublic_iff (mem_withAccessors.mp hm),
        Bool.and_eq_true_iff.mp hw⟩
    · obtain ⟨t, ht, x, hx, hw, hm⟩ := mem_eventsOf.mp hm
      exact ⟨_, _, _, _, .event ht hx anyPublic_iff (mem_withAccessors.mp hm),
        Bool.and_eq_true_iff.mp hw⟩
  · rintro ⟨name, isPublic, p, q, hm, hf, hw⟩
    have htested : (f.accepts name && c.wants isPublic declared p q) = true :=
      Bool.and_eq_true_iff.mpr ⟨hf, hw⟩
    -- a visibility that agrees with the accessors is the one that is computed
    have hcomputed : ∀ {accessors}, (isPublic = true ↔ s.SomePublic accessors) →
        s.anyPublic accessors = isPublic := fun hp =>
      Bool.eq_iff_iff.mpr (anyPublic_iff.trans hp.symm)
    cases hm with
    | method ht hx hn =>
        refine .inl (mem_methodsOf.mpr ⟨_, ht, _, hx, ?_, rfl⟩)
        unfold wantsMethod
        rw [hn, Bool.and_assoc]
        exact htested
    | field ht hx => exact .inr (.inl (mem_fieldsOf.mpr ⟨_, ht, _, hx, htested, rfl⟩))
    | property ht hx hp hm =>
        refine .inr (.inr (.inl (mem_propertiesOf.mpr ⟨_, ht, _, hx, ?_, mem_withAccessors.mpr hm⟩)))
        unfold wantsProperty
        rw [hcomputed hp]
        exact htested
    | event ht hx hp hm =>
        refine .inr (.inr (.inr (mem_eventsOf.mpr ⟨_, ht, _, hx, ?_, mem_withAccessors.mpr hm⟩)))
        unfold wantsEvent
        rw [hcomputed hp]
        exact htested

theorem wantsNested_iff {n : TypeDef} : wantsNested c f n = true ↔ f.accepts n.name = true ∧
    c.covers (if n.isPublic then .publicNestedTypes else .nonPublicNestedTypes) = true := by
  unfold wantsNested Categories.wants
  rw [Bool.and_eq_true]
  cases n.isPublic <;> simp

theorem mem_listed_iff : m ∈ s.listed d ↔ s.Lists d m := by
  unfold listed
  simp only [List.mem_append, List.mem_map, List.mem_flatMap, mem_withAccessors]
  constructor
  · rintro (((⟨t, ht, rfl⟩ | ⟨t, ht, rfl⟩) | ⟨t, ht, rfl | ⟨u, hu, rfl⟩⟩) |
      ⟨t, ht, rfl | ⟨u, hu, rfl⟩⟩)
    · exact .method ht
    · exact .field ht
    · exact .property ht
    · split at hu
      · next x hx => exact .ofProperty ht hx hu
      · cases hu
    · exact .event ht
    · split at hu
      · next x hx => exact .ofEvent ht hx hu
      · cases hu
  · intro h
    cases h with
    | method ht => exact .inl (.inl (.inl ⟨_, ht, rfl⟩))
    | field ht => exact .inl (.inl (.inr ⟨_, ht, rfl⟩))
    | property ht => exact .inl (.inr ⟨_, ht, .inl rfl⟩)
    | event ht => exact .inr ⟨_, ht, .inl rfl⟩
    | ofProperty ht hx hu => exact .inl (.inr ⟨_, ht, .inr ⟨_, by rw [hx]; exact hu, rfl⟩⟩)
    | ofEvent ht hx hu => exact .inr ⟨_, ht, .inr ⟨_, by rw [hx]; exact hu, rfl⟩⟩

/-! ## 3. Related types -/

section Related

variable (hs : s.TypesTabled) (hd : s.DefinesType d)
include hs hd

/-- **Members of the base chain**: public ones of any type, others of the type itself. -/
theorem mem_hierarchy_iff : m ∈ s.hierarchy d c f ↔
    (∃ e name p q, s.Leads baseReference d e ∧ s.DeclaresMember e name true p q m ∧
      f.accepts name = true ∧ c.covers p = true) ∨
    (∃ name p q, s.DeclaresMember d name false p q m ∧ f.accepts name = true ∧ c.covers q = true) ∨
    m ∈ s.nestedOf d c f := by
  rw [mem_hierarchy]
  constructor
  · rintro (hm | hm | ⟨e, he, hm⟩)
    · obtain ⟨name, isPublic, p, q, hm, hf, hw⟩ := mem_membersOf_iff.mp hm
      cases isPublic with
      | true => exact .inl ⟨d, name, p, q, .refl, hm, hf, hw⟩
      | false => exact .inr (.inl ⟨name, p, q, hm, hf, hw⟩)
    · exact .inr (.inr hm)
    · obtain ⟨name, isPublic, p, q, hm, hf, hw⟩ := mem_membersOf_iff.mp hm
      cases isPublic with
      | true => exact .inl ⟨e, name, p, q, leads_baseChain (List.mem_of_mem_drop he), hm, hf, hw⟩
      | false => cases hw
  · rintro (⟨e, name, p, q, he, hm, hf, hc⟩ | ⟨name, p, q, hm, hf, hc⟩ | hm)
    · have hmem := (mem_baseChain hs hd).mpr he
      rw [baseChain_eq_cons] at hmem
      rcases List.mem_cons.mp hmem with rfl | hmem
      · exact .inl (mem_membersOf_iff.mpr ⟨name, true, p, q, hm, hf, hc⟩)
      · exact .inr (.inr ⟨e, hmem, mem_membersOf_iff.mpr ⟨name, true, p, q, hm, hf, hc⟩⟩)
    · exact .inl (mem_membersOf_iff.mpr ⟨name, false, p, q, hm, hf, hc⟩)
    · exact .inr (.inl hm)

/-- **Interfaces of the base chain with all they extend.** -/
theorem mem_interfacesOf_iff : m ∈ s.interfacesOf d f ↔
    ∃ e i j, s.Leads baseReference d e ∧ s.Refers TypeDef.interfaces e i ∧
      s.Leads TypeDef.interfaces i j ∧ (f.accepts j.name = true ∨ f.accepts j.fullName = true) ∧
      m = ⟨.type, j.token⟩ := by
  unfold interfacesOf
  simp only [List.mem_map, List.mem_filter, mem_interfaceReach hs hd, Bool.or_eq_true]
  constructor
  · rintro ⟨j, ⟨⟨e, i, he, hi, hj⟩, hf⟩, rfl⟩
    exact ⟨e, i, j, he, hi, hj, hf, rfl⟩
  · rintro ⟨e, i, j, he, hi, hj, hf, rfl⟩
    exact ⟨j, ⟨⟨e, i, he, hi, hj⟩, hf⟩, rfl⟩

theorem mem_everything_iff : m ∈ s.everything d ↔ s.SelectsAll d m := by
  have hreach : ∀ e, e ∈ s.reach related [d] ↔ s.Leads related d e := by
    intro e
    rw [mem_reach hs (List.forall_mem_singleton.mpr hd)]
    simp only [List.mem_singleton, exists_eq_left]
  unfold everything
  simp only [List.mem_flatMap, hreach, List.mem_append, mem_listed_iff, List.mem_map,
    List.mem_filterMap]
  constructor
  · rintro ⟨e, he, hm | ⟨r, hr, rfl⟩⟩
    · exact .member he hm
    · exact .type he hr
  · intro h
    cases h with
    | member he hm => exact ⟨_, he, .inl hm⟩
    | type he hr => exact ⟨_, he, .inr ⟨_, hr, rfl⟩⟩

end Related

/-! ## 4. The selection -/

theorem DeclaresMember.nonempty {name : String} {isPublic : Bool} {p q : Categories}
    (h : s.DeclaresMember d name isPublic p q m) : p.isEmpty = false ∧ q.isEmpty = false := by
  cases h <;> exact ⟨rfl, rfl⟩

/-- Every rule asks for a category. -/
theorem Selects.isEmpty_eq_false (h : s.Selects d c f m) : c.isEmpty = false := by
  cases h with
  | constructor _ _ hc =>
      cases hc with
      | ofPublic _ _ hc => exact Categories.isEmpty_eq_false_of_covers hc rfl
      | ofParameterless _ _ _ hc => exact Categories.isEmpty_eq_false_of_covers hc rfl
      | ofNonPublic _ _ hc => exact Categories.isEmpty_eq_false_of_covers hc rfl
      | ofClass _ hc => exact Categories.isEmpty_eq_false_of_covers hc rfl
  | inherited _ hm _ hc => exact Categories.isEmpty_eq_false_of_covers hc hm.nonempty.1
  | declared hm _ hc => exact Categories.isEmpty_eq_false_of_covers hc hm.nonempty.2
  | @nested _ n _ _ _ hc =>
      refine Categories.isEmpty_eq_false_of_covers hc ?_
      cases n.isPublic <;> rfl
  | interface _ _ _ _ hc => exact Categories.isEmpty_eq_false_of_covers hc rfl

/-- **A set of categories selects what the rules say.** -/
theorem TypesTabled.mem_select_iff (hs : s.TypesTabled) (hd : s.DefinesType d) (hc : c ≠ .all) :
    m ∈ s.select d c f ↔ s.Selects d c f m := by
  rw [mem_select, if_neg hc, mem_hierarchy_iff hs hd, mem_interfacesOf_iff hs hd]
  constructor
  · rintro ⟨_, hm | (hm | hm | hm) | ⟨hi, hm⟩⟩
    · obtain ⟨t, ht, x, hx, hw, rfl⟩ := mem_constructors.mp hm
      exact .constructor ht hx (wantsConstructor_iff.mp hw)
    · obtain ⟨e, name, p, q, he, hm, hf, hp⟩ := hm
      exact .inherited he hm hf hp
    · obtain ⟨name, p, q, hm, hf, hq⟩ := hm
      exact .declared hm hf hq
    · obtain ⟨t, ht, n, hn, hw, rfl⟩ := mem_nestedOf.mp hm
      obtain ⟨hf, hn'⟩ := wantsNested_iff.mp hw
      exact .nested ht hn hf hn'
    · obtain ⟨e, i, j, he, hi', hj, hf, rfl⟩ := hm
      exact .interface he hi' hj hf hi
  · intro h
    refine ⟨h.isEmpty_eq_false, ?_⟩
    cases h with
    | constructor ht hx hw =>
        exact .inl (mem_constructors.mpr ⟨_, ht, _, hx, wantsConstructor_iff.mpr hw, rfl⟩)
    | inherited he hm hf hp => exact .inr (.inl (.inl ⟨_, _, _, _, he, hm, hf, hp⟩))
    | declared hm hf hq => exact .inr (.inl (.inr (.inl ⟨_, _, _, hm, hf, hq⟩)))
    | nested ht hn hf hw =>
        refine .inr (.inl (.inr (.inr (mem_nestedOf.mpr ⟨_, ht, _, hn, ?_, rfl⟩))))
        exact wantsNested_iff.mpr ⟨hf, hw⟩
    | interface he hi' hj hf hi => exact .inr (.inr ⟨hi, _, _, _, he, hi', hj, hf, rfl⟩)

/-- **An outcome is what the rules say**, each member once and in order: for every store, whatever
    circles its types form and wherever its references lead, every type of it, every set of categories
    and every filter.  There is one exactly if all searches end that the selection asks for, and always
    where specifications name earlier ones only. -/
theorem select_iff_rules (ds : List Declaration) {token : Token} {d : TypeDef}
    (hd : (ofList ds).type? token = some d) (f : NameFilter) :
    (∀ c, (∃ selected, (ofList ds).select? d c f = some selected) ↔ (ofList ds).Answerable d c f) ∧
    (Backward {} ds → ∀ c, ∃ selected, (ofList ds).select? d c f = some selected) ∧
    (∀ c ≠ Categories.all, ∀ selected, (ofList ds).select? d c f = some selected →
      ∀ m, m ∈ selected ↔ (ofList ds).Selects d c f m) ∧
    (∀ selected, (ofList ds).select? d .all f = some selected →
      ∀ m, m ∈ selected ↔ (ofList ds).SelectsAll d m) ∧
    ∀ c selected, (ofList ds).select? d c f = some selected → Ascending selected := by
  have hs := typesTabled_ofList ds
  have hdefined := hs.defines hd
  refine ⟨fun c => exists_select?_iff hs hdefined, fun hback c => ?_, fun c hc selected h m => ?_,
    fun selected h m => ?_, fun c selected h => ?_⟩
  · exact (exists_select?_iff hs hdefined).mpr (layered_ofList hback).answerable
  · rw [eq_select_of_select? h]
    exact hs.mem_select_iff hdefined hc
  · rw [eq_select_of_select? h, mem_select, if_pos rfl]
    exact mem_everything_iff hs hdefined
  · rw [eq_select_of_select? h]
    exact ascending_unionSorted _ List.Pairwise.nil

namespace Varied

/-- The circle with constructors on its first class, a property on the other one, and references that
    lead nowhere. -/
def declarations : List Declaration := Circle.declarations ++
  [.method Circle.first ".ctor" 6 ⟨true, false, 0, .prim .void, []⟩,
   .method Circle.first ".ctor" 1 ⟨true, false, 0, .prim .void, [.prim .object]⟩,
   .method Circle.first ".cctor" 0x11 ⟨false, false, 0, .prim .void, []⟩,
   .method Circle.second "get_Size" 6 ⟨true, false, 0, .prim .int32, []⟩,
   .method Circle.second "set_Size" 1 ⟨true, false, 0, .prim .void, [.prim .int32]⟩,
   .property Circle.second "Size" (some ⟨0x06000005⟩) (some ⟨0x06000006⟩),
   .event Circle.first "Changed" (some ⟨0x06000099⟩) none none,
   .interfaceOf Circle.first ⟨0x02000099⟩]

/-- The first class. -/
def type : TypeDef := { Circle.type with
  interfaces := [⟨0x02000099⟩]
  methods := [⟨0x06000002⟩, ⟨0x06000003⟩, ⟨0x06000004⟩]
  events := [⟨0x14000001⟩] }

/-- Some categories of each kind of member. -/
def required : Categories :=
  .publicParameterlessConstructor ∪ .publicProperties ∪ .nonPublicEvents ∪ .interfaces

/-- The constructor without parameters, the inherited property with both accessors, the event with an
    accessor that leads nowhere, and the inherited interface. -/
def selected : List Member :=
  [⟨.type, ⟨0x02000003⟩⟩, ⟨.method, ⟨0x06000002⟩⟩, ⟨.method, ⟨0x06000005⟩⟩, ⟨.method, ⟨0x06000006⟩⟩,
   ⟨.method, ⟨0x06000099⟩⟩, ⟨.property, ⟨0x17000001⟩⟩, ⟨.event, ⟨0x14000001⟩⟩]

end Varied

/-- Inherited members and references that lead nowhere, by the rules. -/
theorem varied_rules :
    (ofList Varied.declarations).type? Circle.first = some Varied.type ∧
    Backward {} Varied.declarations ∧
    (ofList Varied.declarations).select? Varied.type Varied.required .any = some Varied.selected ∧
    (∀ m, (ofList Varied.declarations).Selects Varied.type Varied.required .any m ↔
      m ∈ Varied.selected) ∧
    Ascending Varied.selected ∧
    ∃ everything, (ofList Varied.declarations).select? Varied.type .all .any = some everything ∧
      ∀ m, m ∈ everything ↔ (ofList Varied.declarations).SelectsAll Varied.type m := by
  have hd : (ofList Varied.declarations).type? Circle.first = some Varied.type := rfl
  have hback : Backward {} Varied.declarations := by
    repeat' constructor
  have hselected : (ofList Varied.declarations).select? Varied.type Varied.required .any =
      some Varied.selected := by decide +kernel
  obtain ⟨-, hanswered, hrules, hall, hordered⟩ := select_iff_rules Varied.declarations hd .any
  obtain ⟨everything, heverything⟩ := hanswered hback .all
  exact ⟨hd, hback, hselected, fun m => (hrules Varied.required (by decide) _ hselected m).symm,
    hordered _ _ hselected, everything, heverything, hall _ heverything⟩

namespace Circular

/-- A class with a property that is read through a method instance of itself, and one with a method
    whose base type is a specification of itself. -/
def declarations : List Declaration :=
  [.type "app" "N" "C" 1 none, .type "app" "N" "D" 1 (some ⟨0x1B000001⟩),
   .typeSpec (.classType ⟨0x1B000001⟩), .methodSpec ⟨0x2B000001⟩ [],
   .property ⟨0x02000001⟩ "P" (some ⟨0x2B000001⟩) none,
   .method ⟨0x02000002⟩ "M" 6 ⟨true, false, 0, .prim .void, []⟩]

/-- The class with the property. -/
def owner : TypeDef := { Circle.type with base := none, properties := [⟨0x17000001⟩] }

/-- The class with the base type. -/
def derived : TypeDef := { Circle.type with
  token := Circle.second
  name := "D"
  fullName := "N.D"
  base := some ⟨0x1B000001⟩
  methods := [⟨0x06000001⟩] }

end Circular

/-- **Where specifications form a circle a selection may have no outcome**, though the rules select the
    property and the method: it asks for the accessor and for the base type, and no number of hops
    ends these searches. -/
theorem circular_unselected :
    ((ofList Circular.declarations).type? Circle.first = some Circular.owner ∧
      (ofList Circular.declarations).Selects Circular.owner .nonPublicProperties .any
        ⟨.property, ⟨0x17000001⟩⟩ ∧
      (ofList Circular.declarations).select? Circular.owner .nonPublicProperties .any = none ∧
      ∀ hops, Hop.search (ofList Circular.declarations).methodHop hops ⟨0x2B000001⟩ = none) ∧
    (ofList Circular.declarations).type? Circle.second = some Circular.derived ∧
    (ofList Circular.declarations).Selects Circular.derived .publicMethods .any
      ⟨.method, ⟨0x06000001⟩⟩ ∧
    (ofList Circular.declarations).select? Circular.derived .publicMethods .any = none ∧
    ∀ hops, Hop.search (ofList Circular.declarations).typeHop hops ⟨0x1B000001⟩ = none := by
  have hnone : ¬ (ofList Circular.declarations).SomePublic [⟨0x2B000001⟩] := by
    rw [← anyPublic_iff]
    decide +kernel
  have hfound : (ofList Circular.declarations).property? ⟨0x17000001⟩ =
      some ⟨⟨0x17000001⟩, Circle.first, "P", some ⟨0x2B000001⟩, none⟩ := rfl
  have hproperty : (ofList Circular.declarations).DeclaresMember Circular.owner "P" false
      .publicProperties .nonPublicProperties ⟨.property, ⟨0x17000001⟩⟩ :=
    .property (List.mem_singleton.mpr rfl) hfound (iff_of_false Bool.false_ne_true hnone) (.inl rfl)
  have hmethod : (ofList Circular.declarations).DeclaresMember Circular.derived "M" true
      .publicMethods .nonPublicMethods ⟨.method, ⟨0x06000001⟩⟩ := by
    have hdefined : ∃ x, (ofList Circular.declarations).methodDef? ⟨0x06000001⟩ = some x ∧
        x.name = "M" ∧ x.isPublic = true ∧ x.isAnyConstructor = false := ⟨_, rfl, by decide +kernel⟩
    obtain ⟨x, hx, hname, hpublic, hplain⟩ := hdefined
    rw [← hname, ← hpublic]
    exact .method (List.mem_singleton.mpr rfl) hx hplain
  refine ⟨⟨rfl, .declared hproperty rfl rfl, by decide +kernel, ?_⟩,
    rfl, .inherited .refl hmethod rfl rfl, by decide +kernel, ?_⟩
  · exact Hop.search_of_round (.single ⟨_, rfl⟩)
  · exact Hop.search_of_round (.single ⟨_, rfl⟩)

end Store

end ReflectionFlow

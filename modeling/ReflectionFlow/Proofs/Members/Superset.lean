/-
  File:      ReflectionFlow/Proofs/Members/Superset.lean
  Subject:   What a requirement reaches, every set of categories that covers it reaches too.

  A value that promises more than is required is accepted without a look at the types it may stand
  for.  That is right only if more categories, and a filter that lets more names pass, never reach
  fewer members.  Category by category this is plain.  Everything is another matter: it is gathered
  by a search over nested types, interfaces and base types that looks at no category and no name,
  and so it is compared with the single categories by the paths that lead to a type.

  * `Store.mem_constructors`, `Store.mem_methodsOf`, …   what is selected, member by member
  * `Store.listed_of_membersOf`      a type lists every member that a category reaches on it
  * `Store.everything_of_hierarchy`, `Store.everything_of_interfacesOf`
  * `Store.select_superset`
-/
import ReflectionFlow.Proofs.Members.Reach

namespace ReflectionFlow

/-! ## 1. Categories and names -/

theorem mem_sortedOf {α : Type} [Ranked α] {l : List α} {a : α} : a ∈ sortedOf l ↔ a ∈ l := by
  unfold sortedOf
  rw [mem_unionSorted]
  simp only [List.not_mem_nil, false_or]

namespace Categories

variable {c c' c'' : Categories}

theorem covers_trans (h : c.covers c' = true) (h' : c'.covers c'' = true) : c.covers c'' = true := by
  unfold covers at h h' ⊢
  rw [beq_iff_eq] at h h' ⊢
  rw [← h', ← UInt32.and_assoc, h]

theorem eq_all_of_covers (h : c.covers all = true) : c = all := by
  obtain ⟨bits⟩ := c
  have hbits : bits &&& 0xFFFFFFFF = 0xFFFFFFFF := eq_of_beq h
  exact congrArg Categories.mk ((UInt32.and_neg_one (a := bits)).symm.trans hbits)

theorem isEmpty_of_covers (h : c.covers c' = true) (he : c.isEmpty = true) : c'.isEmpty = true := by
  unfold covers isEmpty at *
  rw [beq_iff_eq] at *
  rw [← h, he, UInt32.zero_and]

theorem isEmpty_eq_false_of_covers (h : c.covers c' = true) (he : c'.isEmpty = false) :
    c.isEmpty = false := by
  cases hc : c.isEmpty with
  | false => rfl
  | true =>
      rw [isEmpty_of_covers h hc] at he
      cases he

/-- A member that is reached stays so when there are more categories. -/
theorem wants_of_covers (h : c'.covers c = true) {isPublic declared : Bool} {p q : Categories}
    (hw : c.wants isPublic declared p q = true) : c'.wants isPublic declared p q = true := by
  unfold wants at hw ⊢
  split
  · next hp =>
    rw [if_pos hp] at hw
    exact covers_trans h hw
  · next hp =>
    rw [if_neg hp, Bool.and_eq_true] at hw
    exact Bool.and_eq_true_iff.mpr ⟨hw.1, covers_trans h hw.2⟩

end Categories

/-- **A selection is wider than another**: it has all its categories, and all its names pass. -/
structure Wider (c' c : Categories) (f' f : NameFilter) : Prop where
  covers : c'.covers c = true
  accepts : ∀ name, f.accepts name = true → f'.accepts name = true

/-- The test of a named member passes in a wider selection. -/
theorem Wider.tested {c' c : Categories} {f' f : NameFilter} (h : Wider c' c f' f) {name : String}
    {isPublic declared : Bool} {p q : Categories}
    (ht : (f.accepts name && c.wants isPublic declared p q) = true) :
    (f'.accepts name && c'.wants isPublic declared p q) = true := by
  rw [Bool.and_eq_true] at ht ⊢
  exact ⟨h.accepts name ht.1, Categories.wants_of_covers h.covers ht.2⟩

/-- A name that passes exactly passes in any case. -/
theorem NameFilter.accepts_ignoreCase {name candidate : String}
    (h : (named name false).accepts candidate = true) :
    (named name true).accepts candidate = true := by
  have heq : name = candidate := eq_of_beq h
  subst heq
  exact beq_self_eq_true _

namespace Store

variable {s : Store} {d : TypeDef} {c c' : Categories} {f f' : NameFilter} {declared : Bool}
  {m : Member}

/-! ## 2. Selected members -/

/-- Is a method reached that is no constructor? -/
def wantsMethod (c : Categories) (f : NameFilter) (declared : Bool) (x : MethodDef) : Bool :=
  !x.isAnyConstructor && f.accepts x.name &&
    c.wants x.isPublic declared .publicMethods .nonPublicMethods

def wantsField (c : Categories) (f : NameFilter) (declared : Bool) (x : FieldDef) : Bool :=
  f.accepts x.name && c.wants x.isPublic declared .publicFields .nonPublicFields

def wantsNested (c : Categories) (f : NameFilter) (x : TypeDef) : Bool :=
  f.accepts x.name && c.wants x.isPublic true .publicNestedTypes .nonPublicNestedTypes

def wantsProperty (s : Store) (c : Categories) (f : NameFilter) (declared : Bool)
    (x : PropertyDef) : Bool :=
  f.accepts x.name &&
    c.wants (s.anyPublic x.accessors) declared .publicProperties .nonPublicProperties

def wantsEvent (s : Store) (c : Categories) (f : NameFilter) (declared : Bool) (x : EventDef) :
    Bool :=
  f.accepts x.name && c.wants (s.anyPublic x.accessors) declared .publicEvents .nonPublicEvents

/-- Members that are looked up and tested one by one. -/
theorem mem_tested {α : Type} {find : Token → Option α} {p : α → Bool} {kind : MemberKind}
    {l : List Token} {q : Token → Bool} (hq : ∀ t, q t = (find t).any p) :
    m ∈ (l.filter q).map (⟨kind, ·⟩) ↔
      ∃ t ∈ l, ∃ x, find t = some x ∧ p x = true ∧ m = ⟨kind, t⟩ := by
  rw [List.mem_map]
  constructor
  · rintro ⟨t, ht, rfl⟩
    obtain ⟨ht, hp⟩ := List.mem_filter.mp ht
    rw [hq] at hp
    obtain ⟨x, hx, hp⟩ := (Option.any_eq_true p _).mp hp
    exact ⟨t, ht, x, hx, hp, rfl⟩
  · rintro ⟨t, ht, x, hx, hp, rfl⟩
    refine ⟨t, List.mem_filter.mpr ⟨ht, ?_⟩, rfl⟩
    rw [hq]
    exact (Option.any_eq_true p _).mpr ⟨x, hx, hp⟩

/-- Members that are looked up and tested, and bring their accessors along. -/
theorem mem_accessed {α : Type} {find : Token → Option α} {p : α → Bool}
    {accessors : α → List Token} {kind : MemberKind} {l : List Token} {q : Token → List Member}
    (hq : ∀ t, q t = match find t with
      | some x => if p x then withAccessors ⟨kind, t⟩ (accessors x) else []
      | none => []) :
    m ∈ l.flatMap q ↔
      ∃ t ∈ l, ∃ x, find t = some x ∧ p x = true ∧ m ∈ withAccessors ⟨kind, t⟩ (accessors x) := by
  rw [List.mem_flatMap]
  constructor
  · rintro ⟨t, ht, hm⟩
    rw [hq] at hm
    split at hm
    · next x hx =>
      split at hm
      · next hp => exact ⟨t, ht, x, hx, hp, hm⟩
      · cases hm
    · cases hm
  · rintro ⟨t, ht, x, hx, hp, hm⟩
    refine ⟨t, ht, ?_⟩
    rw [hq, hx]
    dsimp only
    rw [if_pos hp]
    exact hm

theorem mem_constructors : m ∈ s.constructors d c ↔ ∃ t ∈ d.methods, ∃ x,
    s.methodDef? t = some x ∧ wantsConstructor c x = true ∧ m = ⟨.method, t⟩ :=
  mem_tested fun t => by cases s.methodDef? t <;> rfl

theorem mem_methodsOf : m ∈ s.methodsOf d c f declared ↔ ∃ t ∈ d.methods, ∃ x,
    s.methodDef? t = some x ∧ wantsMethod c f declared x = true ∧ m = ⟨.method, t⟩ :=
  mem_tested fun t => by cases s.methodDef? t <;> rfl

theorem mem_fieldsOf : m ∈ s.fieldsOf d c f declared ↔ ∃ t ∈ d.fields, ∃ x,
    s.field? t = some x ∧ wantsField c f declared x = true ∧ m = ⟨.field, t⟩ :=
  mem_tested fun t => by cases s.field? t <;> rfl

theorem mem_nestedOf : m ∈ s.nestedOf d c f ↔ ∃ t ∈ d.nested, ∃ x,
    s.type? t = some x ∧ wantsNested c f x = true ∧ m = ⟨.type, t⟩ :=
  mem_tested fun t => by cases s.type? t <;> rfl

theorem mem_propertiesOf : m ∈ s.propertiesOf d c f declared ↔ ∃ t ∈ d.properties, ∃ x,
    s.property? t = some x ∧ s.wantsProperty c f declared x = true ∧
      m ∈ withAccessors ⟨.property, t⟩ x.accessors :=
  mem_accessed fun t => by cases s.property? t <;> rfl

theorem mem_eventsOf : m ∈ s.eventsOf d c f declared ↔ ∃ t ∈ d.events, ∃ x,
    s.event? t = some x ∧ s.wantsEvent c f declared x = true ∧
      m ∈ withAccessors ⟨.event, t⟩ x.accessors :=
  mem_accessed fun t => by cases s.event? t <;> rfl

theorem mem_membersOf : m ∈ s.membersOf d c f declared ↔
    m ∈ s.methodsOf d c f declared ∨ m ∈ s.fieldsOf d c f declared ∨
      m ∈ s.propertiesOf d c f declared ∨ m ∈ s.eventsOf d c f declared := by
  unfold membersOf
  simp only [List.mem_append, or_assoc]

theorem mem_hierarchy : m ∈ s.hierarchy d c f ↔ m ∈ s.membersOf d c f true ∨ m ∈ s.nestedOf d c f ∨
    ∃ b ∈ (s.baseChain d).drop 1, m ∈ s.membersOf b c f false := by
  unfold hierarchy
  simp only [List.mem_append, List.mem_flatMap, or_assoc]

/-! ## 3. More categories and more names -/

theorem wantsConstructor_of_covers (h : c'.covers c = true) {x : MethodDef}
    (hx : wantsConstructor c x = true) : wantsConstructor c' x = true := by
  have hcovers : ∀ {q : Categories}, c.covers q = true → c'.covers q = true := fun hq =>
    Categories.covers_trans h hq
  unfold wantsConstructor at hx ⊢
  split at hx
  · next hclass =>
    rw [if_pos hclass]
    exact hcovers hx
  · next hclass =>
    rw [if_neg hclass]
    split at hx
    · cases hx
    · next hinstance =>
      rw [if_neg hinstance]
      split at hx
      · next hpublic =>
        rw [if_pos hpublic]
        rw [Bool.or_eq_true, Bool.and_eq_true] at hx ⊢
        exact hx.imp hcovers (.imp id hcovers)
      · next hpublic =>
        rw [if_neg hpublic]
        exact hcovers hx

theorem constructors_subset (h : c'.covers c = true) : s.constructors d c ⊆ s.constructors d c' := by
  intro m hm
  obtain ⟨t, ht, x, hx, hw, rfl⟩ := mem_constructors.mp hm
  exact mem_constructors.mpr ⟨t, ht, x, hx, wantsConstructor_of_covers h hw, rfl⟩

/-- The categories of the members that one type of the base chain contributes, public and not. -/
def chained : List (Categories × Categories) :=
  [(.publicMethods, .nonPublicMethods), (.publicFields, .nonPublicFields),
   (.publicProperties, .nonPublicProperties), (.publicEvents, .nonPublicEvents)]

/-- A type contributes the more, the more named members pass the test of their category. -/
theorem membersOf_mono {declared' : Bool}
    (h : ∀ {name isPublic p q}, (p, q) ∈ chained →
      (f.accepts name && c.wants isPublic declared p q) = true →
        (f'.accepts name && c'.wants isPublic declared' p q) = true) :
    s.membersOf d c f declared ⊆ s.membersOf d c' f' declared' := by
  intro m hm
  rw [mem_membersOf] at hm ⊢
  rcases hm with hm | hm | hm | hm
  · obtain ⟨t, ht, x, hx, hp, rfl⟩ := mem_methodsOf.mp hm
    refine .inl (mem_methodsOf.mpr ⟨t, ht, x, hx, ?_, rfl⟩)
    unfold wantsMethod at hp ⊢
    rw [Bool.and_assoc, Bool.and_eq_true] at hp ⊢
    exact ⟨hp.1, h (by decide) hp.2⟩
  · obtain ⟨t, ht, x, hx, hp, rfl⟩ := mem_fieldsOf.mp hm
    exact .inr (.inl (mem_fieldsOf.mpr ⟨t, ht, x, hx, h (by decide) hp, rfl⟩))
  · obtain ⟨t, ht, x, hx, hp, hm⟩ := mem_propertiesOf.mp hm
    exact .inr (.inr (.inl (mem_propertiesOf.mpr ⟨t, ht, x, hx, h (by decide) hp, hm⟩)))
  · obtain ⟨t, ht, x, hx, hp, hm⟩ := mem_eventsOf.mp hm
    exact .inr (.inr (.inr (mem_eventsOf.mpr ⟨t, ht, x, hx, h (by decide) hp, hm⟩)))

theorem membersOf_subset (h : Wider c' c f' f) :
    s.membersOf d c f declared ⊆ s.membersOf d c' f' declared :=
  membersOf_mono fun _ ht => h.tested ht

theorem nestedOf_subset (h : Wider c' c f' f) : s.nestedOf d c f ⊆ s.nestedOf d c' f' := by
  intro m hm
  obtain ⟨t, ht, x, hx, hp, rfl⟩ := mem_nestedOf.mp hm
  exact mem_nestedOf.mpr ⟨t, ht, x, hx, h.tested hp, rfl⟩

theorem hierarchy_subset (h : Wider c' c f' f) : s.hierarchy d c f ⊆ s.hierarchy d c' f' := by
  intro m hm
  rw [mem_hierarchy] at hm ⊢
  refine hm.imp (membersOf_subset h ·) (.imp (nestedOf_subset h ·) ?_)
  rintro ⟨b, hb, hm⟩
  exact ⟨b, hb, membersOf_subset h hm⟩

theorem interfacesOf_subset (h : Wider c' c f' f) : s.interfacesOf d f ⊆ s.interfacesOf d f' := by
  intro m hm
  obtain ⟨i, hi, rfl⟩ := List.mem_map.mp hm
  obtain ⟨hi, hp⟩ := List.mem_filter.mp hi
  refine List.mem_map.mpr ⟨i, List.mem_filter.mpr ⟨hi, ?_⟩, rfl⟩
  rw [Bool.or_eq_true] at hp ⊢
  exact hp.imp (h.accepts _) (h.accepts _)

/-! ## 4. Everything -/

theorem listed_of_method {t : Token} (ht : t ∈ d.methods) : ⟨.method, t⟩ ∈ s.listed d := by
  unfold listed
  simp only [List.mem_append]
  exact .inl (.inl (.inl (List.mem_map_of_mem ht)))

/-- **A type lists every member that a category reaches on it.** -/
theorem listed_of_membersOf (hm : m ∈ s.membersOf d c f declared) : m ∈ s.listed d := by
  rcases mem_membersOf.mp hm with hm | hm | hm | hm
  · obtain ⟨t, ht, _, _, _, rfl⟩ := mem_methodsOf.mp hm
    exact listed_of_method ht
  · obtain ⟨t, ht, _, _, _, rfl⟩ := mem_fieldsOf.mp hm
    unfold listed
    simp only [List.mem_append]
    exact .inl (.inl (.inr (List.mem_map_of_mem ht)))
  · obtain ⟨t, ht, x, hx, _, hm⟩ := mem_propertiesOf.mp hm
    unfold listed
    simp only [List.mem_append]
    refine .inl (.inr (List.mem_flatMap.mpr ⟨t, ht, ?_⟩))
    rw [hx]
    exact hm
  · obtain ⟨t, ht, x, hx, _, hm⟩ := mem_eventsOf.mp hm
    unfold listed
    simp only [List.mem_append]
    refine .inr (List.mem_flatMap.mpr ⟨t, ht, ?_⟩)
    rw [hx]
    exact hm

theorem listed_of_constructors (hm : m ∈ s.constructors d c) : m ∈ s.listed d := by
  obtain ⟨t, ht, _, _, _, rfl⟩ := mem_constructors.mp hm
  exact listed_of_method ht

theorem base_subset_related (d : TypeDef) : baseReference d ⊆ related d :=
  List.subset_append_right _ _

theorem interfaces_subset_related (d : TypeDef) : d.interfaces ⊆ related d := fun _ ht =>
  List.mem_append_left _ (List.mem_append_right _ ht)

theorem nested_subset_related (d : TypeDef) : d.nested ⊆ related d := fun _ ht =>
  List.mem_append_left _ (List.mem_append_left _ ht)

section Everything

variable {e r : TypeDef} (hs : s.TypesTabled) (hd : s.DefinesType d)
include hs hd

/-- What a related type lists belongs to everything, -/
theorem everything_of_listed (he : s.Leads related d e) (hm : m ∈ s.listed e) :
    m ∈ s.everything d := by
  have hreach : e ∈ s.reach related [d] :=
    (mem_reach hs fun _ h => List.mem_singleton.mp h ▸ hd).mpr ⟨d, List.mem_singleton.mpr rfl, he⟩
  exact List.mem_flatMap.mpr ⟨e, hreach, List.mem_append_left _ hm⟩

/-- and so does what it refers to. -/
theorem everything_of_refers (he : s.Leads related d e) (hr : s.Refers related e r) :
    ⟨.type, r.token⟩ ∈ s.everything d := by
  have hreach : e ∈ s.reach related [d] :=
    (mem_reach hs fun _ h => List.mem_singleton.mp h ▸ hd).mpr ⟨d, List.mem_singleton.mpr rfl, he⟩
  obtain ⟨t, ht, hr⟩ := hr
  refine List.mem_flatMap.mpr ⟨e, hreach, List.mem_append_right _ ?_⟩
  exact List.mem_map.mpr ⟨r, List.mem_filterMap.mpr ⟨t, ht, hr⟩, rfl⟩

omit hs hd in
theorem leads_related_baseChain (he : e ∈ s.baseChain d) : s.Leads related d e :=
  Leads.mono base_subset_related (leads_baseChain he)

/-- **Everything holds the members of the base types**, -/
theorem everything_of_hierarchy (hm : m ∈ s.hierarchy d c f) : m ∈ s.everything d := by
  rcases mem_hierarchy.mp hm with hm | hm | ⟨b, hb, hm⟩
  · exact everything_of_listed hs hd .refl (listed_of_membersOf hm)
  · -- a nested type is selected by the token of the list and kept by its own
    obtain ⟨t, ht, n, hn, _, rfl⟩ := mem_nestedOf.mp hm
    rw [← hs.token_of_nested hd ht hn]
    exact everything_of_refers hs hd .refl ⟨t, nested_subset_related d ht, hn⟩
  · exact everything_of_listed hs hd (leads_related_baseChain (List.mem_of_mem_drop hb))
      (listed_of_membersOf hm)

/-- **and the interfaces of the base types with all they extend.** -/
theorem everything_of_interfacesOf (hm : m ∈ s.interfacesOf d f) : m ∈ s.everything d := by
  obtain ⟨i, hi, rfl⟩ := List.mem_map.mp hm
  have hdirect : ∀ {e}, e ∈ ((s.baseChain d).flatMap TypeDef.interfaces).filterMap s.type? →
      ∃ b, s.Leads related d b ∧ s.Refers related b e := by
    intro e he
    obtain ⟨b, hb, hrefers⟩ := mem_candidates.mp he
    exact ⟨b, leads_related_baseChain hb, hrefers.mono interfaces_subset_related⟩
  have hdefined : s.AllDefined (((s.baseChain d).flatMap TypeDef.interfaces).filterMap s.type?) :=
    fun e he => (mem_candidates.mp he).defined hs
  obtain ⟨e, he, hled⟩ := (mem_reach hs hdefined).mp (List.mem_filter.mp hi).1
  obtain ⟨b, hb, hrefers⟩ := hdirect he
  -- the last reference of the path names the interface
  rcases hled.cases_tail with heq | ⟨x, hx, hlast⟩
  · rw [heq]
    exact everything_of_refers hs hd hb hrefers
  · have hinner : s.Leads related e x := Leads.mono interfaces_subset_related hx
    exact everything_of_refers hs hd ((hb.tail hrefers).trans hinner)
      (hlast.mono interfaces_subset_related)

end Everything

/-! ## 5. The comparison -/

theorem mem_select : m ∈ s.select d c f ↔
    if c = .all then m ∈ s.everything d
    else c.isEmpty = false ∧ (m ∈ s.constructors d c ∨ m ∈ s.hierarchy d c f ∨
      c.covers .interfaces = true ∧ m ∈ s.interfacesOf d f) := by
  unfold select
  rw [mem_sortedOf]
  split
  · rfl
  · split
    · next he => simp [he]
    · next he =>
      have he : c.isEmpty = false := by simpa using he
      simp only [he, true_and, List.mem_append, or_assoc]
      split
      · next hi => simp [hi]
      · next hi => simp [hi]

/-- A wider selection reaches what a narrower one reaches. -/
theorem TypesTabled.select_subset (hs : s.TypesTabled) (hd : s.DefinesType d)
    (h : Wider c' c f' f) : s.select d c f ⊆ s.select d c' f' := by
  intro m hm
  rw [mem_select] at hm ⊢
  by_cases hc : c = .all
  · have hc' := Categories.eq_all_of_covers (hc ▸ h.covers)
    rw [if_pos hc] at hm
    rw [if_pos hc']
    exact hm
  rw [if_neg hc] at hm
  obtain ⟨hnonempty, hm⟩ := hm
  by_cases hc' : c' = .all
  · rw [if_pos hc']
    rcases hm with hm | hm | ⟨_, hm⟩
    · exact everything_of_listed hs hd .refl (listed_of_constructors hm)
    · exact everything_of_hierarchy hs hd hm
    · exact everything_of_interfacesOf hs hd hm
  · rw [if_neg hc']
    refine ⟨Categories.isEmpty_eq_false_of_covers h.covers hnonempty,
      hm.imp (constructors_subset h.covers ·) (.imp (hierarchy_subset h ·) ?_)⟩
    rintro ⟨hi, hm⟩
    exact ⟨Categories.covers_trans h.covers hi, interfacesOf_subset h hm⟩

/-- What holds of two selections holds of their outcomes. -/
theorem subset_of_select? {d' : TypeDef} {found wider : List Member}
    (h : s.select d c f ⊆ s.select d' c' f') (hfound : s.select? d c f = some found)
    (hwider : s.select? d' c' f' = some wider) : ∀ m ∈ found, m ∈ wider := by
  rw [eq_select_of_select? hfound, eq_select_of_select? hwider]
  exact h

/-- **What a requirement reaches is reached by every wider selection**, in every store, whatever
    circles its base types, interfaces and nested types form; and so for the outcomes, where the
    searches end that both selections ask for. -/
theorem select_superset (ds : List Declaration) {token : Token} {d : TypeDef}
    (hd : (ofList ds).type? token = some d) {required available : Categories}
    (hcovers : available.covers required = true) {f g : NameFilter}
    (hnames : ∀ name, f.accepts name = true → g.accepts name = true) :
    (∀ m ∈ (ofList ds).select d required f, m ∈ (ofList ds).select d available g) ∧
    ∀ found wider, (ofList ds).select? d required f = some found →
      (ofList ds).select? d available g = some wider → ∀ m ∈ found, m ∈ wider := by
  have hs := typesTabled_ofList ds
  have hsubset := hs.select_subset (hs.defines hd) ⟨hcovers, hnames⟩
  exact ⟨fun m hm => hsubset hm, fun found wider => subset_of_select? hsubset⟩

namespace Circle

def first : Token := ⟨0x02000001⟩

def second : Token := ⟨0x02000002⟩

/-- Two classes, each the base of the other, and an interface that extends itself and has a
    class nested in it. -/
def declarations : List Declaration :=
  [.type "app" "N" "C" 1 (some second), .type "app" "N" "D" 1 (some first),
   .type "app" "N" "I" 0xA1 none, .nestedType ⟨0x02000003⟩ "C" 2 (some first),
   .interfaceOf ⟨0x02000003⟩ ⟨0x02000003⟩, .interfaceOf second ⟨0x02000003⟩,
   .method second "Run" 6 ⟨true, false, 0, .prim .void, []⟩]

/-- The first class. -/
def type : TypeDef where
  token := first
  assembly := "app"
  space := "N"
  name := "C"
  fullName := "N.C"
  flags := 1
  base := some second
  enclosing := none

/-- Public methods, inherited ones among them, and interfaces. -/
def required : Categories := .publicMethods ∪ .interfaces

end Circle

/-- The inherited method is found by its name, by its name in any case, and among everything. -/
theorem circle_superset : (ofList Circle.declarations).type? Circle.first = some Circle.type ∧
    let found := (ofList Circle.declarations).select Circle.type Circle.required (.named "Run" false)
    found ≠ [] ∧
    (ofList Circle.declarations).select? Circle.type Circle.required (.named "Run" false) =
      some found ∧
    (∀ m ∈ found, m ∈ (ofList Circle.declarations).select Circle.type
      (Circle.required ∪ .publicNestedTypes) (.named "Run" true)) ∧
    ∃ everything, (ofList Circle.declarations).select? Circle.type .all .any = some everything ∧
      ∀ m ∈ found, m ∈ everything := by
  have hd : (ofList Circle.declarations).type? Circle.first = some Circle.type := rfl
  have hfound : (ofList Circle.declarations).select? Circle.type Circle.required
      (.named "Run" false) = some ((ofList Circle.declarations).select Circle.type Circle.required
      (.named "Run" false)) := if_pos (by decide +kernel)
  have hall : (ofList Circle.declarations).select? Circle.type .all .any =
      some ((ofList Circle.declarations).select Circle.type .all .any) := if_pos (by decide +kernel)
  refine ⟨hd, by decide +kernel, hfound, ?_, _, hall, ?_⟩
  · exact (select_superset _ hd (by decide) fun _ => NameFilter.accepts_ignoreCase).1
  · exact (select_superset _ hd (by decide) fun name _ => NameFilter.accepts_any name).2 _ _ hfound hall

end Store

end ReflectionFlow

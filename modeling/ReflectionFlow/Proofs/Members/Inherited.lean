/-
  File:      ReflectionFlow/Proofs/Members/Inherited.lean
  Subject:   What a requirement says about the base type it says already about the type.

  From a type that must keep some members the base type is asked for, and the base type is taken to
  keep what is inherited of them.  That promise is free only if the requirement on the type reaches
  all those members itself.  Two things have to hold.  No category that is inherited reaches a
  member for the sake of the type that declares it, for then a base type would give more when it is
  asked itself than as one of a chain.  And the chain of a type holds all of the chain of its base,
  also where base types run in a circle: chains are cut off after as many steps as there are types,
  and the chain of the base starts one step later.

  * `Categories.wants_of_inherited`  what is inherited is reached wherever it is declared
  * `Store.mem_baseChain`            a chain holds exactly the types that base references lead to
  * `Store.select_inherited`
-/
import ReflectionFlow.Proofs.Members.Superset

namespace ReflectionFlow

/-! ## 1. Inherited categories -/

namespace Categories

variable {c p q : Categories}

/-- The categories that are inherited. -/
def inheritable : Categories :=
  publicEvents ∪ publicFields ∪ publicMethods ∪ publicProperties ∪ interfaces

theorem covers_of_inter {k : Categories} (h : (c ∩ k).covers q = true) :
    c.covers q = true ∧ k.covers q = true := by
  have hbits : c.bits &&& k.bits &&& q.bits = q.bits := eq_of_beq h
  constructor
  · refine beq_iff_eq.mpr ?_
    rw [← hbits, UInt32.and_assoc, ← UInt32.and_assoc c.bits, UInt32.and_self]
  · refine beq_iff_eq.mpr ?_
    rw [← hbits, UInt32.and_comm c.bits, UInt32.and_assoc, ← UInt32.and_assoc k.bits,
      UInt32.and_self]

theorem inherited_of_ne (hc : c ≠ all) : c.inherited = c ∩ inheritable := if_neg hc

theorem covers_of_inherited (hc : c ≠ all) (h : c.inherited.covers q = true) :
    c.covers q = true ∧ inheritable.covers q = true := by
  rw [inherited_of_ne hc] at h
  exact covers_of_inter h

theorem inherited_ne (hc : c ≠ all) : c.inherited ≠ all := by
  intro h
  have hall := covers_of_inherited (q := all) hc (h ▸ covers_refl all)
  exact absurd hall.2 (by decide)

theorem isEmpty_of_inherited (hc : c ≠ all) (h : c.inherited.isEmpty = false) :
    c.isEmpty = false := by
  cases he : c.isEmpty with
  | false => rfl
  | true =>
      have hbits : c.bits = 0 := eq_of_beq he
      rw [inherited_of_ne hc] at h
      unfold isEmpty at h
      rw [show (c ∩ inheritable).bits = c.bits &&& inheritable.bits from rfl, hbits,
        UInt32.zero_and] at h
      cases h

theorem not_covers_inherited (hc : c ≠ all) (hq : inheritable.covers q = false) :
    c.inherited.covers q = false := by
  cases h : c.inherited.covers q with
  | false => rfl
  | true =>
      rw [(covers_of_inherited hc h).2] at hq
      cases hq

/-- **What is inherited is reached whether the type declares it or not**, because it is public. -/
theorem wants_of_inherited (hc : c ≠ all) (hq : inheritable.covers q = false)
    {isPublic declared declared' : Bool} (h : c.inherited.wants isPublic declared p q = true) :
    c.wants isPublic declared' p q = true := by
  unfold wants at h ⊢
  split
  · next hp =>
    rw [if_pos hp] at h
    exact (covers_of_inherited hc h).1
  · next hp =>
    rw [if_neg hp, not_covers_inherited hc hq, Bool.and_false] at h
    cases h

end Categories

namespace Store

open Categories (inheritable not_covers_inherited)

variable {s : Store} {d e b : TypeDef} {c : Categories} {f : NameFilter} {m : Member}
  {declared declared' : Bool}

/-- No constructor is inherited, -/
theorem not_mem_constructors_inherited (hc : c ≠ .all) (b : TypeDef) :
    m ∉ s.constructors b c.inherited := by
  intro hm
  obtain ⟨_, _, x, _, hx, _⟩ := mem_constructors.mp hm
  have hpublic : c.inherited.covers .publicConstructors = false :=
    not_covers_inherited hc (by decide)
  have hempty : c.inherited.covers .publicParameterlessConstructor = false :=
    not_covers_inherited hc (by decide)
  have hother : c.inherited.covers .nonPublicConstructors = false :=
    not_covers_inherited hc (by decide)
  simp [wantsConstructor, hpublic, hempty, hother] at hx

/-- and no nested type. -/
theorem not_mem_nestedOf_inherited (hc : c ≠ .all) (b : TypeDef) :
    m ∉ s.nestedOf b c.inherited f := by
  intro hm
  obtain ⟨_, _, x, _, hx, _⟩ := mem_nestedOf.mp hm
  have hpublic : c.inherited.covers .publicNestedTypes = false :=
    not_covers_inherited hc (by decide)
  have hother : c.inherited.covers .nonPublicNestedTypes = false :=
    not_covers_inherited hc (by decide)
  simp [wantsNested, Categories.wants, hpublic, hother] at hx

theorem not_covers_chained {p q : Categories} (h : (p, q) ∈ chained) :
    inheritable.covers q = false := by
  have hall : ∀ pair ∈ chained, inheritable.covers pair.2 = false := by decide
  exact hall (p, q) h

/-- The other members a type contributes are inherited from it wherever it stands in a chain. -/
theorem membersOf_inherited (hc : c ≠ .all) :
    s.membersOf b c.inherited f declared ⊆ s.membersOf b c f declared' := by
  refine membersOf_mono fun hpair ht => ?_
  rw [Bool.and_eq_true] at ht ⊢
  exact ⟨ht.1, Categories.wants_of_inherited hc (not_covers_chained hpair) ht.2⟩

/-! ## 2. Chains of base types -/

theorem refers_base_iff : s.Refers baseReference d e ↔ d.base.bind s.type? = some e := by
  unfold Refers baseReference
  simp only [Option.mem_toList, Option.bind_eq_some_iff]

/-- Base references lead out of the list at most to the given type. -/
def ClosedTo (s : Store) (found : List TypeDef) (d : TypeDef) : Prop :=
  ∀ x, s.Adjacent baseReference found x → x ∈ found ∨ x = d

theorem ClosedTo.mem_of_leads {found : List TypeDef} (h : s.ClosedTo found d) (hd : d ∈ found)
    (hled : s.Leads baseReference d e) : e ∈ found := by
  induction hled with
  | refl => exact hd
  | tail _ hrefers ih => exact (h _ ⟨_, ih, hrefers⟩).elim id fun heq => heq ▸ hd

/-- A walk that has found some types finds all others in as many steps as tokens are missing. -/
theorem mem_baseChainWithin (hs : s.TypesTabled) {steps : Nat} {found : List TypeDef}
    (hfound : s.AllDefined found) (hclosed : s.ClosedTo found d) (hd : s.DefinesType d)
    (hsteps : (s.missing found).card ≤ steps) (hled : s.Leads baseReference d e) :
    e ∈ found ∨ e ∈ s.baseChainWithin steps d := by
  induction steps generalizing found d with
  | zero =>
      by_cases hmem : d ∈ found
      · exact .inl (hclosed.mem_of_leads hmem hled)
      · have hfewer := card_missing_lt hfound (List.subset_cons_self d found) hd
          List.mem_cons_self hmem
        omega
  | succ steps ih =>
      by_cases hmem : d ∈ found
      · exact .inl (hclosed.mem_of_leads hmem hled)
      -- the type counts as found now, and the walk goes on from its base
      rcases hled.cases_head with heq | ⟨x, hx, hled⟩
      · exact .inr (heq ▸ List.mem_cons_self)
      have hbase := refers_base_iff.mp hx
      have hfewer := card_missing_lt hfound (List.subset_cons_self d found) hd List.mem_cons_self hmem
      have hall : s.AllDefined (d :: found) := List.forall_mem_cons.mpr ⟨hd, hfound⟩
      have hx' : s.DefinesType x := Adjacent.defined hs ⟨d, List.mem_singleton.mpr rfl, hx⟩
      have hclosed' : s.ClosedTo (d :: found) x := by
        rintro y ⟨z, hz, hy⟩
        rcases List.mem_cons.mp hz with rfl | hz
        · rw [refers_base_iff, hbase] at hy
          exact .inr (Option.some.inj hy).symm
        · exact .inl ((hclosed y ⟨z, hz, hy⟩).elim (List.mem_cons_of_mem _)
            fun heq => heq ▸ List.mem_cons_self)
      unfold baseChainWithin
      rw [hbase]
      rcases ih hall hclosed' hx' (by omega) hled with he | he
      · exact (List.mem_cons.mp he).elim (fun heq => .inr (heq ▸ List.mem_cons_self)) .inl
      · exact .inr (List.mem_cons_of_mem _ he)

/-- **A chain holds exactly the types that base references lead to.** -/
theorem mem_baseChain (hs : s.TypesTabled) (hd : s.DefinesType d) :
    e ∈ s.baseChain d ↔ s.Leads baseReference d e := by
  constructor
  · exact leads_baseChain
  · intro hled
    have hwalk : e ∈ [] ∨ e ∈ s.baseChain d :=
      mem_baseChainWithin hs nofun nofun hd (card_missing_le s []) hled
    exact hwalk.resolve_left List.not_mem_nil

theorem baseChain_eq_cons (s : Store) (d : TypeDef) :
    s.baseChain d = d :: (s.baseChain d).drop 1 := by
  unfold baseChain
  cases s.types.length with
  | zero => rfl
  | succ steps => rfl

/-- A type of the chain contributes to the members, with what is inherited of its own. -/
theorem hierarchy_of_baseChain (hc : c ≠ .all) (he : e ∈ s.baseChain d)
    (hm : m ∈ s.membersOf e c.inherited f declared) : m ∈ s.hierarchy d c f := by
  rw [baseChain_eq_cons] at he
  rcases List.mem_cons.mp he with rfl | he
  · exact mem_hierarchy.mpr (.inl (membersOf_inherited hc hm))
  · exact mem_hierarchy.mpr (.inr (.inr ⟨e, he, membersOf_inherited hc hm⟩))

/-! ## 3. The base type -/

section Base

variable (hs : s.TypesTabled) (hd : s.DefinesType d) (hb : s.Refers baseReference d b)
include hs hd hb

omit hd in
theorem defines_base : s.DefinesType b := Adjacent.defined hs ⟨d, List.mem_singleton.mpr rfl, hb⟩

/-- The chain of a type holds the chain of its base. -/
theorem baseChain_base_subset : s.baseChain b ⊆ s.baseChain d := by
  intro e he
  rw [mem_baseChain hs (defines_base hs hb)] at he
  exact (mem_baseChain hs hd).mpr (.head hb he)

/-- So the members of the base are inherited by the type, -/
theorem hierarchy_base_subset (hc : c ≠ .all) :
    s.hierarchy b c.inherited f ⊆ s.hierarchy d c f := by
  intro m hm
  have hself : b ∈ s.baseChain b := (mem_baseChain hs (defines_base hs hb)).mpr .refl
  have hchain := baseChain_base_subset hs hd hb
  rcases mem_hierarchy.mp hm with hm | hm | ⟨e, he, hm⟩
  · exact hierarchy_of_baseChain hc (hchain hself) hm
  · exact absurd hm (not_mem_nestedOf_inherited hc b)
  · exact hierarchy_of_baseChain hc (hchain (List.mem_of_mem_drop he)) hm

/-- its interfaces are among those of the type, -/
theorem interfacesOf_base_subset : s.interfacesOf b f ⊆ s.interfacesOf d f := by
  have hdefined : ∀ x, s.AllDefined (((s.baseChain x).flatMap TypeDef.interfaces).filterMap s.type?) :=
    fun _ _ hi => (mem_candidates.mp hi).defined hs
  intro m hm
  obtain ⟨i, hi, rfl⟩ := List.mem_map.mp hm
  obtain ⟨hi, hname⟩ := List.mem_filter.mp hi
  obtain ⟨x, hx, hled⟩ := (mem_reach hs (hdefined b)).mp hi
  obtain ⟨e, he, hrefers⟩ := mem_candidates.mp hx
  have hdirect := mem_candidates.mpr ⟨e, baseChain_base_subset hs hd hb he, hrefers⟩
  have hreach := (mem_reach hs (hdefined d)).mpr ⟨x, hdirect, hled⟩
  exact List.mem_map.mpr ⟨i, List.mem_filter.mpr ⟨hreach, hname⟩, rfl⟩

/-- and everything about the base belongs to everything about the type. -/
theorem everything_base_subset : s.everything b ⊆ s.everything d := by
  intro m hm
  obtain ⟨e, he, hm⟩ := List.mem_flatMap.mp hm
  refine List.mem_flatMap.mpr ⟨e, ?_, hm⟩
  obtain ⟨x, hx, hled⟩ := (mem_reach hs (List.forall_mem_singleton.mpr (defines_base hs hb))).mp he
  rw [List.mem_singleton.mp hx] at hled
  refine (mem_reach hs (List.forall_mem_singleton.mpr hd)).mpr ⟨d, List.mem_singleton.mpr rfl, ?_⟩
  exact .head (hb.mono base_subset_related) hled

theorem TypesTabled.select_base_subset : s.select b c.inherited f ⊆ s.select d c f := by
  intro m hm
  rw [mem_select] at hm ⊢
  by_cases hc : c = .all
  · have hinherited : c.inherited = .all := if_pos hc
    rw [if_pos hinherited] at hm
    rw [if_pos hc]
    exact everything_base_subset hs hd hb hm
  · rw [if_neg (Categories.inherited_ne hc)] at hm
    rw [if_neg hc]
    obtain ⟨hnonempty, hm⟩ := hm
    refine ⟨Categories.isEmpty_of_inherited hc hnonempty, ?_⟩
    rcases hm with hm | hm | ⟨hi, hm⟩
    · exact absurd hm (not_mem_constructors_inherited hc b)
    · exact .inr (.inl (hierarchy_base_subset hs hd hb hc hm))
    · refine .inr (.inr ⟨(Categories.covers_of_inherited hc hi).1, ?_⟩)
      exact interfacesOf_base_subset hs hd hb hm

end Base

/-- **What the inherited part of a requirement reaches on the base type, the requirement reaches on
    the type**, in every store, whatever circles its types form; and so for the outcomes, where the
    searches end that both selections ask for. -/
theorem select_inherited (ds : List Declaration) {token base : Token} {d b : TypeDef}
    (hd : (ofList ds).type? token = some d) (hbase : d.base = some base)
    (hb : (ofList ds).type? base = some b) (c : Categories) (f : NameFilter) :
    (∀ m ∈ (ofList ds).select b c.inherited f, m ∈ (ofList ds).select d c f) ∧
    ∀ found wider, (ofList ds).select? b c.inherited f = some found →
      (ofList ds).select? d c f = some wider → ∀ m ∈ found, m ∈ wider := by
  have hs := typesTabled_ofList ds
  have hrefers : (ofList ds).Refers baseReference d b := ⟨base, Option.mem_toList.mpr hbase, hb⟩
  have hsubset : (ofList ds).select b c.inherited f ⊆ (ofList ds).select d c f :=
    hs.select_base_subset (hs.defines hd) hrefers
  exact ⟨fun m hm => hsubset hm, fun found wider => subset_of_select? hsubset⟩

/-- The second class of the circle. -/
def Circle.other : TypeDef := { Circle.type with
  token := Circle.second
  name := "D"
  fullName := "N.D"
  base := some Circle.first
  interfaces := [⟨0x02000003⟩]
  methods := [⟨0x06000001⟩] }

/-- Of two classes that are each the base of the other, the second gives its method and its interface,
    once by its categories and once among everything, and the first has them already. -/
theorem circle_inherited : (ofList Circle.declarations).type? Circle.first = some Circle.type ∧
    Circle.type.base = some Circle.second ∧
    (ofList Circle.declarations).type? Circle.second = some Circle.other ∧
    ∀ c ∈ [Circle.required ∪ .nonPublicMethods, .all], ∃ found wider,
      (ofList Circle.declarations).select? Circle.other c.inherited .any = some found ∧
      (ofList Circle.declarations).select? Circle.type c .any = some wider ∧
      found ≠ [] ∧ ∀ m ∈ found, m ∈ wider := by
  have hd : (ofList Circle.declarations).type? Circle.first = some Circle.type := rfl
  have hb : (ofList Circle.declarations).type? Circle.second = some Circle.other := rfl
  refine ⟨hd, rfl, hb, fun c hc => ?_⟩
  have hends : (ofList Circle.declarations).selectionEnds Circle.other c.inherited .any = true ∧
      (ofList Circle.declarations).selectionEnds Circle.type c .any = true ∧
      (ofList Circle.declarations).select Circle.other c.inherited .any ≠ [] := by
    revert c
    decide +kernel
  refine ⟨_, _, if_pos hends.1, if_pos hends.2.1, hends.2.2, ?_⟩
  exact (select_inherited _ hd rfl hb c .any).2 _ _ (if_pos hends.1) (if_pos hends.2.1)

end Store

end ReflectionFlow

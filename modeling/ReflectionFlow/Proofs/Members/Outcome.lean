/-
  File:      ReflectionFlow/Proofs/Members/Outcome.lean
  Subject:   When a selection has an outcome.

  A selection asks for the definitions of the types that others refer to, and of methods for the sake
  of their visibility.  It keeps the types it has met, so circles of types do no harm.  The search for
  a single definition keeps nothing, and one that runs into a circle of specifications never ends.
  What a selection asks for is said here by paths of references, without a walk.

  * `Store.AsksType`, `Store.AsksMethod`    the tokens that a selection asks for
  * `Store.Answerable`                      all these searches end
  * `Store.selectionEnds_iff`               which is what decides whether there is an outcome
  * `Store.Layered.answerable`              as there always is if specifications name earlier ones
-/
import ReflectionFlow.Proofs.Members.Inherited
import ReflectionFlow.Proofs.Metadata.Searches

namespace ReflectionFlow

namespace Store

/-! ## 1. What is asked for -/

/-- Some accessor is a public method. -/
def SomePublic (s : Store) (accessors : List Token) : Prop :=
  ∃ t ∈ accessors, ∃ x, s.methodDef? t = some x ∧ x.isPublic = true

/-- **An accessor is looked up** if none before it is public. -/
def LooksUp (s : Store) (accessors : List Token) (t : Token) : Prop :=
  ∃ before after, accessors = before ++ t :: after ∧ ¬ s.SomePublic before

/-- **A method is looked up for the members of a type.** -/
inductive LooksFor (s : Store) (f : NameFilter) (d : TypeDef) : Token → Prop
  | method {t : Token} (ht : t ∈ d.methods) : LooksFor s f d t
  | property {p t : Token} {x : PropertyDef} (hp : p ∈ d.properties) (hx : s.property? p = some x)
      (hf : f.accepts x.name = true) (ht : s.LooksUp x.accessors t) : LooksFor s f d t
  | event {p t : Token} {x : EventDef} (hp : p ∈ d.events) (hx : s.event? p = some x)
      (hf : f.accepts x.name = true) (ht : s.LooksUp x.accessors t) : LooksFor s f d t

/-- **The members of a type are looked at**: it is the selected type or one of its base types, and
    some categories are asked for, but not everything. -/
structure LooksThrough (s : Store) (d : TypeDef) (c : Categories) (e : TypeDef) : Prop where
  notAll : c ≠ .all
  notEmpty : c.isEmpty = false
  leads : s.Leads baseReference d e

/-- **The methods that a selection asks for.** -/
def AsksMethod (s : Store) (d : TypeDef) (c : Categories) (f : NameFilter) (t : Token) : Prop :=
  ∃ e, s.LooksThrough d c e ∧ s.LooksFor f e t

/-- **The types that a selection asks for.** -/
inductive AsksType (s : Store) (d : TypeDef) (c : Categories) : Token → Prop
  | base {e : TypeDef} {t : Token} (he : s.LooksThrough d c e) (ht : t ∈ baseReference e) :
      AsksType s d c t
  | nested {t : Token} (hd : s.LooksThrough d c d) (ht : t ∈ d.nested) : AsksType s d c t
  | interface {e : TypeDef} {t : Token} (he : s.LooksThrough d c e)
      (hc : c.covers .interfaces = true) (ht : t ∈ e.interfaces) : AsksType s d c t
  | extended {e i j : TypeDef} {t : Token} (he : s.LooksThrough d c e)
      (hc : c.covers .interfaces = true) (hi : s.Refers TypeDef.interfaces e i)
      (hj : s.Leads TypeDef.interfaces i j) (ht : t ∈ j.interfaces) : AsksType s d c t
  | related {e : TypeDef} {t : Token} (hc : c = .all) (he : s.Leads related d e)
      (ht : t ∈ Store.related e) : AsksType s d c t

/-- **All searches end that a selection asks for.** -/
structure Answerable (s : Store) (d : TypeDef) (c : Categories) (f : NameFilter) : Prop where
  types : ∀ t, s.AsksType d c t → Hop.Ends s.typeHop t
  methods : ∀ t, s.AsksMethod d c f t → Hop.Ends s.methodHop t

variable {s : Store} {d e : TypeDef} {c : Categories} {f : NameFilter} {t u : Token}

/-! ## 2. Methods -/

theorem looksUp_cons {rest : List Token} :
    s.LooksUp (t :: rest) u ↔ u = t ∨ ¬ s.SomePublic [t] ∧ s.LooksUp rest u := by
  constructor
  · rintro ⟨before, after, h, hb⟩
    cases before with
    | nil => exact .inl (List.cons.inj h).1.symm
    | cons v before =>
        rw [List.cons_append] at h
        obtain ⟨rfl, hrest⟩ := List.cons.inj h
        refine .inr ⟨fun ⟨w, hw, hx⟩ => hb ⟨w, ?_, hx⟩, before, after, hrest, fun hlater => hb ?_⟩
        · exact List.mem_cons.mpr (.inl (List.mem_singleton.mp hw))
        · exact hlater.imp fun w hw => ⟨List.mem_cons_of_mem _ hw.1, hw.2⟩
  · rintro (rfl | ⟨ht, before, after, rfl, hb⟩)
    · exact ⟨[], rest, rfl, fun ⟨_, hw, _⟩ => List.not_mem_nil hw⟩
    · refine ⟨t :: before, after, rfl, fun ⟨w, hw, hx⟩ => ?_⟩
      rcases List.mem_cons.mp hw with rfl | hw
      · exact ht ⟨w, List.mem_singleton.mpr rfl, hx⟩
      · exact hb ⟨w, hw, hx⟩

theorem somePublic_singleton :
    s.SomePublic [t] ↔ ((s.method? t).any fun r => r.method.isPublic) = true := by
  unfold SomePublic methodDef?
  simp only [List.mem_singleton, exists_eq_left]
  cases s.method? t <;> simp

theorem accessorsEnd_iff {accessors : List Token} :
    s.accessorsEnd accessors = true ↔ ∀ t, s.LooksUp accessors t → Hop.Ends s.methodHop t := by
  induction accessors with
  | nil =>
      refine iff_of_true rfl fun t ht => ?_
      obtain ⟨before, after, h, _⟩ := ht
      cases before <;> cases h
  | cons t rest ih =>
      simp only [looksUp_cons]
      unfold accessorsEnd
      by_cases hends : Hop.Ends s.methodHop t
      · rw [methodSearch?_of_ends hends]
        dsimp only
        rw [Bool.or_eq_true, ← somePublic_singleton, ih]
        constructor
        · rintro hor u (rfl | ⟨hnot, hu⟩)
          · exact hends
          · exact (hor.resolve_left hnot) u hu
        · intro hall
          by_cases hpublic : s.SomePublic [t]
          · exact .inl hpublic
          · exact .inr fun u hu => hall u (.inr ⟨hpublic, hu⟩)
      · have hnone : s.methodSearch? t = none :=
          Option.not_isSome_iff_eq_none.mp (mt methodSearch?_isSome_iff.mp hends)
        rw [hnone]
        exact iff_of_false Bool.false_ne_true fun hall => hends (hall t (.inl rfl))

theorem all_accessorsEnd_iff {α : Type} {find : Token → Option α} {p : α → Bool}
    {accessors : α → List Token} {l : List Token} :
    (l.all fun t => (find t).all fun x => !p x || s.accessorsEnd (accessors x)) = true ↔
      ∀ t ∈ l, ∀ x, find t = some x → p x = true →
        ∀ u, s.LooksUp (accessors x) u → Hop.Ends s.methodHop u := by
  rw [List.all_eq_true]
  refine forall₂_congr fun t _ => ?_
  cases find t with
  | none => simp
  | some x => cases hp : p x <;> simp [hp, accessorsEnd_iff]

theorem membersEnd_iff :
    s.membersEnd f d = true ↔ ∀ t, s.LooksFor f d t → Hop.Ends s.methodHop t := by
  unfold membersEnd
  rw [Bool.and_eq_true, Bool.and_eq_true, all_accessorsEnd_iff, all_accessorsEnd_iff,
    List.all_eq_true]
  simp only [methodSearch?_isSome_iff]
  constructor
  · rintro ⟨⟨hmethods, hproperties⟩, hevents⟩ t ht
    cases ht with
    | method ht => exact hmethods t ht
    | property hp hx hf ht => exact hproperties _ hp _ hx hf t ht
    | event hp hx hf ht => exact hevents _ hp _ hx hf t ht
  · intro hall
    refine ⟨⟨fun t ht => hall t (.method ht), fun p hp x hx hf t ht => ?_⟩, fun p hp x hx hf t ht => ?_⟩
    · exact hall t (.property hp hx hf ht)
    · exact hall t (.event hp hx hf ht)

/-! ## 3. Types -/

theorem referencesEnd_iff {next : TypeDef → List Token} {types : List TypeDef} :
    s.referencesEnd next types = true ↔
      ∀ e ∈ types, ∀ t ∈ next e, Hop.Ends s.typeHop t := by
  unfold referencesEnd
  simp only [List.all_eq_true, typeSearch?_isSome_iff]

/-! ## 4. The selection -/

/-- What everything asks for are the types that the related types refer to. -/
theorem answerable_all_iff : s.Answerable d .all f ↔
    ∀ e, s.Leads related d e → ∀ t ∈ related e, Hop.Ends s.typeHop t := by
  constructor
  · exact fun h e he t ht => h.types t (.related rfl he ht)
  · intro h
    refine ⟨fun t ht => ?_, fun t ⟨e, he, _⟩ => absurd rfl he.notAll⟩
    cases ht with
    | base he _ => exact absurd rfl he.notAll
    | nested he _ => exact absurd rfl he.notAll
    | interface he _ _ => exact absurd rfl he.notAll
    | extended he _ _ _ _ => exact absurd rfl he.notAll
    | related _ he ht => exact h _ he t ht

/-- Without categories nothing is asked for. -/
theorem answerable_of_isEmpty (hc : c ≠ .all) (hempty : c.isEmpty = true) : s.Answerable d c f := by
  have hnot : ∀ {e}, ¬ s.LooksThrough d c e := fun he =>
    Bool.false_ne_true (he.notEmpty.symm.trans hempty)
  refine ⟨fun t ht => ?_, fun t ⟨e, he, _⟩ => absurd he hnot⟩
  cases ht with
  | base he _ => exact absurd he hnot
  | nested he _ => exact absurd he hnot
  | interface he _ _ => exact absurd he hnot
  | extended he _ _ _ _ => exact absurd he hnot
  | related hall _ _ => exact absurd hall hc

/-- What some categories ask for, walk by walk: the members of the base chain, the base types, the
    nested types and the interfaces. -/
theorem answerable_iff (hc : c ≠ .all) (hempty : c.isEmpty = false) : s.Answerable d c f ↔
    (∀ e, s.Leads baseReference d e → ∀ t, s.LooksFor f e t → Hop.Ends s.methodHop t) ∧
    (∀ e, s.Leads baseReference d e → ∀ t ∈ baseReference e, Hop.Ends s.typeHop t) ∧
    (∀ t ∈ d.nested, Hop.Ends s.typeHop t) ∧
    (c.covers .interfaces = true → ∀ e, (s.Leads baseReference d e ∨ ∃ e' i,
      s.Leads baseReference d e' ∧ s.Refers TypeDef.interfaces e' i ∧
        s.Leads TypeDef.interfaces i e) → ∀ t ∈ e.interfaces, Hop.Ends s.typeHop t) := by
  have hlooks : ∀ {e}, s.Leads baseReference d e → s.LooksThrough d c e := fun he => ⟨hc, hempty, he⟩
  constructor
  · intro h
    refine ⟨fun e he t ht => h.methods t ⟨e, hlooks he, ht⟩,
      fun e he t ht => h.types t (.base (hlooks he) ht),
      fun t ht => h.types t (.nested (hlooks .refl) ht), fun hi e he t ht => ?_⟩
    rcases he with he | ⟨e', i, he', hi', hj⟩
    · exact h.types t (.interface (hlooks he) hi ht)
    · exact h.types t (.extended (hlooks he') hi hi' hj ht)
  · rintro ⟨hmembers, hbase, hnested, hinterfaces⟩
    refine ⟨fun t ht => ?_, fun t ⟨e, he, ht⟩ => hmembers e he.leads t ht⟩
    cases ht with
    | base he ht => exact hbase _ he.leads t ht
    | nested _ ht => exact hnested t ht
    | interface he hi ht => exact hinterfaces hi _ (.inl he.leads) t ht
    | extended he hi hi' hj ht => exact hinterfaces hi _ (.inr ⟨_, _, he.leads, hi', hj⟩) t ht
    | related hall _ _ => exact absurd hall hc

section Selection

variable (hs : s.TypesTabled) (hd : s.DefinesType d)
include hs hd

theorem mem_interfaceReach {j : TypeDef} :
    j ∈ s.reach TypeDef.interfaces (((s.baseChain d).flatMap TypeDef.interfaces).filterMap s.type?) ↔
      ∃ e i, s.Leads baseReference d e ∧ s.Refers TypeDef.interfaces e i ∧
        s.Leads TypeDef.interfaces i j := by
  have hdefined : s.AllDefined (((s.baseChain d).flatMap TypeDef.interfaces).filterMap s.type?) :=
    fun _ hi => (mem_candidates.mp hi).defined hs
  rw [mem_reach hs hdefined]
  constructor
  · rintro ⟨i, hi, hj⟩
    obtain ⟨e, he, hi⟩ := mem_candidates.mp hi
    exact ⟨e, i, leads_baseChain he, hi, hj⟩
  · rintro ⟨e, i, he, hi, hj⟩
    exact ⟨i, mem_candidates.mpr ⟨e, (mem_baseChain hs hd).mpr he, hi⟩, hj⟩

/-- **Whether a selection has an outcome is decided by the searches that it asks for.** -/
theorem selectionEnds_iff : s.selectionEnds d c f = true ↔ s.Answerable d c f := by
  unfold selectionEnds
  by_cases hall : c = .all
  · subst hall
    rw [if_pos rfl, referencesEnd_iff, answerable_all_iff]
    simp only [mem_reach hs (List.forall_mem_singleton.mpr hd), List.mem_singleton, exists_eq_left]
  rw [if_neg hall]
  cases hempty : c.isEmpty with
  | true => exact iff_of_true (if_pos rfl) (answerable_of_isEmpty hall hempty)
  | false =>
      rw [if_neg Bool.false_ne_true, answerable_iff hall hempty]
      simp only [Bool.and_eq_true, Bool.or_eq_true, List.all_eq_true, membersEnd_iff,
        referencesEnd_iff, List.mem_append, mem_baseChain hs hd, mem_interfaceReach hs hd,
        List.mem_singleton, forall_eq, and_assoc]
      refine and_congr_right' (and_congr_right' (and_congr_right' ?_))
      cases c.covers .interfaces <;> simp

theorem exists_select?_iff :
    (∃ selected, s.select? d c f = some selected) ↔ s.Answerable d c f := by
  rw [← selectionEnds_iff hs hd]
  unfold select?
  split
  · next h => exact iff_of_true ⟨_, rfl⟩ h
  · next h => exact iff_of_false nofun h

end Selection

/-- Where specifications name earlier ones only, every selection is answered. -/
theorem Layered.answerable (h : s.Layered) : s.Answerable d c f :=
  ⟨fun t _ => h.types_end t, fun t _ => h.methods_end t⟩

end Store

end ReflectionFlow

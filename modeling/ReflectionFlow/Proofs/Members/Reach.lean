/-
  File:      ReflectionFlow/Proofs/Members/Reach.lean
  Subject:   The types that are found step by step are those that paths lead to.

  Types refer to each other by tokens, and the references may run in circles.  A search keeps the
  types it has found and adds those one step away, as often as there are types.  That is enough:
  a step that adds nothing ends the search, and any other step finds a type of the table that was
  not found before.

  * `Store.Leads`            a path of references from one type to another
  * `Store.reach_closed`     a search ends with a list that no step leads out of
  * `Store.mem_reach`        it finds exactly the types that paths lead to
  * `Store.leads_baseChain`  base types are at the end of paths of base references
-/
import Mathlib.Data.Finset.Card
import Mathlib.Logic.Relation
import ReflectionFlow.Members.Selection
import ReflectionFlow.Proofs.Metadata.Types

namespace ReflectionFlow

namespace Store

/-! ## 1. Paths -/

/-- One reference leads from a type to another. -/
def Refers (s : Store) (next : TypeDef → List Token) (d e : TypeDef) : Prop :=
  ∃ t ∈ next d, s.type? t = some e

/-- **A path of references leads from a type to another**, which may be the same. -/
abbrev Leads (s : Store) (next : TypeDef → List Token) : TypeDef → TypeDef → Prop :=
  Relation.ReflTransGen (s.Refers next)

variable {s : Store} {next next' : TypeDef → List Token} {d e : TypeDef} {found : List TypeDef}

theorem Refers.mono (h : ∀ d, next d ⊆ next' d) (hr : s.Refers next d e) : s.Refers next' d e := by
  obtain ⟨t, ht, he⟩ := hr
  exact ⟨t, h d ht, he⟩

theorem Leads.mono (h : ∀ d, next d ⊆ next' d) (hl : s.Leads next d e) : s.Leads next' d e := by
  refine Relation.ReflTransGen.mono ?_ d e hl
  exact fun _ _ hr => hr.mono h

/-! ## 2. One step of a search -/

/-- The types one step away from those that are found. -/
def Adjacent (s : Store) (next : TypeDef → List Token) (found : List TypeDef) (e : TypeDef) : Prop :=
  ∃ d ∈ found, s.Refers next d e

theorem mem_candidates : e ∈ (found.flatMap next).filterMap s.type? ↔ s.Adjacent next found e := by
  rw [List.mem_filterMap]
  constructor
  · rintro ⟨t, ht, he⟩
    obtain ⟨d, hd, ht⟩ := List.mem_flatMap.mp ht
    exact ⟨d, hd, t, ht, he⟩
  · rintro ⟨d, hd, t, ht, he⟩
    exact ⟨t, List.mem_flatMap.mpr ⟨d, hd, ht⟩, he⟩

/-- The list with a type added, unless one of its token is there. -/
def withType (found : List TypeDef) (d : TypeDef) : List TypeDef :=
  if found.any fun e => e.token == d.token then found else found ++ [d]

theorem grow_eq (s : Store) (next : TypeDef → List Token) (found : List TypeDef) :
    s.grow next found = ((found.flatMap next).filterMap s.type?).foldl withType found := rfl

theorem mem_foldl_withType {candidates : List TypeDef} (he : e ∈ candidates.foldl withType found) :
    e ∈ found ∨ e ∈ candidates := by
  induction candidates generalizing found with
  | nil => exact .inl he
  | cons d rest ih =>
      rw [List.foldl_cons] at he
      rcases ih he with he | he
      · unfold withType at he
        split at he
        · exact .inl he
        · rcases List.mem_append.mp he with he | he
          · exact .inl he
          · exact .inr (List.mem_singleton.mp he ▸ List.mem_cons_self)
      · exact .inr (List.mem_cons_of_mem _ he)

theorem prefix_foldl_withType (candidates found : List TypeDef) :
    found <+: candidates.foldl withType found := by
  refine List.foldlRecOn (motive := fun acc => found <+: acc) _ _ (List.prefix_refl _)
    fun acc hacc d _ => ?_
  unfold withType
  split
  · exact hacc
  · exact hacc.trans (List.prefix_append _ _)

theorem exists_mem_withType (found : List TypeDef) (d : TypeDef) :
    ∃ e ∈ withType found d, e.token = d.token := by
  unfold withType
  split
  · next h =>
    obtain ⟨e, he, htoken⟩ := List.any_eq_true.mp h
    exact ⟨e, he, eq_of_beq htoken⟩
  · exact ⟨d, List.mem_append_right _ (List.mem_singleton.mpr rfl), rfl⟩

/-- Of every candidate there is a type of its token in the end. -/
theorem exists_mem_foldl_withType {candidates : List TypeDef} (found : List TypeDef)
    (hd : d ∈ candidates) :
    ∃ e ∈ candidates.foldl withType found, e.token = d.token := by
  induction candidates generalizing found with
  | nil => cases hd
  | cons c rest ih =>
      rw [List.foldl_cons]
      rcases List.mem_cons.mp hd with rfl | hd
      · obtain ⟨e, he, htoken⟩ := exists_mem_withType found d
        exact ⟨e, (prefix_foldl_withType rest _).subset he, htoken⟩
      · exact ih _ hd

theorem prefix_grow (s : Store) (next : TypeDef → List Token) (found : List TypeDef) :
    found <+: s.grow next found := prefix_foldl_withType _ _

/-- All types of the list are defined. -/
abbrev AllDefined (s : Store) (found : List TypeDef) : Prop := ∀ d ∈ found, s.DefinesType d

theorem Adjacent.defined (hs : s.TypesTabled) (h : s.Adjacent next found e) : s.DefinesType e := by
  obtain ⟨_, _, _, _, he⟩ := h
  exact hs.defines he

/-- **A step adds the types one step away and no others.** -/
theorem mem_grow (hs : s.TypesTabled) (hfound : s.AllDefined found) :
    e ∈ s.grow next found ↔ e ∈ found ∨ s.Adjacent next found e := by
  have hsound : ∀ {e}, e ∈ s.grow next found → e ∈ found ∨ s.Adjacent next found e := fun he =>
    (mem_foldl_withType he).imp id mem_candidates.mp
  constructor
  · exact hsound
  · rintro (he | he)
    · exact (prefix_grow s next found).subset he
    · obtain ⟨e', he', htoken⟩ := exists_mem_foldl_withType found (mem_candidates.mpr he)
      have hdefined : s.DefinesType e' := (hsound he').elim (hfound e') (Adjacent.defined hs)
      rwa [hdefined.eq_of_token (he.defined hs) htoken] at he'

theorem AllDefined.grow (hs : s.TypesTabled) (hfound : s.AllDefined found) :
    s.AllDefined (s.grow next found) := fun e he =>
  ((mem_grow hs hfound).mp he).elim (hfound e) (Adjacent.defined hs)

/-! ## 3. A whole search -/

/-- No step leads out of the list. -/
def Closed (s : Store) (next : TypeDef → List Token) (found : List TypeDef) : Prop :=
  ∀ e, s.Adjacent next found e → e ∈ found

/-- The tokens of the type table that are not found yet. -/
def missing (s : Store) (found : List TypeDef) : Finset Token :=
  (s.types.map Prod.fst).toFinset \ (found.map TypeDef.token).toFinset

theorem card_missing_le (s : Store) (found : List TypeDef) :
    (s.missing found).card ≤ s.types.length := by
  refine (Finset.card_le_card Finset.sdiff_subset).trans ?_
  refine (List.toFinset_card_le _).trans ?_
  rw [List.length_map]

theorem DefinesType.mem_keys (h : s.DefinesType e) :
    e.token ∈ (s.types.map Prod.fst).toFinset :=
  List.mem_toFinset.mpr (List.mem_map_of_mem (f := Prod.fst) (Assoc.mem_of_get? h))

/-- A step that leads nowhere new adds nothing. -/
theorem Closed.grow_eq (h : s.Closed next found) : s.grow next found = found := by
  rw [Store.grow_eq]
  refine List.foldlRecOn (motive := fun acc => acc = found) _ _ rfl fun acc hacc d hd => ?_
  have hany : (found.any fun e => e.token == d.token) = true :=
    List.any_eq_true.mpr ⟨d, h d (mem_candidates.mp hd), beq_self_eq_true d.token⟩
  rw [hacc]
  exact if_pos hany

theorem closed_of_grow_eq (hs : s.TypesTabled) (hfound : s.AllDefined found)
    (h : s.grow next found = found) : s.Closed next found := by
  intro e he
  have hmem := (mem_grow hs hfound).mpr (.inr he)
  rwa [h] at hmem

/-- **A type that is newly found leaves fewer tokens to find.** -/
theorem card_missing_lt {more : List TypeDef} (hfound : s.AllDefined found) (hmore : found ⊆ more)
    (hdefined : s.DefinesType e) (he : e ∈ more) (hnot : e ∉ found) :
    (s.missing more).card < (s.missing found).card := by
  refine Finset.card_lt_card ((Finset.ssubset_iff_of_subset ?_).mpr ⟨e.token, ?_, ?_⟩)
  · refine Finset.sdiff_subset_sdiff (Finset.Subset.refl _) fun t ht => ?_
    obtain ⟨d, hd, rfl⟩ := List.mem_map.mp (List.mem_toFinset.mp ht)
    exact List.mem_toFinset.mpr (List.mem_map_of_mem (hmore hd))
  · refine Finset.mem_sdiff.mpr ⟨hdefined.mem_keys, fun ht => hnot ?_⟩
    obtain ⟨d, hd, htoken⟩ := List.mem_map.mp (List.mem_toFinset.mp ht)
    rwa [← (hfound d hd).eq_of_token hdefined htoken]
  · intro ht
    exact (Finset.mem_sdiff.mp ht).2 (List.mem_toFinset.mpr (List.mem_map_of_mem he))

/-- A step leaves fewer tokens to find unless it leads nowhere new. -/
theorem card_missing_grow (hs : s.TypesTabled) (hfound : s.AllDefined found)
    (h : ¬ s.Closed next found) :
    (s.missing (s.grow next found)).card < (s.missing found).card := by
  unfold Closed at h
  push Not at h
  obtain ⟨e, hadjacent, hnot⟩ := h
  have hgrown : e ∈ s.grow next found := (mem_grow hs hfound).mpr (.inr hadjacent)
  exact card_missing_lt hfound (prefix_grow s next found).subset (hadjacent.defined hs) hgrown hnot

/-- Where no token is missing, everything is found. -/
theorem closed_of_missing (hs : s.TypesTabled) (hfound : s.AllDefined found)
    (h : (s.missing found).card = 0) : s.Closed next found :=
  Classical.byContradiction fun hnot =>
    Nat.not_lt_zero _ (h ▸ card_missing_grow hs hfound hnot)

/-- What is kept in a search. -/
structure Searched (s : Store) (next : TypeDef → List Token) (start found : List TypeDef) : Prop where
  started : start ⊆ found
  defined : s.AllDefined found
  led : ∀ e ∈ found, ∃ d ∈ start, s.Leads next d e

theorem Searched.grow {start : List TypeDef} (hs : s.TypesTabled) (h : s.Searched next start found) :
    s.Searched next start (s.grow next found) := by
  refine ⟨fun d hd => (prefix_grow s next found).subset (h.started hd), h.defined.grow hs,
    fun e he => ?_⟩
  rcases (mem_grow hs h.defined).mp he with he | ⟨d, hd, hrefers⟩
  · exact h.led e he
  · obtain ⟨d₀, hd₀, hled⟩ := h.led d hd
    exact ⟨d₀, hd₀, hled.tail hrefers⟩

/-- With as many steps as tokens are missing a search ends with a closed list. -/
theorem searched_reachWithin {start : List TypeDef} (hs : s.TypesTabled) {steps : Nat}
    (h : s.Searched next start found) (hsteps : (s.missing found).card ≤ steps) :
    s.Searched next start (s.reachWithin next steps found) ∧
      s.Closed next (s.reachWithin next steps found) := by
  induction steps generalizing found with
  | zero => exact ⟨h, closed_of_missing hs h.defined (Nat.le_zero.mp hsteps)⟩
  | succ steps ih =>
      unfold reachWithin
      dsimp only
      split
      · next hlength =>
        have heq := (prefix_grow s next found).eq_of_length hlength.symm
        exact ⟨h, closed_of_grow_eq hs h.defined heq.symm⟩
      · next hlength =>
        have hopen : ¬ s.Closed next found := fun hclosed =>
          hlength (congrArg List.length hclosed.grow_eq)
        have hfewer := card_missing_grow hs h.defined hopen
        exact ih (h.grow hs) (by omega)

/-- **A search ends with a list that no step leads out of.** -/
theorem reach_closed (next : TypeDef → List Token) {start : List TypeDef} (hs : s.TypesTabled)
    (hstart : s.AllDefined start) :
    s.Searched next start (s.reach next start) ∧ s.Closed next (s.reach next start) :=
  searched_reachWithin hs ⟨fun _ h => h, hstart, fun e he => ⟨e, he, .refl⟩⟩ (card_missing_le s start)

/-- **A search finds exactly the types that paths lead to.** -/
theorem mem_reach {start : List TypeDef} (hs : s.TypesTabled) (hstart : s.AllDefined start) :
    e ∈ s.reach next start ↔ ∃ d ∈ start, s.Leads next d e := by
  obtain ⟨hsearched, hclosed⟩ := reach_closed next hs hstart
  constructor
  · exact hsearched.led e
  · rintro ⟨d, hd, hled⟩
    induction hled with
    | refl => exact hsearched.started hd
    | tail _ hrefers ih => exact hclosed _ ⟨_, ih, hrefers⟩

/-! ## 4. Base types -/

/-- The reference of a type to its base type. -/
def baseReference (d : TypeDef) : List Token := d.base.toList

/-- **A base type is at the end of a path of base references.** -/
theorem leads_baseChain (h : e ∈ s.baseChain d) : s.Leads baseReference d e := by
  suffices hwithin : ∀ steps d, e ∈ s.baseChainWithin steps d → s.Leads baseReference d e from
    hwithin _ d h
  intro steps
  induction steps with
  | zero =>
      intro d h
      exact List.mem_singleton.mp h ▸ .refl
  | succ steps ih =>
      intro d h
      rcases List.mem_cons.mp h with rfl | h
      · exact .refl
      · split at h
        · next base hbase =>
          obtain ⟨t, ht, hbase⟩ := Option.bind_eq_some_iff.mp hbase
          have hrefers : s.Refers baseReference d base := ⟨t, Option.mem_toList.mpr ht, hbase⟩
          exact .head hrefers (ih base h)
        · cases h

end Store

end ReflectionFlow

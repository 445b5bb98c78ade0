/-
  File:      ReflectionFlow/Proofs/Metadata/Searches.lean
  Subject:   When the search for a definition ends.

  A type specification and a method instance send the search for their definition on to another
  token, and a declaration may name any token: its own, one of its own table, one that comes
  later.  The search goes straight on, so it ends exactly if it does not come back to a token it
  has left.  Each token it leaves is a row of one table, so a search that ends is over within as
  many hops as the table has rows.

  * `Hop.Ends`, `Hop.Circles`       the search is over at some time; it runs into a circle
  * `Hop.ends_iff`                  one or the other
  * `Store.typeSearch?_of_ends`     what is found is the outcome, if there is one
  * `Store.type?_eq_none_iff`       what it means that nothing is found
  * `Store.Backward`                a history whose rows name earlier rows of their own table only
  * `Store.searches_end_iff`        which searches end in a store built from declarations
-/
import Mathlib.Data.Finset.Card
import Mathlib.Logic.Relation
import ReflectionFlow.Proofs.Metadata.Types

namespace ReflectionFlow

open Relation

/-! ## 1. Circles -/

namespace Hop

variable {α : Type} {hop : Token → Hop α} {t u v : Token}

/-- A token sends the search on to another one. -/
def Sends (hop : Token → Hop α) (t u : Token) : Prop := ∃ complete, hop t = .onward u complete

/-- **The search from a token ends**: some number of hops is enough. -/
def Ends (hop : Token → Hop α) (t : Token) : Prop := ∃ hops found, search hop hops t = some found

/-- **The search from a token runs into a circle**: it comes to a token to which it comes back. -/
def Circles (hop : Token → Hop α) (t : Token) : Prop :=
  ∃ u, ReflTransGen (Sends hop) t u ∧ TransGen (Sends hop) u u

theorem Sends.search_zero (h : Sends hop t u) : search hop 0 t = none := by
  obtain ⟨_, h⟩ := h
  exact Hop.search_zero h

theorem Sends.search_succ_eq_none (h : Sends hop t u) {hops : Nat} (hu : search hop hops u = none) :
    search hop (hops + 1) t = none := by
  obtain ⟨_, h⟩ := h
  rw [Hop.search_succ h, hu]
  rfl

/-- A token to which the search comes back sends it on to another such token. -/
theorem exists_sends_of_round (h : TransGen (Sends hop) t t) :
    ∃ u, Sends hop t u ∧ TransGen (Sends hop) u u := by
  obtain ⟨u, htu, hut⟩ := TransGen.head'_iff.mp h
  exact ⟨u, htu, TransGen.tail' hut htu⟩

/-- **On a circle no number of hops is enough.** -/
theorem search_of_round (h : TransGen (Sends hop) t t) (hops : Nat) : search hop hops t = none := by
  induction hops generalizing t with
  | zero =>
      obtain ⟨u, htu, _⟩ := exists_sends_of_round h
      exact htu.search_zero
  | succ hops ih =>
      obtain ⟨u, htu, hu⟩ := exists_sends_of_round h
      exact htu.search_succ_eq_none (ih hu)

theorem search_of_circles (h : Circles hop t) (hops : Nat) : search hop hops t = none := by
  obtain ⟨u, htu, hu⟩ := h
  induction htu using ReflTransGen.head_induction_on generalizing hops with
  | refl => exact search_of_round hu hops
  | head htv _ ih =>
      cases hops with
      | zero => exact htv.search_zero
      | succ hops => exact htv.search_succ_eq_none (ih hops)

/-- More hops do not change the outcome. -/
theorem search_mono {hops more : Nat} {found : Option α} (hle : hops ≤ more)
    (h : search hop hops t = some found) : search hop more t = some found := by
  induction more generalizing hops t found with
  | zero => exact Nat.le_zero.mp hle ▸ h
  | succ more ih =>
      cases ht : hop t with
      | ended found' =>
          rw [search_ended ht] at h ⊢
          exact h
      | onward u complete =>
          cases hops with
          | zero =>
              rw [Hop.search_zero ht] at h
              cases h
          | succ hops =>
              rw [Hop.search_succ ht] at h ⊢
              obtain ⟨found', hu, rfl⟩ := Option.map_eq_some_iff.mp h
              rw [ih (Nat.le_of_succ_le_succ hle) hu]
              rfl

/-- **A search that runs into no circle is over within as many hops as there are tokens that it can
    leave**: it leaves each of them at most once. -/
theorem exists_found {rows : Finset Token}
    (hrows : ∀ u v, ReflTransGen (Sends hop) t u → Sends hop u v → u ∈ rows)
    (h : ¬ Circles hop t) : ∃ found, search hop rows.card t = some found := by
  induction hn : rows.card generalizing rows t with
  | zero =>
      cases ht : hop t with
      | ended found => exact ⟨found, search_ended ht 0⟩
      | onward u complete =>
          have hmem := hrows t u .refl ⟨complete, ht⟩
          rw [Finset.card_eq_zero.mp hn] at hmem
          cases hmem
  | succ n ih =>
      cases ht : hop t with
      | ended found => exact ⟨found, search_ended ht _⟩
      | onward u complete =>
          have htu : Sends hop t u := ⟨complete, ht⟩
          have hmem := hrows t u .refl htu
          have hu : ¬ Circles hop u := fun ⟨v, huv, hv⟩ => h ⟨v, .head htu huv, hv⟩
          -- the search does not come back, so the rows ahead of it are without this one
          have hahead : ∀ v w, ReflTransGen (Sends hop) u v → Sends hop v w → v ∈ rows.erase t := by
            intro v w huv hvw
            refine Finset.mem_erase.mpr ⟨?_, hrows v w (.head htu huv) hvw⟩
            rintro rfl
            exact h ⟨v, .refl, .head' htu huv⟩
          have hcard : (rows.erase t).card = n := by
            rw [Finset.card_erase_of_mem hmem, hn]
            rfl
          obtain ⟨found, hfound⟩ := ih hahead hu hcard
          refine ⟨found.map complete, ?_⟩
          rw [Hop.search_succ ht, hfound]
          rfl

/-- **A search ends unless it runs into a circle**, and then its outcome is there after as many hops
    as there are rows to leave. -/
theorem ends_iff {rows : List Token} (hrows : ∀ u v, Sends hop u v → u ∈ rows) :
    Ends hop t ↔ ¬ Circles hop t := by
  constructor
  · rintro ⟨hops, found, hfound⟩ hc
    rw [search_of_circles hc] at hfound
    cases hfound
  · intro h
    obtain ⟨found, hfound⟩ := exists_found
      (fun u v _ huv => List.mem_toFinset.mpr (hrows u v huv)) h
    exact ⟨_, found, hfound⟩

theorem search_of_ends {rows : List Token} (hrows : ∀ u v, Sends hop u v → u ∈ rows) {hops : Nat}
    {found : Option α} (h : search hop hops t = some found) :
    search hop rows.length t = some found := by
  have hc : ¬ Circles hop t := (ends_iff hrows).mp ⟨hops, found, h⟩
  obtain ⟨found', hfound'⟩ := exists_found
    (fun u v _ huv => List.mem_toFinset.mpr (hrows u v huv)) hc
  have hlen := search_mono (List.toFinset_card_le rows) hfound'
  -- both outcomes are still there after the larger number of hops
  have h₁ := search_mono (Nat.le_max_left hops rows.length) h
  have h₂ := search_mono (Nat.le_max_right hops rows.length) hlen
  rw [hlen, ← h₂, h₁]

/-- After as many hops as there are rows to leave the outcome is there, if the search ends. -/
theorem isSome_search_iff {rows : List Token} (hrows : ∀ u v, Sends hop u v → u ∈ rows) :
    (search hop rows.length t).isSome = true ↔ Ends hop t := by
  rw [Option.isSome_iff_exists]
  constructor
  · rintro ⟨found, h⟩
    exact ⟨_, found, h⟩
  · rintro ⟨hops, found, h⟩
    exact ⟨found, search_of_ends hrows h⟩

/-- What is found is then the outcome. -/
theorem search_eq_some_join {rows : List Token} (hrows : ∀ u v, Sends hop u v → u ∈ rows)
    (h : Ends hop t) : search hop rows.length t = some (search hop rows.length t).join := by
  obtain ⟨found, hfound⟩ := Option.isSome_iff_exists.mp ((isSome_search_iff hrows).mpr h)
  rw [hfound]
  rfl

/-- **Nothing is found** by a search that ends without a definition, and by one that runs into a
    circle. -/
theorem join_search_eq_none_iff {rows : List Token} (hrows : ∀ u v, Sends hop u v → u ∈ rows) :
    (search hop rows.length t).join = none ↔
      search hop rows.length t = some none ∨ Circles hop t := by
  have hends : search hop rows.length t = none ↔ Circles hop t := by
    rw [← Option.not_isSome_iff_eq_none, isSome_search_iff hrows, ends_iff hrows, Classical.not_not]
  rw [← hends]
  cases search hop rows.length t with
  | none => simp
  | some found => cases found <;> simp

/-- A search runs into no circle if some number goes down from each token that it leaves to the
    next one. -/
theorem not_circles_of_lt (size : Token → Nat)
    (hsize : ∀ t u v, Sends hop t u → Sends hop u v → size u < size t) : ¬ Circles hop t := by
  have hdown : ∀ {a b : Token}, TransGen (Sends hop) a b → ∀ c, Sends hop b c → size b < size a := by
    intro a b hab
    induction hab with
    | single hab => exact fun c hbc => hsize _ _ c hab hbc
    | tail _ hbc ih => exact fun d hcd => (hsize _ _ d hbc hcd).trans (ih _ hbc)
  rintro ⟨u, _, hu⟩
  obtain ⟨v, huv, _⟩ := exists_sends_of_round hu
  exact Nat.lt_irrefl _ (hdown hu v huv)

end Hop

/-! ## 2. Histories -/

namespace Store

variable {s s' : Store}

/-- A declaration that names no row of the table it adds to, or one with a smaller number. -/
def Earlier (s : Store) : Declaration → Prop
  | .typeSpec sig => ∀ u, sig.definition? = some u → u.isIn .typeSpec = true →
      u.row < (s.nextToken .typeSpec).row
  | .methodSpec method _ => method.isIn .methodSpec = true →
      method.row < (s.nextToken .methodSpec).row
  | _ => True

/-- **Specifications and method instances name only rows of their own tables that were there
    before**, from a store on. -/
def Backward (s : Store) : List Declaration → Prop
  | [] => True
  | d :: ds => s.Earlier d ∧ (s.add d).Backward ds

/-- What a backward history leaves in the tables. -/
structure Layered (s : Store) : Prop where
  types : ∀ t sig, s.typeSpecs.get? t = some sig → ∀ u, sig.definition? = some u →
    u.isIn .typeSpec = true → u.row < t.row
  methods : ∀ t spec, s.methodSpecs.get? t = some spec → spec.method.isIn .methodSpec = true →
    spec.method.row < t.row

theorem Layered.of_specs (h : s.Layered) (ht : s'.typeSpecs = s.typeSpecs)
    (hm : s'.methodSpecs = s.methodSpecs) : s'.Layered := by
  constructor
  · rw [ht]
    exact h.types
  · rw [hm]
    exact h.methods

/-- A declaration that names earlier rows keeps the layers. -/
theorem Layered.add (h : s.Layered) {d : Declaration} (hd : s.Earlier d) : (s.add d).Layered := by
  cases d with
  | typeSpec sig =>
      refine ⟨fun t sig' hget => ?_, h.methods⟩
      by_cases ht : t = s.nextToken .typeSpec
      · subst ht
        obtain rfl := Option.some.inj ((Assoc.get?_insert_self _ _ _).symm.trans hget)
        exact hd
      · exact h.types t sig' ((Assoc.get?_insert_of_ne _ _ ht).symm.trans hget)
  | methodSpec method methodArgs =>
      refine ⟨h.types, fun t spec hget => ?_⟩
      by_cases ht : t = s.nextToken .methodSpec
      · subst ht
        obtain rfl := Option.some.inj ((Assoc.get?_insert_self _ _ _).symm.trans hget)
        exact hd
      · exact h.methods t spec ((Assoc.get?_insert_of_ne _ _ ht).symm.trans hget)
  | generics owner params => cases owner <;> exact h.of_specs rfl rfl
  | _ => exact h.of_specs rfl rfl

theorem Layered.foldl (h : s.Layered) {ds : List Declaration} (hds : s.Backward ds) :
    (ds.foldl Store.add s).Layered := by
  induction ds generalizing s with
  | nil => exact h
  | cons d ds ih => exact ih (h.add hds.1) hds.2

theorem layered_ofList {ds : List Declaration} (h : Backward {} ds) : (ofList ds).Layered := by
  have hempty : ({} : Store).Layered :=
    ⟨fun _ _ hget => (nomatch hget), fun _ _ hget => (nomatch hget)⟩
  exact hempty.foldl h

/-! ## 3. The two searches -/

theorem mem_typeSpecs_of_sends (t u : Token) (h : Hop.Sends s.typeHop t u) :
    t ∈ s.typeSpecs.map Prod.fst := by
  obtain ⟨complete, h⟩ := h
  obtain ⟨_, _, sig, hsig, _⟩ := typeHop_onward h
  exact List.mem_map_of_mem (Assoc.mem_of_get? hsig)

theorem mem_methodSpecs_of_sends (t u : Token) (h : Hop.Sends s.methodHop t u) :
    t ∈ s.methodSpecs.map Prod.fst := by
  obtain ⟨complete, h⟩ := h
  obtain ⟨_, spec, hspec, _⟩ := methodHop_onward h
  exact List.mem_map_of_mem (Assoc.mem_of_get? hspec)

/-- The outcome of a search for a type, however many hops it takes, is the one that is given. -/
theorem typeSearch?_of_search {hops : Nat} {t : Token} {found : Option TypeDef}
    (h : Hop.search s.typeHop hops t = some found) : s.typeSearch? t = some found := by
  have hall := Hop.search_of_ends mem_typeSpecs_of_sends h
  rw [List.length_map] at hall
  exact hall

theorem methodSearch?_of_search {hops : Nat} {t : Token} {found : Option MethodRef}
    (h : Hop.search s.methodHop hops t = some found) : s.methodSearch? t = some found := by
  have hall := Hop.search_of_ends mem_methodSpecs_of_sends h
  rw [List.length_map] at hall
  exact hall

theorem typeSearch?_isSome_iff {t : Token} :
    (s.typeSearch? t).isSome = true ↔ Hop.Ends s.typeHop t := by
  have hall := Hop.isSome_search_iff (t := t) (mem_typeSpecs_of_sends (s := s))
  rwa [List.length_map] at hall

theorem methodSearch?_isSome_iff {t : Token} :
    (s.methodSearch? t).isSome = true ↔ Hop.Ends s.methodHop t := by
  have hall := Hop.isSome_search_iff (t := t) (mem_methodSpecs_of_sends (s := s))
  rwa [List.length_map] at hall

/-- **What is found is the outcome of the search**, where the search ends. -/
theorem typeSearch?_of_ends {t : Token} (h : Hop.Ends s.typeHop t) :
    s.typeSearch? t = some (s.type? t) := by
  have hall := Hop.search_eq_some_join (mem_typeSpecs_of_sends (s := s)) h
  rwa [List.length_map] at hall

theorem methodSearch?_of_ends {t : Token} (h : Hop.Ends s.methodHop t) :
    s.methodSearch? t = some (s.method? t) := by
  have hall := Hop.search_eq_some_join (mem_methodSpecs_of_sends (s := s)) h
  rwa [List.length_map] at hall

/-- **What it means that no type is found**: the search ends without one, or it runs into a circle. -/
theorem type?_eq_none_iff {t : Token} :
    s.type? t = none ↔ s.typeSearch? t = some none ∨ Hop.Circles s.typeHop t := by
  have hall := Hop.join_search_eq_none_iff (t := t) (mem_typeSpecs_of_sends (s := s))
  rwa [List.length_map] at hall

/-- **What it means that no method is found.** -/
theorem method?_eq_none_iff {t : Token} :
    s.method? t = none ↔ s.methodSearch? t = some none ∨ Hop.Circles s.methodHop t := by
  have hall := Hop.join_search_eq_none_iff (t := t) (mem_methodSpecs_of_sends (s := s))
  rwa [List.length_map] at hall

theorem Layered.types_end (h : s.Layered) (t : Token) : Hop.Ends s.typeHop t := by
  refine (Hop.ends_iff mem_typeSpecs_of_sends).mpr (Hop.not_circles_of_lt Token.row ?_)
  rintro t u v ⟨_, htu⟩ ⟨_, huv⟩
  obtain ⟨_, _, sig, hsig, hu⟩ := typeHop_onward htu
  exact h.types t sig hsig u hu (typeHop_onward huv).1

theorem Layered.methods_end (h : s.Layered) (t : Token) : Hop.Ends s.methodHop t := by
  refine (Hop.ends_iff mem_methodSpecs_of_sends).mpr (Hop.not_circles_of_lt Token.row ?_)
  rintro t u v ⟨_, htu⟩ ⟨_, huv⟩
  obtain ⟨_, spec, hspec, rfl, _⟩ := methodHop_onward htu
  exact h.methods t spec hspec (methodHop_onward huv).1

/-- **Which searches end.**  In every store that is built from declarations the search for the
    definition of a token ends exactly if it runs into no circle of specifications, and the
    outcome, however many hops it takes, is the one that is given within as many hops as there
    are specifications.  After a history in which specifications name earlier ones only, every
    search ends. -/
theorem searches_end_iff (ds : List Declaration) (t : Token) :
    (Hop.Ends (ofList ds).typeHop t ↔ ¬ Hop.Circles (ofList ds).typeHop t) ∧
    (Hop.Ends (ofList ds).methodHop t ↔ ¬ Hop.Circles (ofList ds).methodHop t) ∧
    (∀ hops found, Hop.search (ofList ds).typeHop hops t = some found →
      (ofList ds).typeSearch? t = some found ∧ (ofList ds).type? t = found) ∧
    (∀ hops found, Hop.search (ofList ds).methodHop hops t = some found →
      (ofList ds).methodSearch? t = some found ∧ (ofList ds).method? t = found) ∧
    (Backward {} ds → Hop.Ends (ofList ds).typeHop t ∧ Hop.Ends (ofList ds).methodHop t) := by
  refine ⟨Hop.ends_iff mem_typeSpecs_of_sends, Hop.ends_iff mem_methodSpecs_of_sends, ?_, ?_, ?_⟩
  · intro hops found h
    have hgiven := typeSearch?_of_search h
    exact ⟨hgiven, congrArg Option.join hgiven⟩
  · intro hops found h
    have hgiven := methodSearch?_of_search h
    exact ⟨hgiven, congrArg Option.join hgiven⟩
  · intro h
    exact ⟨(layered_ofList h).types_end t, (layered_ofList h).methods_end t⟩

/-- A class under two specifications in a row, and a method with two instances in a row. -/
def nestedSpecs : List Declaration :=
  [.type "app" "N" "C" 1 none, .method ⟨0x02000001⟩ "M" 0x16 ⟨false, false, 0, .prim .void, []⟩,
    .typeSpec (.classType ⟨0x02000001⟩), .typeSpec (.inst ⟨0x1B000001⟩ false []),
    .methodSpec ⟨0x06000001⟩ [], .methodSpec ⟨0x2B000001⟩ []]

/-- They are found. -/
theorem nestedSpecs_end : Backward {} nestedSpecs ∧
    Hop.Ends (ofList nestedSpecs).typeHop ⟨0x1B000002⟩ ∧
    Hop.Ends (ofList nestedSpecs).methodHop ⟨0x2B000002⟩ := by
  have hback : Backward {} nestedSpecs := by
    refine ⟨trivial, trivial, ?_, ?_, ?_, ?_, trivial⟩
    · rintro u ⟨⟩ hin
      exact absurd hin (by decide)
    · rintro u ⟨⟩ _
      decide +kernel
    · intro hin
      exact absurd hin (by decide)
    · intro _
      decide +kernel
  exact ⟨hback, ((searches_end_iff nestedSpecs _).2.2.2.2 hback).1,
    ((searches_end_iff nestedSpecs _).2.2.2.2 hback).2⟩

/-- **A specification that names itself, and a method instance of itself, are searched for ever.** -/
theorem own_spec_never_ends :
    (∀ hops, Hop.search (ofList [.typeSpec (.classType ⟨0x1B000001⟩)]).typeHop hops ⟨0x1B000001⟩ = none) ∧
    ∀ hops, Hop.search (ofList [.methodSpec ⟨0x2B000001⟩ []]).methodHop hops ⟨0x2B000001⟩ = none := by
  constructor
  · exact Hop.search_of_round (.single ⟨_, rfl⟩)
  · exact Hop.search_of_round (.single ⟨_, rfl⟩)

end Store

end ReflectionFlow

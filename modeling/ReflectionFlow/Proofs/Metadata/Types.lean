/-
  File:      ReflectionFlow/Proofs/Metadata/Types.lean
  Subject:   Types stand under their own tokens.

  A declaration gives a type the next token of the type table and files it there.  Later
  declarations add members, interfaces and nested types to it, but change neither its token nor its
  place, and a nested type is listed by the token it stands under.  So whichever way a type is
  found, asking for its token finds it again.

  * `Store.TypesTabled`             every type stands under its own token
  * `Store.typesTabled_ofList`      as it is in every store that is built from declarations
  * `Store.DefinesType`             a type that the store holds under its own token
  * `Store.TypesTabled.defines`, `Store.TypesTabled.named`   as every type that is found
-/
import ReflectionFlow.Proofs.Metadata.Tables
import ReflectionFlow.Proofs.Order.Sorted
import ReflectionFlow.Session.Memo

namespace ReflectionFlow

namespace Store

/-! ## 1. Every declaration keeps the table -/

/-- What is said of a type and the token under which it stands. -/
structure TypeAt (t : Token) (d : TypeDef) : Prop where
  token : d.token = t
  table : t.isIn .typeDef = true
  nested : ∀ n ∈ d.nested, n.isIn .typeDef = true

/-- **Every type stands under its own token**, which is one of the type table, and so are the tokens
    of its nested types. -/
def TypesTabled (s : Store) : Prop := ∀ t d, s.types.get? t = some d → TypeAt t d

/-- **A type that the store holds under its own token.** -/
def DefinesType (s : Store) (d : TypeDef) : Prop := s.types.get? d.token = some d

variable {s s' : Store}

theorem TypesTabled.of_types (h : s.TypesTabled) (he : s'.types = s.types) : s'.TypesTabled := by
  intro t d hd
  rw [he] at hd
  exact h t d hd

theorem TypesTabled.insert (h : s.TypesTabled) {t : Token} {d : TypeDef} (hd : TypeAt t d)
    (he : s'.types = s.types.insert t d) : s'.TypesTabled := by
  intro u e hu
  rw [he] at hu
  by_cases hut : u = t
  · subst hut
    rw [Assoc.get?_insert_self] at hu
    exact Option.some.inj hu ▸ hd
  · rw [Assoc.get?_insert_of_ne _ _ hut] at hu
    exact h u e hu

theorem TypesTabled.modifyType (h : s.TypesTabled) (t : Token) {f : TypeDef → TypeDef}
    (hf : ∀ d, TypeAt t d → TypeAt t (f d)) : (s.modifyType t f).TypesTabled := by
  cases hd : s.types.get? t with
  | none =>
      refine h.of_types ?_
      simp only [Store.modifyType, Assoc.modify, hd]
  | some d =>
      refine h.insert (hf d (h t d hd)) ?_
      simp only [Store.modifyType, Assoc.modify, hd]

/-- A change that keeps the token of a type and its list of nested types. -/
theorem TypesTabled.extend (h : s.TypesTabled) (t : Token) {f : TypeDef → TypeDef}
    (hf : ∀ d, (f d).token = d.token ∧ (f d).nested = d.nested) : (s.modifyType t f).TypesTabled := by
  refine h.modifyType t fun d hd => ⟨(hf d).1.trans hd.token, hd.table, ?_⟩
  rw [(hf d).2]
  exact hd.nested

/-- A new type has no nested types yet. -/
theorem TypesTabled.putType (h : s.TypesTabled) {d : TypeDef} (ht : d.token.isIn .typeDef = true)
    (hn : d.nested = []) : (s.putType d).TypesTabled := by
  refine h.insert (t := d.token) (d := d) ⟨rfl, ht, ?_⟩ rfl
  rw [hn]
  exact nofun

/-- A declaration keeps types under their tokens. -/
theorem TypesTabled.add (h : s.TypesTabled) (d : Declaration) : (s.add d).TypesTabled := by
  have hnext := isIn_nextToken s .typeDef
  cases d with
  | type assembly space name flags base => exact h.putType hnext rfl
  | nestedType enclosing name flags base =>
      refine (h.putType hnext rfl).modifyType enclosing fun d hd => ⟨hd.token, hd.table, ?_⟩
      intro n hn
      rcases List.mem_append.mp hn with hn | hn
      · exact hd.nested n hn
      · exact List.mem_singleton.mp hn ▸ hnext
  | method declaring name flags sig =>
      exact TypesTabled.extend (h.of_types rfl) declaring fun _ => ⟨rfl, rfl⟩
  | field declaring name flags sig =>
      exact TypesTabled.extend (h.of_types rfl) declaring fun _ => ⟨rfl, rfl⟩
  | property declaring name getter setter =>
      exact TypesTabled.extend (h.of_types rfl) declaring fun _ => ⟨rfl, rfl⟩
  | event declaring name adder remover raiser =>
      exact TypesTabled.extend (h.of_types rfl) declaring fun _ => ⟨rfl, rfl⟩
  | interfaceOf type interface => exact h.extend type fun _ => ⟨rfl, rfl⟩
  | generics owner params =>
      cases owner with
      | type t => exact h.extend t fun _ => ⟨rfl, rfl⟩
      | method t => exact h.of_types rfl
  | _ => exact h.of_types rfl

/-- **In every store that is built from declarations types stand under their tokens.** -/
theorem typesTabled_ofList (ds : List Declaration) : (ofList ds).TypesTabled :=
  List.foldlRecOn (motive := TypesTabled) ds _ (fun _ _ h => by cases h) fun _ h d _ => h.add d

/-! ## 2. Finding types -/

theorem TypesTabled.defines_of_get? (h : s.TypesTabled) {t : Token} {d : TypeDef}
    (hd : s.types.get? t = some d) : s.DefinesType d := by
  unfold DefinesType
  rw [(h t d hd).token]
  exact hd

/-- Where the search for a type is over, it has found a row of the type table. -/
theorem typeHop_ended {t : Token} {d : TypeDef} (hd : s.typeHop t = .ended (some d)) :
    ∃ u, s.types.get? u = some d := by
  unfold typeHop at hd
  split at hd
  · exact ⟨t, Hop.ended.inj hd⟩
  · split at hd
    · obtain ⟨u, _, hu⟩ := Option.bind_eq_some_iff.mp (Hop.ended.inj hd)
      exact ⟨u, hu⟩
    · split at hd
      · split at hd <;> cases hd
      · cases hd

/-- Where it goes on, the token is a specification of the table, and what is found is the
    definition. -/
theorem typeHop_onward {t u : Token} {complete : TypeDef → TypeDef}
    (h : s.typeHop t = .onward u complete) : t.isIn .typeSpec = true ∧ complete = id ∧
      ∃ sig, s.typeSpecs.get? t = some sig ∧ sig.definition? = some u := by
  unfold typeHop at h
  split at h
  · cases h
  · split at h
    · cases h
    · split at h
      case isTrue hin =>
        split at h
        case h_1 u hu =>
          cases h
          exact ⟨hin, rfl, Option.bind_eq_some_iff.mp hu⟩
        case h_2 => cases h
      case isFalse => cases h

/-- **What a token leads to is found under its own token.** -/
theorem TypesTabled.defines (h : s.TypesTabled) {t : Token} {d : TypeDef}
    (hd : s.type? t = some d) : s.DefinesType d := by
  refine Hop.search_keeps (P := s.DefinesType) ?_ ?_ (Option.join_eq_some_iff.mp hd)
  · intro t d hd
    obtain ⟨u, hu⟩ := typeHop_ended hd
    exact h.defines_of_get? hu
  · intro t u complete hu d hd
    obtain ⟨_, rfl, _⟩ := typeHop_onward hu
    exact hd

/-- So is what a name leads to. -/
theorem TypesTabled.named (h : s.TypesTabled) {assembly : Option String} {name : String}
    {d : TypeDef} (hd : s.typeCalled? assembly name = some d) : s.DefinesType d := by
  unfold typeCalled? at hd
  cases assembly with
  | none =>
      obtain ⟨t, _, hd⟩ := Option.bind_eq_some_iff.mp hd
      exact h.defines_of_get? hd
  | some a =>
      obtain ⟨t, _, hd⟩ := Option.bind_eq_some_iff.mp hd
      exact h.defines_of_get? hd

theorem type?_of_isIn {t : Token} (ht : t.isIn .typeDef = true) : s.type? t = s.types.get? t := by
  have hhop : s.typeHop t = .ended (s.types.get? t) := if_pos ht
  unfold type? typeSearch?
  rw [Hop.search_ended hhop]
  rfl

/-- The token of a type that is defined leads to it. -/
theorem TypesTabled.type?_token (h : s.TypesTabled) {d : TypeDef} (hd : s.DefinesType d) :
    s.type? d.token = some d := (type?_of_isIn (h _ _ hd).table).trans hd

/-- A nested type is listed by the token it stands under. -/
theorem TypesTabled.token_of_nested (h : s.TypesTabled) {d n : TypeDef} (hd : s.DefinesType d)
    {t : Token} (ht : t ∈ d.nested) (hn : s.type? t = some n) : n.token = t := by
  have hin := (h _ _ hd).nested t ht
  exact (h t n ((type?_of_isIn hin).symm.trans hn)).token

/-- Types of one token are one type. -/
theorem DefinesType.eq_of_token {d e : TypeDef} (hd : s.DefinesType d) (he : s.DefinesType e)
    (h : d.token = e.token) : d = e := by
  unfold DefinesType at hd he
  rw [h] at hd
  exact Option.some.inj (hd.symm.trans he)

end Store

end ReflectionFlow

/-
  File:      ReflectionFlow/Proofs/Metadata/Coherence.lean
  Subject:   Tokens, lists of members and names agree in every store.

  A store keeps the same facts in several places: a member names its type and the type lists the
  member, a type has a name and the name leads to the type.  The tables are changed one by one, also
  for types that are not defined or were changed since.  Still they agree after any declarations, as
  long as no table is full: then every token that is handed out is a new one, so what is filed under
  it replaces nothing.

  * `Store.given`                 the tokens that are handed out, in order
  * `Store.Coheres`               what one declaration keeps
  * `Store.Coheres.add`           and that it does
  * `Store.coheres_ofList`        so it holds after any of them
  * `Store.Coherent`, `Store.coherent_ofList`
-/
import Mathlib.Data.List.Find
import Mathlib.Data.List.Induction
import ReflectionFlow.Proofs.Metadata.Growth

namespace ReflectionFlow

/-! ## 1. Tokens that are handed out -/

theorem Table.id_inj {a b : Table} (h : a.id = b.id) : a = b := by
  cases a <;> cases b <;> first | rfl | cases h

theorem Table.id_lt (table : Table) : table.id < 0x100 := by cases table <;> decide

namespace Store

/-- The tokens that declarations hand out, in order. -/
def given (s : Store) : List Declaration → List Token
  | [] => []
  | d :: ds => (s.declare d).2.toList ++ (s.declare d).1.given ds

theorem given_concat (s : Store) (ds : List Declaration) (d : Declaration) :
    s.given (ds ++ [d]) = s.given ds ++ ((ds.foldl add s).declare d).2.toList := by
  induction ds generalizing s with
  | nil => simp [given]
  | cons e ds ih => simp [given, ih, declare]

/-- The rows of a table that are taken. -/
def rowCount (s : Store) (table : Table) : Nat := (s.rows.get? table.id).getD 0

theorem rows_add (s : Store) (d : Declaration) :
    (s.add d).rows = d.table?.elim s.rows fun table =>
      s.rows.insert table.id (s.rowCount table + 1) := by
  cases d with
  | generics owner params => cases owner <;> rfl
  | _ => rfl

/-- A declaration takes one row of its table. -/
theorem rowCount_add (s : Store) (d : Declaration) (table : Table) :
    (s.add d).rowCount table = s.rowCount table + if d.table? = some table then 1 else 0 := by
  rw [rowCount, rows_add]
  cases hd : d.table? with
  | none => simp [rowCount]
  | some other =>
      rw [Option.elim_some, Assoc.get?_insert]
      by_cases h : table = other
      · simp [h, rowCount]
      · have hid : table.id ≠ other.id := fun heq => h (Table.id_inj heq)
        simp [hid, Ne.symm h, rowCount]

/-- The declarations that take a row of a table. -/
def taken (ds : List Declaration) (table : Table) : Nat := ds.countP fun d => d.table? = some table

theorem rowCount_ofList (ds : List Declaration) (table : Table) :
    (ofList ds).rowCount table = taken ds table := by
  induction ds using List.reverseRecOn with
  | nil => rfl
  | append_singleton ds d ih =>
      rw [ofList, List.foldl_concat, rowCount_add, taken, List.countP_append, List.countP_singleton]
      rw [← ofList, ih]
      simp [taken]

theorem table_of_isIn_nextToken {s : Store} {table other : Table}
    (h : (s.nextToken table).isIn other = true) : table = other := by
  unfold Token.isIn nextToken at h
  rw [Token.table_ofParts (Table.id_lt table), beq_iff_eq] at h
  exact Table.id_inj h

/-- A token of a row that is taken. -/
def Issued (s : Store) (t : Token) : Prop :=
  ∃ table row, 1 ≤ row ∧ row ≤ s.rowCount table ∧ t = Token.ofParts table.id row

/-- **The next token is none of those before it**, as long as its table is not full. -/
theorem nextToken_fresh {s : Store} {table : Table} (hroom : s.rowCount table + 1 < 0x1000000) :
    ¬ s.Issued (s.nextToken table) := by
  rintro ⟨other, row, _, hrow, heq⟩
  have htable := congrArg Token.table heq
  rw [nextToken, Token.table_ofParts (Table.id_lt _), Token.table_ofParts (Table.id_lt _)] at htable
  obtain rfl := Table.id_inj htable
  have hrows := congrArg Token.row heq
  rw [nextToken, Token.row_ofParts, Token.row_ofParts] at hrows
  unfold rowCount at hroom hrow
  omega

theorem Issued.add {s : Store} {t : Token} (h : s.Issued t) (d : Declaration) :
    (s.add d).Issued t := by
  obtain ⟨table, row, hone, hrow, rfl⟩ := h
  refine ⟨table, row, hone, ?_, rfl⟩
  rw [rowCount_add]
  omega

theorem issued_next {s : Store} {d : Declaration} {table : Table} (h : d.table? = some table) :
    (s.add d).Issued (s.nextToken table) := by
  refine ⟨table, s.rowCount table + 1, by omega, ?_, rfl⟩
  rw [rowCount_add, if_pos h]

/-! ## 2. What declarations keep -/

/-- The first of some tokens under which stands a type that is called so. -/
def firstCalled {κ : Type} [DecidableEq κ] (s : Store) (key : TypeDef → κ) (given : List Token)
    (k : κ) : Option Token :=
  given.find? fun t => (s.types.get? t).any fun d => decide (key d = k)

/-- **What the tables of a store have to do with the tokens that were handed out.** -/
structure Coheres (s : Store) (given : List Token) : Prop where
  issued : ∀ t ∈ given, s.Issued t
  distinct : given.Nodup
  entered : ∀ k m, (MemberSort.entry? k s m).isSome = true → m ∈ given
  defined : ∀ t ∈ given, t.isIn .typeDef = true → (s.types.get? t).isSome = true
  listed : ∀ k t e, s.types.get? t = some e → (MemberSort.list k e).Nodup ∧
    ∀ m ∈ k.list e, m.isIn k.table = true ∧ k.entry? s m = some (m, some t)
  names : ∀ name, s.names.get? name = s.firstCalled TypeDef.fullName given name
  assemblyNames : ∀ name,
    s.assemblyNames.get? name = s.firstCalled (fun d => (d.assembly, d.fullName)) given name

variable {s : Store} {given : List Token} {d : Declaration}

theorem coheres_empty : Coheres {} [] := by
  constructor
  case issued => exact fun _ h => absurd h List.not_mem_nil
  case distinct => exact List.nodup_nil
  case entered =>
      intro k m h
      cases k <;> cases h
  case defined => exact fun _ h => absurd h List.not_mem_nil
  case listed =>
      intro k t e h
      cases h
  case names => exact fun _ => rfl
  case assemblyNames => exact fun _ => rfl

namespace Coheres

/-- The table of a declaration is not full. -/
def Room (s : Store) (d : Declaration) : Prop :=
  ∀ table, d.table? = some table → s.rowCount table + 1 < 0x1000000

/-- The tokens after one more declaration. -/
def extended (s : Store) (given : List Token) (d : Declaration) : List Token :=
  given ++ (s.declare d).2.toList

theorem mem_extended {t : Token} : t ∈ extended s given d ↔
    t ∈ given ∨ ∃ table, d.table? = some table ∧ t = s.nextToken table := by
  rw [extended, List.mem_append, Option.mem_toList, declare, Option.map_eq_some_iff]
  simp only [eq_comm (a := t)]

variable (h : s.Coheres given)

include h

theorem fresh (hroom : Room s d) {table : Table} (hd : d.table? = some table) :
    s.nextToken table ∉ given :=
  fun hmem => nextToken_fresh (hroom table hd) (h.issued _ hmem)

theorem entry?_fresh (hroom : Room s d) {k : MemberSort} (hd : d.table? = some k.table) :
    k.entry? s (s.nextToken k.table) = none := by
  by_contra hsome
  exact h.fresh hroom hd (h.entered k _ (Option.isSome_iff_ne_none.mpr hsome))

theorem distinct_add (hroom : Room s d) : (extended s given d).Nodup := by
  unfold extended declare
  cases hd : d.table? with
  | none => simpa using h.distinct
  | some table =>
      refine List.nodup_append.mpr ⟨h.distinct, by simp, ?_⟩
      intro t ht u hu heq
      rw [List.mem_singleton.mp hu] at heq
      exact h.fresh hroom hd (heq ▸ ht)

theorem issued_add : ∀ t ∈ extended s given d, (s.add d).Issued t := by
  intro t ht
  rcases mem_extended.mp ht with ht | ⟨table, hd, rfl⟩
  · exact (h.issued t ht).add d
  · exact issued_next hd

theorem entered_add (k : MemberSort) (m : Token) (hm : (k.entry? (s.add d) m).isSome = true) :
    m ∈ extended s given d := by
  rw [mem_extended]
  by_cases hnew : d.table? = some k.table ∧ m = s.nextToken k.table
  · exact Or.inr ⟨k.table, hnew⟩
  · rw [entry?_add_of_ne fun hd heq => hnew ⟨hd, heq⟩] at hm
    exact Or.inl (h.entered k m hm)

theorem defined_add : ∀ t ∈ extended s given d, t.isIn .typeDef = true →
    ((s.add d).types.get? t).isSome = true := by
  intro t ht hin
  have hnew : d.table? = some .typeDef →
      ((s.add d).types.get? (s.nextToken .typeDef)).isSome = true := by
    intro hd
    obtain ⟨n, hn, _⟩ := naming_add_new (s := s) hd
    rw [← Option.isSome_map (f := naming), hn]
    rfl
  rcases mem_extended.mp ht with ht | ⟨table, hd, rfl⟩
  · by_cases heq : d.table? = some .typeDef ∧ t = s.nextToken .typeDef
    · exact heq.2 ▸ hnew heq.1
    · rw [← Option.isSome_map (f := naming), naming_add_of_ne fun hd ht => heq ⟨hd, ht⟩,
        Option.isSome_map]
      exact h.defined t ht hin
  · obtain rfl := table_of_isIn_nextToken hin
    exact hnew hd

/-- **Lists stay without repetition, and whatever they list still belongs to their type.** -/
theorem listed_add (hroom : Room s d) (k : MemberSort) (t : Token) (e : TypeDef)
    (he : (s.add d).types.get? t = some e) : (k.list e).Nodup ∧
      ∀ m ∈ k.list e, m.isIn k.table = true ∧ k.entry? (s.add d) m = some (m, some t) := by
  obtain ⟨l, hl, hlist⟩ := list_add k he
  have hold : l.Nodup ∧ ∀ m ∈ l, m.isIn k.table = true ∧ k.entry? s m = some (m, some t) := by
    rcases hl with rfl | ⟨e₀, he₀, rfl⟩
    · exact ⟨List.nodup_nil, fun _ hm => absurd hm List.not_mem_nil⟩
    · exact h.listed k t e₀ he₀
  -- a token with an entry is none that is handed out now
  have hkept : ∀ m ∈ l, m.isIn k.table = true ∧ k.entry? (s.add d) m = some (m, some t) := by
    intro m hm
    obtain ⟨hin, hentry⟩ := hold.2 m hm
    refine ⟨hin, (entry?_add_of_ne fun hd heq => ?_).trans hentry⟩
    rw [heq, h.entry?_fresh hroom hd] at hentry
    cases hentry
  rw [hlist, appended]
  split
  · next hd =>
    have htable := Declaration.table?_of_member hd
    have hnew : s.nextToken k.table ∉ l := by
      intro hmem
      have hentry := (hold.2 _ hmem).2
      rw [h.entry?_fresh hroom htable] at hentry
      cases hentry
    refine ⟨List.nodup_append.mpr ⟨hold.1, by simp, ?_⟩, ?_⟩
    · intro m hm u hu heq
      rw [List.mem_singleton.mp hu] at heq
      exact hnew (heq ▸ hm)
    · intro m hm
      rcases List.mem_append.mp hm with hm | hm
      · exact hkept m hm
      · obtain rfl := List.mem_singleton.mp hm
        exact ⟨isIn_nextToken s k.table, entry?_add_member hd⟩
  · rw [List.append_nil]
    exact ⟨hold.1, hkept⟩

omit h in
theorem any_naming {κ : Type} [DecidableEq κ] {key : TypeDef → κ}
    {read : Token × String × String × Option Token → κ} (hkey : ∀ d, key d = read (naming d))
    (found : Option TypeDef) (k : κ) : (found.any fun d => decide (key d = k)) =
      (found.map naming).any fun n => decide (read n = k) := by
  cases found with
  | none => rfl
  | some d => simp [hkey]

/-- **A name still leads to the first type that is called so.** -/
theorem firstCalled_add {κ : Type} [Ranked κ] [DecidableEq κ] {key : TypeDef → κ}
    (read : Token × String × String × Option Token → κ) (hkey : ∀ d, key d = read (naming d))
    {index index' : Assoc κ Token} (hroom : Room s d)
    (hindex : ∀ k, index.get? k = s.firstCalled key given k)
    (hsame : d.table? ≠ some .typeDef → index' = index)
    (hnew : d.table? = some .typeDef → ∃ n,
      ((s.add d).types.get? (s.nextToken .typeDef)).map naming = some (naming n) ∧
      index' = index.insertNew (key n) (s.nextToken .typeDef)) (k : κ) :
    index'.get? k = (s.add d).firstCalled key (extended s given d) k := by
  have hbefore : (s.add d).firstCalled key given k = index.get? k := by
    rw [hindex]
    refine List.find?_congr fun t ht => ?_
    rw [any_naming hkey, any_naming hkey, naming_add_of_ne fun hd heq => ?_]
    exact h.fresh hroom hd (heq ▸ ht)
  have hafter : (s.add d).firstCalled key (extended s given d) k =
      (index.get? k).or ((s.add d).firstCalled key (s.declare d).2.toList k) := by
    rw [firstCalled, extended, List.find?_append, ← hbefore]
    rfl
  rw [hafter]
  by_cases hd : d.table? = some .typeDef
  · obtain ⟨n, hn, rfl⟩ := hnew hd
    rw [Assoc.get?_insertNew]
    have hcalled : (((s.add d).types.get? (s.nextToken .typeDef)).any fun e => decide (key e = k)) =
        decide (key n = k) := by
      rw [any_naming hkey, hn, hkey]
      rfl
    simp only [declare, hd, Option.map_some, Option.toList_some, firstCalled, List.find?_singleton,
      hcalled]
    simp [eq_comm]
  · rw [hsame hd]
    -- no type stands under a token of another table
    have hnone : (s.add d).firstCalled key (s.declare d).2.toList k = none := by
      refine List.find?_eq_none.mpr fun t ht => ?_
      obtain ⟨table, htable, rfl⟩ := Option.map_eq_some_iff.mp (Option.mem_toList.mp ht)
      have hempty : s.types.get? (s.nextToken table) = none := by
        by_contra hsome
        refine h.fresh hroom htable (h.entered .nested _ ?_)
        rw [MemberSort.entry?, Option.isSome_map]
        exact Option.isSome_iff_ne_none.mpr hsome
      rw [any_naming hkey, naming_add_of_ne fun hd' => absurd hd' hd, hempty]
      simp
    rw [hnone, Option.or_none]

/-- **One declaration keeps the tables in agreement.** -/
theorem add (hroom : Room s d) : (s.add d).Coheres (extended s given d) := by
  constructor
  case issued => exact h.issued_add
  case distinct => exact h.distinct_add hroom
  case entered => exact h.entered_add
  case defined => exact h.defined_add
  case listed => exact h.listed_add hroom
  case names =>
      refine h.firstCalled_add (fun n => n.2.2.1) (fun _ => rfl) hroom h.names
        (fun hd => (names_add hd).1) fun hd => ?_
      obtain ⟨n, hn, htoken, _, hnames, _⟩ := naming_add_new (s := s) hd
      exact ⟨n, hn, htoken ▸ hnames⟩
  case assemblyNames =>
      refine h.firstCalled_add (fun n => (n.2.1, n.2.2.1)) (fun _ => rfl) hroom
        h.assemblyNames (fun hd => (names_add hd).2) fun hd => ?_
      obtain ⟨n, hn, htoken, _, _, hnames⟩ := naming_add_new (s := s) hd
      exact ⟨n, hn, htoken ▸ hnames⟩

end Coheres

/-- **The tables agree after any declarations that leave room in every table.** -/
theorem coheres_ofList {ds : List Declaration} (hroom : ∀ table, taken ds table < 0x1000000) :
    (ofList ds).Coheres (Store.given {} ds) := by
  induction ds using List.reverseRecOn with
  | nil => exact coheres_empty
  | append_singleton ds d ih =>
      have htaken : ∀ table, taken (ds ++ [d]) table =
          taken ds table + if d.table? = some table then 1 else 0 := by
        intro table
        simp [taken, List.countP_append, List.countP_singleton]
      have hbefore := ih fun table => by
        have := hroom table
        rw [htaken] at this
        omega
      have hnext : Coheres.Room (ofList ds) d := by
        intro table hd
        have := hroom table
        rw [htaken, if_pos hd] at this
        rwa [rowCount_ofList]
      have hadd := hbefore.add hnext
      rw [given_concat, ofList, List.foldl_concat]
      exact hadd

/-! ## 3. What is found -/

/-- **A store whose tables agree.**  The tokens that were handed out differ.  What a type lists, it
    lists once, and each token of a list leads to a member that carries it and belongs to the type.
    A name leads to the first of the added types that is called so, in an assembly or anywhere. -/
structure Coherent (s : Store) (given : List Token) : Prop where
  distinct : given.Nodup
  defined : ∀ t ∈ given, t.isIn .typeDef = true → ∃ d, s.type? t = some d ∧ d.token = t
  methods : ∀ t d, s.type? t = some d → d.methods.Nodup ∧ ∀ m ∈ d.methods,
    ∃ r, s.method? m = some r ∧ r.method.token = m ∧ r.method.declaring = d.token
  fields : ∀ t d, s.type? t = some d → d.fields.Nodup ∧ ∀ m ∈ d.fields,
    ∃ f, s.field? m = some f ∧ f.token = m ∧ f.declaring = d.token
  properties : ∀ t d, s.type? t = some d → d.properties.Nodup ∧ ∀ m ∈ d.properties,
    ∃ p, s.property? m = some p ∧ p.token = m ∧ p.declaring = d.token
  events : ∀ t d, s.type? t = some d → d.events.Nodup ∧ ∀ m ∈ d.events,
    ∃ e, s.event? m = some e ∧ e.token = m ∧ e.declaring = d.token
  nested : ∀ t d, s.type? t = some d → d.nested.Nodup ∧ ∀ m ∈ d.nested,
    ∃ n, s.type? m = some n ∧ n.token = m ∧ n.enclosing = some d.token
  named : ∀ name, s.typeNamed? name =
    (given.filterMap s.types.get?).find? fun d => d.fullName = name
  namedIn : ∀ assembly name, s.typeIn? assembly name =
    (given.filterMap s.types.get?).find? fun d => d.assembly = assembly ∧ d.fullName = name

theorem method?_of_isIn {t : Token} (ht : t.isIn .methodDef = true) :
    s.method? t = (s.methods.get? t).map fun m => { method := m } := by
  have hhop : s.methodHop t = .ended ((s.methods.get? t).map fun m => { method := m }) := if_pos ht
  unfold method? methodSearch?
  rw [Hop.search_ended hhop]
  rfl

/-- What stands under a token, by its token and its owner. -/
theorem exists_of_entry {α : Type} {found : Option α} {token : α → Token}
    {owner : α → Option Token} {m : Token} {o : Option Token}
    (h : (found.map fun e => (token e, owner e)) = some (m, o)) :
    ∃ e, found = some e ∧ token e = m ∧ owner e = o := by
  obtain ⟨e, he, hfound⟩ := Option.map_eq_some_iff.mp h
  obtain ⟨htoken, howner⟩ := Prod.mk.inj hfound
  exact ⟨e, he, htoken, howner⟩

/-- The type under the first token is the first type under a token. -/
theorem bind_firstCalled {κ : Type} [DecidableEq κ] (key : TypeDef → κ) (k : κ) :
    (s.firstCalled key given k).bind s.types.get? =
      (given.filterMap s.types.get?).find? fun d => decide (key d = k) := by
  rw [List.find?_filterMap]
  rfl

/-- **Tokens, lists of members and names agree in every store**, whatever was declared and in
    whatever order, if every table has had fewer additions than a token has rows. -/
theorem coherent_ofList (ds : List Declaration) (hroom : ∀ table, taken ds table < 0x1000000) :
    (ofList ds).Coherent (Store.given {} ds) := by
  have h := coheres_ofList hroom
  have htyped := typesTabled_ofList ds
  have hlisted : ∀ (k : MemberSort) t d, (ofList ds).type? t = some d → (k.list d).Nodup ∧
      ∀ m ∈ k.list d, m.isIn k.table = true ∧ k.entry? (ofList ds) m = some (m, some d.token) :=
    fun k t d hd => h.listed k d.token d (htyped.defines hd)
  constructor
  case distinct => exact h.distinct
  case defined =>
      intro t ht hin
      obtain ⟨d, hd⟩ := Option.isSome_iff_exists.mp (h.defined t ht hin)
      exact ⟨d, (type?_of_isIn hin).trans hd, (htyped t d hd).token⟩
  case methods =>
      intro t d hd
      refine (hlisted .method t d hd).imp_right fun hall m hm => ?_
      obtain ⟨hin, hentry⟩ := hall m hm
      obtain ⟨e, he, htoken, howner⟩ := exists_of_entry hentry
      exact ⟨{ method := e }, (method?_of_isIn hin).trans (congrArg (Option.map _) he), htoken,
        Option.some.inj howner⟩
  case fields =>
      intro t d hd
      refine (hlisted .field t d hd).imp_right fun hall m hm => ?_
      obtain ⟨hin, hentry⟩ := hall m hm
      obtain ⟨e, he, htoken, howner⟩ := exists_of_entry hentry
      exact ⟨e, (if_pos hin).trans he, htoken, Option.some.inj howner⟩
  case properties =>
      intro t d hd
      refine (hlisted .property t d hd).imp_right fun hall m hm => ?_
      obtain ⟨e, he, htoken, howner⟩ := exists_of_entry (hall m hm).2
      exact ⟨e, he, htoken, Option.some.inj howner⟩
  case events =>
      intro t d hd
      refine (hlisted .event t d hd).imp_right fun hall m hm => ?_
      obtain ⟨e, he, htoken, howner⟩ := exists_of_entry (hall m hm).2
      exact ⟨e, he, htoken, Option.some.inj howner⟩
  case nested =>
      intro t d hd
      refine (hlisted .nested t d hd).imp_right fun hall m hm => ?_
      obtain ⟨hin, hentry⟩ := hall m hm
      obtain ⟨e, he, htoken, howner⟩ := exists_of_entry hentry
      exact ⟨e, (type?_of_isIn hin).trans he, htoken, howner⟩
  case named =>
      intro name
      rw [typeNamed?, h.names, bind_firstCalled]
  case namedIn =>
      intro assembly name
      rw [typeIn?, h.assemblyNames, bind_firstCalled]
      simp only [Prod.mk.injEq]

/-! ## 4. A store of nested types -/

/-- Two types of one name, a method of a type that is not there yet, a type that is declared inside
    itself, and members that are added after their type was changed. -/
def layered : List Declaration :=
  [.type "Core" "Base" "Map" 0 none,
    .method ⟨0x02000003⟩ "early" 0 ⟨false, false, 0, .prim .void, []⟩,
    .type "Other" "Base" "Map" 0 none,
    .nestedType ⟨0x02000003⟩ "Self" 0 none,
    .nestedType ⟨0x02000001⟩ "Entry" 0 none,
    .generics (.type ⟨0x02000001⟩) [⟨0, "T", 0⟩],
    .field ⟨0x02000004⟩ "key" 0 (.prim .string),
    .method ⟨0x02000001⟩ "Get" 0 ⟨false, false, 0, .prim .void, []⟩]

theorem layered_coherent :
    (ofList layered).Coherent (Store.given {} layered) ∧
    Store.given {} layered = [⟨0x02000001⟩, ⟨0x06000001⟩, ⟨0x02000002⟩, ⟨0x02000003⟩, ⟨0x02000004⟩,
      ⟨0x04000001⟩, ⟨0x06000002⟩] ∧
    ((ofList layered).typeNamed? "Base.Map").map (fun d => (d.token, d.methods, d.nested)) =
      some (⟨0x02000001⟩, [⟨0x06000002⟩], [⟨0x02000004⟩]) ∧
    ((ofList layered).typeIn? "Other" "Base.Map").map TypeDef.token = some ⟨0x02000002⟩ ∧
    ((ofList layered).type? ⟨0x02000003⟩).map TypeDef.nested = some [⟨0x02000003⟩] := by
  refine ⟨coherent_ofList layered fun table => ?_, ?_, ?_, ?_, ?_⟩
  · cases table <;> decide
  all_goals decide +kernel

end Store

end ReflectionFlow

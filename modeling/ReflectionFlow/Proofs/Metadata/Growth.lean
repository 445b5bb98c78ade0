/-
  File:      ReflectionFlow/Proofs/Metadata/Growth.lean
  Subject:   What one declaration does to the tables of a store.

  A type lists its members of five sorts, and every member names the type it belongs to.  A
  declaration that adds a member takes the next token of the member's table, files the member there,
  and appends the token to the list of the type it is declared for, if that type is defined.  No
  declaration does more: entries of other tokens keep their token and their owner, lists only grow,
  and a type keeps its names.

  * `MemberSort`                              the five sorts of members
  * `Declaration.member?`                     the member a declaration adds
  * `entry?_add_of_ne`, `entry?_add_member`   entries
  * `list_add`                                lists
  * `naming_add_of_ne`, `naming_add_new`      names
-/
import ReflectionFlow.Proofs.Metadata.Types

namespace ReflectionFlow

/-! ## 1. Maps -/

namespace Assoc

variable {κ ν : Type} [Ranked κ] [DecidableEq κ]

theorem get?_insert (m : Assoc κ ν) (k : κ) (x : ν) (j : κ) :
    (m.insert k x).get? j = if j = k then some x else m.get? j := by
  split
  · next h => rw [h, get?_insert_self]
  · next h => rw [get?_insert_of_ne _ _ h]

theorem get?_modify (m : Assoc κ ν) (k : κ) (f : ν → ν) (j : κ) :
    (m.modify k f).get? j = if j = k then (m.get? j).map f else m.get? j := by
  cases hx : m.get? k with
  | some x =>
      have hmodify : m.modify k f = m.insert k (f x) := by simp only [modify, hx]
      rw [hmodify, get?_insert]
      by_cases h : j = k
      · rw [if_pos h, if_pos h, h, hx, Option.map_some]
      · rw [if_neg h, if_neg h]
  | none =>
      have hmodify : m.modify k f = m := by simp only [modify, hx]
      rw [hmodify]
      by_cases h : j = k
      · rw [if_pos h, h, hx, Option.map_none]
      · rw [if_neg h]

theorem get?_insertNew (m : Assoc κ ν) (k : κ) (x : ν) (j : κ) :
    (m.insertNew k x).get? j = (m.get? j).or (if j = k then some x else none) := by
  unfold insertNew
  split
  · next h =>
    obtain ⟨y, hy⟩ := Option.isSome_iff_exists.mp h
    split
    · next hj => rw [hj, hy, Option.some_or]
    · rw [Option.or_none]
  · next h =>
    rw [get?_insert]
    split
    · next hj => rw [hj, Option.not_isSome_iff_eq_none.mp h, Option.none_or]
    · rw [Option.or_none]

end Assoc

/-! ## 2. Sorts of members -/

/-- What a type can list. -/
inductive MemberSort where
  | method
  | field
  | property
  | event
  | nested
  deriving DecidableEq, Repr

namespace MemberSort

/-- The table in which members take their rows. -/
def table : MemberSort → Table
  | .method => .methodDef
  | .field => .field
  | .property => .property
  | .event => .event
  | .nested => .typeDef

/-- The members a type lists. -/
def list : MemberSort → TypeDef → List Token
  | .method => TypeDef.methods
  | .field => TypeDef.fields
  | .property => TypeDef.properties
  | .event => TypeDef.events
  | .nested => TypeDef.nested

/-- The token of the member that stands under a token, and the type it belongs to. -/
def entry? (k : MemberSort) (s : Store) (m : Token) : Option (Token × Option Token) :=
  match k with
  | .method => (s.methods.get? m).map fun d => (d.token, some d.declaring)
  | .field => (s.fields.get? m).map fun d => (d.token, some d.declaring)
  | .property => (s.properties.get? m).map fun d => (d.token, some d.declaring)
  | .event => (s.events.get? m).map fun d => (d.token, some d.declaring)
  | .nested => (s.types.get? m).map fun d => (d.token, d.enclosing)

end MemberSort

namespace Store

/-- The sort of the member a declaration adds, and the type it is declared for. -/
def Declaration.member? : Declaration → Option (MemberSort × Token)
  | .method declaring .. => some (.method, declaring)
  | .field declaring .. => some (.field, declaring)
  | .property declaring .. => some (.property, declaring)
  | .event declaring .. => some (.event, declaring)
  | .nestedType enclosing .. => some (.nested, enclosing)
  | _ => none

/-- A member takes a row in the table of its sort. -/
theorem Declaration.table?_of_member {d : Declaration} {k : MemberSort} {t : Token}
    (h : d.member? = some (k, t)) : d.table? = some k.table := by
  cases d <;> cases h <;> rfl

variable {s : Store} {d : Declaration}

/-! ## 3. What types are called -/

/-- What no declaration changes about a type: its token, its names and the type around it. -/
def naming (d : TypeDef) : Token × String × String × Option Token :=
  (d.token, d.assembly, d.fullName, d.enclosing)

theorem naming_modify {types : Assoc Token TypeDef} {u : Token} {f : TypeDef → TypeDef}
    (hf : ∀ e, naming (f e) = naming e) (t : Token) :
    ((types.modify u f).get? t).map naming = (types.get? t).map naming := by
  rw [Assoc.get?_modify]
  split
  · rw [Option.map_map]
    exact congrArg (fun g => (types.get? t).map g) (funext hf)
  · rfl

/-- **Types keep what they are called**; only a new type is called something that nothing was called
    before. -/
theorem naming_add_of_ne {t : Token} (h : d.table? = some .typeDef → t ≠ s.nextToken .typeDef) :
    ((s.add d).types.get? t).map naming = (s.types.get? t).map naming := by
  cases d with
  | type assembly space name flags base =>
      exact congrArg (Option.map naming) (Assoc.get?_insert_of_ne _ _ (h rfl))
  | nestedType enclosing name flags base =>
      refine (naming_modify (by intro e; rfl) t).trans ?_
      exact congrArg (Option.map naming) (Assoc.get?_insert_of_ne _ _ (h rfl))
  | method declaring name flags sig => exact naming_modify (by intro e; rfl) t
  | field declaring name flags sig => exact naming_modify (by intro e; rfl) t
  | property declaring name getter setter => exact naming_modify (by intro e; rfl) t
  | event declaring name adder remover raiser => exact naming_modify (by intro e; rfl) t
  | interfaceOf type interface => exact naming_modify (by intro e; rfl) t
  | generics owner params =>
      cases owner with
      | type u => exact naming_modify (by intro e; rfl) t
      | method u => rfl
  | _ => rfl

/-- **A new type stands under the next token and takes its names if they are free.** -/
theorem naming_add_new (h : d.table? = some .typeDef) :
    ∃ n, ((s.add d).types.get? (s.nextToken .typeDef)).map naming = some (naming n) ∧
      n.token = s.nextToken .typeDef ∧ (∀ t, d.member? = some (.nested, t) → n.enclosing = some t) ∧
      (s.add d).names = s.names.insertNew n.fullName n.token ∧
      (s.add d).assemblyNames = s.assemblyNames.insertNew (n.assembly, n.fullName) n.token := by
  cases d with
  | type assembly space name flags base =>
      refine ⟨_, ?_, rfl, nofun, rfl, rfl⟩
      exact congrArg (Option.map naming) (Assoc.get?_insert_self ..)
  | nestedType enclosing name flags base =>
      refine ⟨_, ?_, rfl, fun _ h => by cases h; rfl, rfl, rfl⟩
      refine (naming_modify (by intro e; rfl) _).trans ?_
      exact congrArg (Option.map naming) (Assoc.get?_insert_self ..)
  | _ => cases h

/-- Any other declaration leaves the names alone. -/
theorem names_add (h : d.table? ≠ some .typeDef) :
    (s.add d).names = s.names ∧ (s.add d).assemblyNames = s.assemblyNames := by
  cases d with
  | type => exact absurd rfl h
  | nestedType => exact absurd rfl h
  | generics owner params => cases owner <;> exact ⟨rfl, rfl⟩
  | _ => exact ⟨rfl, rfl⟩

/-! ## 4. Entries -/

theorem entry?_nested (s : Store) (m : Token) : MemberSort.nested.entry? s m =
    ((s.types.get? m).map naming).map fun n => (n.1, n.2.2.2) := by
  rw [Option.map_map]
  rfl

theorem method_entry_modify {methods : Assoc Token MethodDef} {u : Token}
    {f : MethodDef → MethodDef} (hf : ∀ m, (f m).token = m.token ∧ (f m).declaring = m.declaring)
    (t : Token) : (((methods.modify u f).get? t).map fun m => (m.token, some m.declaring)) =
      (methods.get? t).map fun m => (m.token, some m.declaring) := by
  rw [Assoc.get?_modify]
  split
  · rw [Option.map_map]
    refine congrArg (fun g => (methods.get? t).map g) (funext fun m => ?_)
    exact congrArg₂ Prod.mk (hf m).1 (congrArg some (hf m).2)
  · rfl

/-- **Members keep their token and their owner.** -/
theorem entry?_add_of_ne {k : MemberSort} {m : Token}
    (h : d.table? = some k.table → m ≠ s.nextToken k.table) :
    k.entry? (s.add d) m = k.entry? s m := by
  cases k with
  | nested => rw [entry?_nested, entry?_nested, naming_add_of_ne h]
  | method =>
      cases d with
      | method declaring name flags sig =>
          exact congrArg (Option.map _) (Assoc.get?_insert_of_ne _ _ (h rfl))
      | marshal method returnForm paramForms =>
          exact method_entry_modify (by intro e; exact ⟨rfl, rfl⟩) m
      | generics owner params =>
          cases owner with
          | type u => rfl
          | method u => exact method_entry_modify (by intro e; exact ⟨rfl, rfl⟩) m
      | _ => rfl
  | field =>
      cases d with
      | field => exact congrArg (Option.map _) (Assoc.get?_insert_of_ne _ _ (h rfl))
      | generics owner params => cases owner <;> rfl
      | _ => rfl
  | property =>
      cases d with
      | property => exact congrArg (Option.map _) (Assoc.get?_insert_of_ne _ _ (h rfl))
      | generics owner params => cases owner <;> rfl
      | _ => rfl
  | event =>
      cases d with
      | event => exact congrArg (Option.map _) (Assoc.get?_insert_of_ne _ _ (h rfl))
      | generics owner params => cases owner <;> rfl
      | _ => rfl

/-- **A new member stands under the next token and belongs to the type it is declared for.** -/
theorem entry?_add_member {k : MemberSort} {t : Token} (h : d.member? = some (k, t)) :
    k.entry? (s.add d) (s.nextToken k.table) = some (s.nextToken k.table, some t) := by
  cases k with
  | nested =>
      obtain ⟨n, hn, htoken, henclosing, _⟩ :=
        naming_add_new (s := s) (Declaration.table?_of_member h)
      rw [entry?_nested]
      show Option.map _ (Option.map naming ((s.add d).types.get? (s.nextToken .typeDef))) = _
      rw [hn, Option.map_some, naming, htoken, henclosing t h]
      rfl
  | _ =>
      cases d <;> cases h
      exact congrArg (Option.map _) (Assoc.get?_insert_self ..)

/-! ## 5. Lists -/

/-- What a declaration appends to a list of a type. -/
def appended (s : Store) (d : Declaration) (k : MemberSort) (t : Token) : List Token :=
  if d.member? = some (k, t) then [s.nextToken k.table] else []

/-- A change of one type that appends to its lists what the declaration says. -/
theorem list_modify {types : Assoc Token TypeDef} {u : Token} {f : TypeDef → TypeDef}
    {k : MemberSort} (hf : ∀ e, k.list (f e) = k.list e ++ s.appended d k u)
    (hu : ∀ t, d.member? = some (k, t) → t = u) {t : Token} {e : TypeDef}
    (h : (types.modify u f).get? t = some e) :
    ∃ e₀, types.get? t = some e₀ ∧ k.list e = k.list e₀ ++ s.appended d k t := by
  rw [Assoc.get?_modify] at h
  split at h
  · next ht =>
    obtain ⟨e₀, he₀, rfl⟩ := Option.map_eq_some_iff.mp h
    exact ⟨e₀, he₀, ht ▸ hf e₀⟩
  · next ht =>
    refine ⟨e, h, ?_⟩
    rw [appended, if_neg fun hd => ht (hu t hd), List.append_nil]

/-- The lists of a new type are empty. -/
theorem list_insert {types : Assoc Token TypeDef} {n : TypeDef} {k : MemberSort}
    (hn : k.list n = []) {t : Token} {e : TypeDef} (h : (types.insert n.token n).get? t = some e) :
    k.list e = [] ∨ types.get? t = some e := by
  rw [Assoc.get?_insert] at h
  split at h
  · obtain rfl := Option.some.inj h
    exact Or.inl hn
  · exact Or.inr h

/-- A type of the store with one more declaration: its list is that of the type as it was, or an
    empty one, with what the declaration appends. -/
def Grown (s : Store) (d : Declaration) (k : MemberSort) (t : Token) (e : TypeDef) : Prop :=
  ∃ l, (l = [] ∨ ∃ e₀, s.types.get? t = some e₀ ∧ l = k.list e₀) ∧ k.list e = l ++ s.appended d k t

theorem Grown.of_same {k : MemberSort} {t : Token} {e : TypeDef} (hnone : s.appended d k t = [])
    (he : s.types.get? t = some e) : s.Grown d k t e :=
  ⟨k.list e, Or.inr ⟨e, he, rfl⟩, by rw [hnone, List.append_nil]⟩

theorem Grown.of_grown {k : MemberSort} {t : Token} {e : TypeDef}
    (h : ∃ e₀, s.types.get? t = some e₀ ∧ k.list e = k.list e₀ ++ s.appended d k t) :
    s.Grown d k t e := by
  obtain ⟨e₀, he₀, hlist⟩ := h
  exact ⟨_, Or.inr ⟨e₀, he₀, rfl⟩, hlist⟩

/-- **A list of members grows by what is declared for its type, and by nothing else**; the lists of
    a new type start empty. -/
theorem list_add (k : MemberSort) {t : Token} {e : TypeDef}
    (h : (s.add d).types.get? t = some e) : s.Grown d k t e := by
  cases d with
  | type assembly space name flags base =>
      rcases list_insert (k := k) (by cases k <;> rfl) h with hnil | he
      · exact ⟨[], Or.inl rfl, hnil⟩
      · exact .of_same rfl he
  | nestedType enclosing name flags base =>
      obtain ⟨e₀, he₀, hlist⟩ : ∃ e₀, _ ∧ k.list e = k.list e₀ ++
          s.appended (.nestedType enclosing name flags base) k t := by
        refine list_modify ?_ ?_ h
        · intro e₀
          cases k <;> simp [appended, Declaration.member?, MemberSort.list, MemberSort.table]
        · intro u hu
          cases hu
          rfl
      rcases list_insert (k := k) (by cases k <;> rfl) he₀ with hnil | he₀
      · exact ⟨[], Or.inl rfl, hlist.trans (by rw [hnil])⟩
      · exact .of_grown ⟨e₀, he₀, hlist⟩
  | method | field | property | event =>
      refine .of_grown (list_modify ?_ ?_ h)
      · intro e₀
        cases k <;> simp [appended, Declaration.member?, MemberSort.list, MemberSort.table]
      · intro u hu
        cases hu
        rfl
  | interfaceOf type interface =>
      refine .of_grown (list_modify ?_ ?_ h)
      · intro e₀
        cases k <;> simp [appended, Declaration.member?, MemberSort.list]
      · intro u hu
        cases hu
  | generics owner params =>
      cases owner with
      | type u =>
          refine .of_grown (list_modify ?_ ?_ h)
          · intro e₀
            cases k <;> simp [appended, Declaration.member?, MemberSort.list]
          · intro u hu
            cases hu
      | method u => exact .of_same rfl h
  | _ => exact .of_same rfl h

end Store

end ReflectionFlow

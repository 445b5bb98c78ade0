/-
  File:      ReflectionFlow/Proofs/Metadata/Tables.lean
  Subject:   Methods stand under their own tokens.

  A declaration gives a method the next token of the method table and files it there; later
  declarations may change the method, but neither its token nor its place.  So whichever way a
  method is found, asking for its token finds it again.

  * `Hop.search_keeps`        what a search finds has what every step of it gives or keeps
  * `Store.Tabled`            every method stands under its own token
  * `Store.tabled_ofList`     as it is in every store that is built from declarations
  * `Store.Tabled.defines`    what a reference leads to is found under its own token
-/
import ReflectionFlow.Metadata.Resolve

namespace ReflectionFlow

/-! ## 1. Searches -/

namespace Hop

variable {α : Type} {hop : Token → Hop α} {t u : Token}

theorem search_ended {found : Option α} (h : hop t = .ended found) (hops : Nat) :
    search hop hops t = some found := by
  rw [search, h]

theorem search_zero {complete : α → α} (h : hop t = .onward u complete) :
    search hop 0 t = none := by
  rw [search, h]

theorem search_succ {complete : α → α} (h : hop t = .onward u complete) (hops : Nat) :
    search hop (hops + 1) t = (search hop hops u).map (Option.map complete) := by
  rw [search, h]

/-- **What holds wherever a search may be over, and is kept by every completion, holds of what is
    found.** -/
theorem search_keeps {P : α → Prop} (hended : ∀ t a, hop t = .ended (some a) → P a)
    (honward : ∀ t u complete, hop t = .onward u complete → ∀ a, P a → P (complete a))
    {hops : Nat} {a : α} (h : search hop hops t = some (some a)) : P a := by
  induction hops generalizing t a with
  | zero =>
      cases ht : hop t with
      | ended found =>
          rw [search_ended ht] at h
          exact hended t a (ht.trans (congrArg ended (Option.some.inj h)))
      | onward u complete =>
          rw [search_zero ht] at h
          cases h
  | succ hops ih =>
      cases ht : hop t with
      | ended found =>
          rw [search_ended ht] at h
          exact hended t a (ht.trans (congrArg ended (Option.some.inj h)))
      | onward u complete =>
          rw [search_succ ht] at h
          obtain ⟨found, hfound, hmap⟩ := Option.map_eq_some_iff.mp h
          obtain ⟨b, rfl, rfl⟩ := Option.map_eq_some_iff.mp hmap
          exact honward t u complete ht b (ih hfound)

end Hop

namespace Store

/-! ## 2. Every declaration keeps the table -/

/-- **Every method stands under its own token**, which is one of the method table. -/
def Tabled (s : Store) : Prop :=
  ∀ t m, s.methods.get? t = some m → m.token = t ∧ t.isIn .methodDef = true

/-- A method that the store holds under its own token. -/
def Defines (s : Store) (m : MethodDef) : Prop := s.methodDef? m.token = some m

variable {s s' : Store}

theorem isIn_nextToken (s : Store) (table : Table) : (s.nextToken table).isIn table = true := by
  have hid : table.id < 0x100 := by cases table <;> decide
  unfold Token.isIn nextToken
  rw [Token.table_ofParts hid]
  exact beq_self_eq_true _

theorem Tabled.of_methods (h : s.Tabled) (he : s'.methods = s.methods) : s'.Tabled := by
  intro t m hm
  rw [he] at hm
  exact h t m hm

theorem Tabled.insert (h : s.Tabled) {m : MethodDef} (hm : m.token.isIn .methodDef = true)
    (he : s'.methods = s.methods.insert m.token m) : s'.Tabled := by
  intro t n hn
  rw [he] at hn
  by_cases ht : t = m.token
  · subst ht
    rw [Assoc.get?_insert_self] at hn
    obtain rfl := Option.some.inj hn
    exact ⟨rfl, hm⟩
  · rw [Assoc.get?_insert_of_ne _ _ ht] at hn
    exact h t n hn

theorem Tabled.modifyMethod (h : s.Tabled) (t : Token) {f : MethodDef → MethodDef}
    (hf : ∀ m, (f m).token = m.token) : (s.modifyMethod t f).Tabled := by
  cases hm : s.methods.get? t with
  | none =>
      refine h.of_methods ?_
      simp only [Store.modifyMethod, Assoc.modify, hm]
  | some m =>
      obtain ⟨rfl, hin⟩ := h t m hm
      refine h.insert (m := f m) ?_ ?_
      · rw [hf]
        exact hin
      · rw [hf]
        simp only [Store.modifyMethod, Assoc.modify, hm]

/-- A declaration keeps methods under their tokens. -/
theorem Tabled.add (h : s.Tabled) (d : Declaration) : (s.add d).Tabled := by
  cases d with
  | method declaring name flags sig =>
      exact h.insert (m := ⟨s.nextToken .methodDef, declaring, name, flags, _, _, _, _, _⟩)
        (isIn_nextToken s .methodDef) rfl
  | marshal method returnForm paramForms => exact h.modifyMethod method fun _ => rfl
  | generics owner params =>
      cases owner with
      | type t => exact h.of_methods rfl
      | method t => exact h.modifyMethod t fun _ => rfl
  | _ => exact h.of_methods rfl

/-- **In every store that is built from declarations methods stand under their tokens.** -/
theorem tabled_ofList (ds : List Declaration) : (ofList ds).Tabled :=
  List.foldlRecOn (motive := Tabled) ds _ (fun _ _ h => by cases h) fun _ h d _ => h.add d

/-! ## 3. References -/

theorem Tabled.defines_of_get? (h : s.Tabled) {t : Token} {m : MethodDef}
    (hm : s.methods.get? t = some m) : s.Defines m := by
  obtain ⟨rfl, hin⟩ := h t m hm
  have hhop : s.methodHop m.token = .ended (some { method := m }) := by
    unfold methodHop
    rw [if_pos hin, hm]
    rfl
  unfold Defines methodDef? method? methodSearch?
  rw [Hop.search_ended hhop]
  rfl

/-- Where the search for a method is over, it has found a row of the method table. -/
theorem methodHop_ended {t : Token} {r : MethodRef} (hr : s.methodHop t = .ended (some r)) :
    ∃ u, s.methods.get? u = some r.method := by
  unfold methodHop at hr
  split at hr
  · obtain ⟨m, hm, rfl⟩ := Option.map_eq_some_iff.mp (Hop.ended.inj hr)
    exact ⟨t, hm⟩
  · split at hr
    · obtain ⟨ref, _, href⟩ := Option.bind_eq_some_iff.mp (Hop.ended.inj hr)
      obtain ⟨m, hm, rfl⟩ := Option.map_eq_some_iff.mp href
      exact ⟨ref.target, hm⟩
    · split at hr
      · split at hr <;> cases hr
      · cases hr

/-- Where it goes on, the token is a method instance of the table, and what is found gets the
    arguments of the instance. -/
theorem methodHop_onward {t u : Token} {complete : MethodRef → MethodRef}
    (h : s.methodHop t = .onward u complete) : t.isIn .methodSpec = true ∧
      ∃ spec, s.methodSpecs.get? t = some spec ∧ spec.method = u ∧
        complete = fun r => { r with methodArgs := spec.methodArgs } := by
  unfold methodHop at h
  split at h
  · cases h
  · split at h
    · cases h
    · split at h
      case isTrue hin =>
        split at h
        case h_1 spec hspec =>
          cases h
          exact ⟨hin, spec, hspec, rfl, rfl⟩
        case h_2 => cases h
      case isFalse => cases h

/-- **What a reference leads to is found under its own token.** -/
theorem Tabled.defines (h : s.Tabled) {t : Token} {r : MethodRef} (hr : s.method? t = some r) :
    s.Defines r.method := by
  refine Hop.search_keeps (P := fun r => s.Defines r.method) ?_ ?_ (Option.join_eq_some_iff.mp hr)
  · intro t r hr
    obtain ⟨u, hu⟩ := methodHop_ended hr
    exact h.defines_of_get? hu
  · intro t u complete hu r hr
    obtain ⟨_, spec, _, _, rfl⟩ := methodHop_onward hu
    exact hr

theorem Tabled.defines_methodDef? (h : s.Tabled) {t : Token} {m : MethodDef}
    (hm : s.methodDef? t = some m) : s.Defines m := by
  obtain ⟨r, hr, rfl⟩ := Option.map_eq_some_iff.mp hm
  exact h.defines hr

end Store

end ReflectionFlow

/-
  File:      ReflectionFlow/Proofs/Reflection/Merging.lean
  Subject:   A call with merged arguments is handled like all the calls it stands for.

  Where paths join, an argument becomes a set.  The rule for the call sees the sets; at run time each
  argument is one value of its set.  So the rule must mark whatever it would mark for a choice of
  one value per argument, and must report something wherever it would report something for one.

  Names, binding flags and flags for case are first taken together, and the values of the other
  arguments are then gone through with the result.  Taken together they select at least what each
  of them selects.

  * `CallSite.choosing`, `CallSite.Offers`    one value for each argument
  * `Lookup.wider_ofFlags`, `broader_constantTexts?`   flags and names that are taken together
  * `CallSite.outdoes_handle?`                the rules of the catalogue, activations apart
  * `CallSite.Conservative`, `CallSite.handle?_conservative`
-/
import ReflectionFlow.Proofs.Reflection.Coverage

namespace ReflectionFlow

open Store Reporter

/-! ## 1. Choices -/

/-- A set and one of its values. -/
def Offered (values one : ValueSet) : Prop := ∃ v ∈ values, one = .single v

namespace CallSite

/-- The call with one value for each argument. -/
def choosing (c : CallSite) (vs : List Value) : CallSite := { c with arguments := vs.map .single }

/-- One value of each argument. -/
def Offers (c : CallSite) (vs : List Value) : Prop := List.Forall₂ (· ∈ ·) vs c.arguments

variable {c : CallSite} {vs : List Value}

theorem rel_getElem? {sets : List ValueSet} (h : List.Forall₂ (· ∈ ·) vs sets) (i : Nat) :
    Option.Rel Offered sets[i]? (vs.map SetOf.single)[i]? := by
  induction h generalizing i with
  | nil => exact .none
  | cons hv _ ih =>
      cases i with
      | zero => exact .some ⟨_, hv, rfl⟩
      | succ i => exact ih i

theorem Offers.parameter? (h : c.Offers vs) (i : Nat) :
    Option.Rel Offered (c.parameter? i) ((c.choosing vs).parameter? i) :=
  rel_getElem? h _

theorem Offers.receiver? (h : c.Offers vs) :
    Option.Rel Offered c.receiver? (c.choosing vs).receiver? := by
  unfold CallSite.receiver?
  show Option.Rel _ _ (if c.method.hasThis then (vs.map SetOf.single).head? else _)
  rw [List.head?_eq_getElem?, List.head?_eq_getElem?]
  split
  · exact rel_getElem? h 0
  · exact .none

end CallSite

theorem rel_map {α β γ δ : Type} {R : α → β → Prop} {S : γ → δ → Prop} {o : Option α} {o' : Option β}
    {f : α → γ} {g : β → δ} (h : Option.Rel R o o') (hf : ∀ a b, R a b → S (f a) (g b)) :
    Option.Rel S (o.map f) (o'.map g) := by
  cases h with
  | none => exact .none
  | some h => exact .some (hf _ _ h)

theorem rel_bind {α β γ δ : Type} {R : α → β → Prop} {S : γ → δ → Prop} {o : Option α}
    {o' : Option β} {f : α → Option γ} {g : β → Option δ} (h : Option.Rel R o o')
    (hf : ∀ a b, o = some a → R a b → Option.Rel S (f a) (g b)) :
    Option.Rel S (o.bind f) (o'.bind g) := by
  cases h with
  | none => exact .none
  | some h => exact hf _ _ rfl h

/-- All images exist and are the listed ones. -/
theorem map_eq_of_mapM {α β : Type} {f : α → Option β} {l : List α} {r : List β}
    (h : l.mapM f = some r) : l.map f = r.map some := by
  induction l generalizing r with
  | nil =>
      obtain rfl : [] = r := Option.some.inj h
      rfl
  | cons x l ih =>
      rw [List.mapM_cons] at h
      obtain ⟨y, hy, h⟩ := Option.bind_eq_some_iff.mp h
      obtain ⟨ys, hys, h⟩ := Option.bind_eq_some_iff.mp h
      obtain rfl := Option.some.inj h
      rw [List.map_cons, List.map_cons, hy, ih hys]

theorem image_of_mapM {α β : Type} {f : α → Option β} {l : List α} {r : List β}
    (h : l.mapM f = some r) {a : α} (ha : a ∈ l) : ∃ b ∈ r, f a = some b := by
  have hmem : f a ∈ r.map some := map_eq_of_mapM h ▸ List.mem_map_of_mem ha
  obtain ⟨b, hb, heq⟩ := List.mem_map.mp hmem
  exact ⟨b, hb, heq.symm⟩

theorem preimage_of_mapM {α β : Type} {f : α → Option β} {l : List α} {r : List β}
    (h : l.mapM f = some r) {b : β} (hb : b ∈ r) : ∃ a ∈ l, f a = some b :=
  List.mem_map.mp (map_eq_of_mapM h ▸ List.mem_map_of_mem hb)

/-! ## 2. Flags and names -/

/-- A lookup that reaches what another one reaches, under at least the same names. -/
structure Lookup.Wider (l' l : Lookup) : Prop where
  covers : l'.categories.covers l.categories = true
  ignoreCase : l.ignoreCase = true → l'.ignoreCase = true
  reachesPublic : l.reachesPublic = true → l'.reachesPublic = true
  reachesNonPublic : l.reachesNonPublic = true → l'.reachesNonPublic = true

namespace Lookup

theorem Wider.refl (l : Lookup) : l.Wider l := ⟨l.categories.covers_refl, id, id, id⟩

theorem wider_reaching (kind : LookupKind) {p n i p' n' i' : Bool} (hp : p = true → p' = true)
    (hn : n = true → n' = true) (hi : i = true → i' = true) :
    (reaching kind p' n' i').Wider (reaching kind p n i) := by
  refine ⟨?_, hi, hp, hn⟩
  dsimp only [reaching]
  revert p n p' n'
  cases kind <;> decide

theorem wider_anything (kind : LookupKind) (p n i : Bool) :
    (anything kind).Wider (reaching kind p n i) :=
  wider_reaching kind (fun _ => rfl) (fun _ => rfl) fun _ => rfl

theorem ofFlags_single (kind : LookupKind) (v : Value) :
    ofFlags kind (.single v) = match v.constant?.bind BindingFlags.ofConstant? with
      | some f => reaching kind f.wantsPublic f.wantsNonPublic false
      | none => anything kind := by
  unfold ofFlags flagsOf?
  cases h : v.constant?.bind BindingFlags.ofConstant? with
  | none => simp [SetOf.single, SetOf.isEmpty, h]
  | some f => simp [SetOf.single, SetOf.isEmpty, h]

theorem ofFlags_of_none (kind : LookupKind) {flags : ValueSet}
    (h : flagsOf? flags.members = none) : ofFlags kind flags = anything kind := by
  unfold ofFlags
  rw [h]
  exact ite_self _

theorem ofFlags_of_some (kind : LookupKind) {flags : ValueSet} {v : Value} (hv : v ∈ flags)
    {all : List BindingFlags} (h : flagsOf? flags.members = some all) :
    ofFlags kind flags = reaching kind (all.any BindingFlags.wantsPublic)
      (all.any BindingFlags.wantsNonPublic) false := by
  unfold ofFlags
  rw [if_neg, h]
  unfold SetOf.isEmpty
  rw [List.isEmpty_iff]
  exact List.ne_nil_of_mem hv

/-- **Flags that are taken together select what each of them selects.** -/
theorem wider_ofFlags (kind : LookupKind) {flags : ValueSet} {v : Value} (hv : v ∈ flags) :
    (ofFlags kind flags).Wider (ofFlags kind (.single v)) := by
  have hanything : (anything kind).Wider (ofFlags kind (.single v)) := by
    rw [ofFlags_single]
    split
    · exact wider_anything kind _ _ _
    · exact .refl _
  cases hall : flagsOf? flags.members with
  | none =>
      rw [ofFlags_of_none kind hall]
      exact hanything
  | some all =>
      obtain ⟨f, hf, hvf⟩ := image_of_mapM hall hv
      rw [ofFlags_of_some kind hv hall, ofFlags_single, hvf]
      exact wider_reaching kind (fun h => List.any_eq_true.mpr ⟨f, hf, h⟩)
        (fun h => List.any_eq_true.mpr ⟨f, hf, h⟩) id

end Lookup

/-- Names that include others; without names every name is meant. -/
def Broader (names' names : Option (List String)) : Prop :=
  ∀ ns', names' = some ns' → ∃ ns, names = some ns ∧ ns ⊆ ns'

theorem broader_constantTexts? {values : ValueSet} {v : Value} (hv : v ∈ values) :
    Broader values.constantTexts? (SetOf.single v).constantTexts? := by
  intro texts htexts
  obtain ⟨text, htext, hvt⟩ := image_of_mapM htexts hv
  refine ⟨[text], ?_, fun _ h => List.mem_singleton.mp h ▸ htext⟩
  unfold SetOf.constantTexts? SetOf.single
  rw [List.mapM_cons, hvt]
  rfl

theorem maybeTrue_of_single {values : ValueSet} {v : Value} (hv : v ∈ values)
    (h : (SetOf.single v).maybeTrue = true) : values.maybeTrue = true := by
  obtain ⟨w, hw, htrue⟩ := List.any_eq_true.mp h
  obtain rfl := List.mem_singleton.mp hw
  exact List.any_eq_true.mpr ⟨w, hv, htrue⟩

/-- The filters that a lookup by name goes through. -/
def filtersOf (names : Option (List String)) (ignoreCase : Bool) : List NameFilter :=
  match names with
  | some names => names.map (.named · ignoreCase)
  | none => [.any]

theorem forM_filtersOf (names : Option (List String)) (ignoreCase : Bool)
    (f : NameFilter → Act Unit) : (filtersOf names ignoreCase).forM f =
      match names with
      | some names => names.forM fun name => f (.named name ignoreCase)
      | none => f .any := by
  unfold filtersOf
  cases names with
  | none => exact bind_pure_unit
  | some names =>
      rw [List.forM_eq_forM, List.forM_map]
      rfl

theorem filtersOf_wider {names' names : Option (List String)} (h : Broader names' names)
    {ignoreCase ignoreCase' : Bool} (hcase : ignoreCase = true → ignoreCase' = true)
    {f : NameFilter} (hf : f ∈ filtersOf names ignoreCase) :
    ∃ f' ∈ filtersOf names' ignoreCase', ∀ name, f.accepts name = true → f'.accepts name = true := by
  cases names' with
  | none => exact ⟨.any, List.mem_singleton.mpr rfl, fun name _ => NameFilter.accepts_any name⟩
  | some names' =>
      obtain ⟨ns, rfl, hsub⟩ := h names' rfl
      obtain ⟨name, hname, rfl⟩ := List.mem_map.mp hf
      refine ⟨.named name ignoreCase', List.mem_map_of_mem (hsub hname), fun candidate hc => ?_⟩
      cases ignoreCase with
      | true => rwa [hcase rfl]
      | false =>
          cases ignoreCase' with
          | true => exact NameFilter.accepts_ignoreCase hc
          | false => exact hc

/-! ## 3. Rules -/

namespace CallSite

/-- Rules that apply to the same calls, the first with more entries. -/
abbrev OutdoesRules (s : Store) (m : MethodDef) :
    Option (Act ValueSet) → Option (Act ValueSet) → Prop :=
  Option.Rel (s.Outdoes m)

@[simp] theorem choosing_shapes (c : CallSite) (vs : List Value) :
    (c.choosing vs).shapes = c.shapes := rfl

section Single

variable {s : Store} {m : MethodDef} {α β : Type} {x : Act α} {v : Value}

theorem outdoes_forM_single {f : Value → Act Unit} (h : s.Outdoes m x (f v)) :
    s.Outdoes m x ((SetOf.single v).members.forM f) :=
  h.quietly fun _ => .pure _

theorem outdoes_mapM_single {f : Value → Act β} (h : s.Outdoes m x (f v)) :
    s.Outdoes m x ((SetOf.single v).members.mapM f) := by
  unfold SetOf.single
  rw [List.mapM_cons]
  exact h.quietly fun _ => .pure _

theorem outdoes_collectM_single {f : Value → Act ValueSet} (h : s.Outdoes m x (f v)) :
    s.Outdoes m x ((SetOf.single v).collectM f) := by
  unfold SetOf.collectM SetOf.single
  rw [List.foldlM_cons]
  exact (h.quietly fun _ => .pure _).quietly fun _ => .pure _

end Single

section Rules

variable {s : Store} {r : Reporter} {c : CallSite} {vs : List Value}

/-- The call itself may be asked about. -/
theorem within_self (hc : c.context.store = s) : c.Within s (· = c.method) := ⟨hc, rfl⟩

theorem quiet_default (hc : c.context.store = s) : s.Quiet c.method c.defaultReturn :=
  alike_defaultReturn (within_self hc)

/-- Both calls go on with the same default. -/
theorem outdoes_thenDefault (hc : c.context.store = s) {x y : Act Unit}
    (h : s.Outdoes c.method x y) :
    s.Outdoes c.method (do x; c.defaultReturn) (do y; (c.choosing vs).defaultReturn) :=
  h.bind fun _ _ => outdoes_of_quiet (quiet_default hc) (quiet_default (c := c.choosing vs) hc)

/-- A step for each value of an argument. -/
theorem outdoes_forEach {f : Value → Act Unit} {values : ValueSet} {v : Value}
    (hf : ∀ a, s.Plain c.method (f a)) (hv : v ∈ values) {g : Value → Act Unit}
    (h : s.Outdoes c.method (f v) (g v)) :
    s.Outdoes c.method (values.members.forM f) ((SetOf.single v).members.forM g) :=
  outdoes_forM_single (.forM_left hf hv h)

theorem outdoesRules_of_alike {m : MethodDef} {P : Origin → Prop} {o o' : Option (Act ValueSet)}
    (h : s.AlikeRules (· = m) P o o') : OutdoesRules s m o o' := by
  cases h with
  | none => exact .none
  | some h => exact .some h.outdoes

/-- Rules that enter nothing. -/
theorem outdoesRules_of_quiet {o o' : Option (Act ValueSet)}
    (h : s.AlikeRules (· = c.method) (fun _ => False) o o)
    (h' : s.AlikeRules (· = c.method) (fun _ => False) o' o') (hsome : o.isSome = o'.isSome) :
    OutdoesRules s c.method o o' := by
  cases h with
  | none =>
      cases h' with
      | none => exact .none
      | some _ => cases hsome
  | some h =>
      cases h' with
      | none => cases hsome
      | some h' => exact .some (outdoes_of_quiet h h')

variable (hr : r.Serves s fun _ => True) (hc : c.context.store = s) (hs : s.TypesTabled)
  (hvs : c.Offers vs)

/-! ## 4. Types by name -/

include hr hvs in
theorem outdoes_getType? : OutdoesRules s c.method (c.getType? r) ((c.choosing vs).getType? r) := by
  have hone : ∀ v, s.Plain c.method (c.namedBy r v) := fun v => by
    simpa only [dimmed_true] using alike_namedBy hr true v
  unfold getType?
  rw [choosing_shapes]
  split
  · refine rel_map (hvs.parameter? 0) ?_
    rintro names _ ⟨v, hv, rfl⟩
    have h : s.Outdoes c.method (names.collectM (c.namedBy r))
        ((SetOf.single v).collectM ((c.choosing vs).namedBy r)) :=
      outdoes_collectM_single (.collectM_left hone hv (hone v).outdoes)
    exact (h.after fun _ => .pure _).quietly fun _ => .pure _
  · exact .none

/-! ## 5. Members -/

/-- The members of a type that pass one of several filters are marked. -/
theorem outdoes_markFiltered {m : MethodDef} (hr : r.Serves s fun _ => True) (hs : s.TypesTabled)
    {l l' : Categories} (hl : l'.covers l = true) {fs fs' : List NameFilter}
    (hfs : ∀ f ∈ fs, ∃ f' ∈ fs', ∀ name, f.accepts name = true → f'.accepts name = true)
    (t : Token) (reason : MarkReason) :
    s.Outdoes m (fs'.forM fun f => r.markMembers t l' f reason)
      (fs.forM fun f => r.markMembers t l f reason) := by
  have hone : ∀ f, s.Plain m (r.markMembers t l' f reason) := fun f => by
    simpa only [dimmed_true] using alike_markMembers hr t l' f reason true
  refine .forM_right (.forM hone fs') fun f hf => ?_
  obtain ⟨f', hf', haccepts⟩ := hfs f hf
  exact .forM_left hone hf' (outdoes_markMembers hr hs ⟨hl, haccepts⟩ t reason)

/-- What a lookup returns after it has marked what it reaches. -/
def lookupResult (c : CallSite) (r : Reporter) (kind : LookupKind) (names : LookupNames) (l : Lookup)
    (d : TypeDef) : Act ValueSet :=
  match names.names.bind fun names => uniqueMatch? kind (membersNamed r.store d l names) with
  | some v => pure (.single v)
  | none => c.defaultReturn

theorem lookupOn_eq (c : CallSite) (r : Reporter) (kind : LookupKind) (names : LookupNames)
    (l : Lookup) (d : TypeDef) : c.lookupOn r kind names l d = (do
      (filtersOf names.names l.ignoreCase).forM fun f =>
        r.markMembers d.token l.categories f .reflectionLookup
      c.lookupResult r kind names l d) := by
  rw [forM_filtersOf]
  unfold lookupOn lookupResult
  cases names.names <;> rfl

theorem quiet_lookupResult (hc : c.context.store = s) (kind : LookupKind) (names : LookupNames)
    (l : Lookup) (d : TypeDef) : s.Quiet c.method (c.lookupResult r kind names l d) := by
  unfold lookupResult
  split
  · exact .pure _
  · exact quiet_default hc

section Lookups

variable {kind : LookupKind} {names names' : LookupNames} {l l' : Lookup}
  (hnames : Broader names'.names names.names) (hl : l'.Wider l)
include hr hc hs hnames hl

theorem outdoes_lookupOn (d : TypeDef) :
    s.Outdoes c.method (c.lookupOn r kind names' l' d)
      ((c.choosing vs).lookupOn r kind names l d) := by
  rw [lookupOn_eq, lookupOn_eq]
  refine .bind ?_ fun _ _ => outdoes_of_quiet (quiet_lookupResult hc ..)
    (quiet_lookupResult (c := c.choosing vs) hc ..)
  exact outdoes_markFiltered hr hs hl.covers (fun _ hf => filtersOf_wider hnames hl.ignoreCase hf) _ _

/-- **A wider lookup on a value enters more.** -/
theorem outdoes_lookupIn (v : Value) :
    s.Outdoes c.method (c.lookupIn r kind names' l' v)
      ((c.choosing vs).lookupIn r kind names l v) := by
  have hdefault : s.Outdoes c.method c.defaultReturn (c.choosing vs).defaultReturn :=
    outdoes_of_quiet (quiet_default hc) (quiet_default (c := c.choosing vs) hc)
  unfold lookupIn
  split
  · exact outdoes_of_quiet (.pure _) (.pure _)
  · split
    · exact outdoes_lookupOn hr hc hs hnames hl _
    · exact hdefault
  · exact outdoes_thenDefault hc (outdoes_require hr hs hl.covers (List.Subset.refl _) _)

end Lookups

include hvs in
theorem rel_lookupNames? (kind : LookupKind) (named : Bool) :
    Option.Rel (fun names' names : LookupNames => Broader names'.names names.names)
      (c.lookupNames? kind named) ((c.choosing vs).lookupNames? kind named) := by
  unfold lookupNames?
  rw [choosing_shapes]
  split
  · split
    · refine rel_map (hvs.parameter? 0) ?_
      rintro values _ ⟨v, hv, rfl⟩
      exact broader_constantTexts? hv
    · exact .none
  · exact .some fun _ h => by cases h

include hvs in
theorem rel_lookup? (kind : LookupKind) :
    Option.Rel Lookup.Wider (c.lookup? kind) ((c.choosing vs).lookup? kind) := by
  have hflags : Option.Rel Lookup.Wider (c.lookupFlags? kind) ((c.choosing vs).lookupFlags? kind) := by
    unfold lookupFlags?
    rw [choosing_shapes]
    cases c.shapes.findIdx? (· == .bindingFlags) with
    | none => exact .some (.refl _)
    | some index =>
        refine rel_map (hvs.parameter? index) ?_
        rintro flags _ ⟨v, hv, rfl⟩
        exact Lookup.wider_ofFlags kind hv
  refine rel_bind hflags fun l' l _ hl => ?_
  rw [choosing_shapes]
  split
  · refine rel_map (hvs.parameter? 1) ?_
    rintro flag _ ⟨v, hv, rfl⟩
    refine ⟨hl.covers, ?_, hl.reachesPublic, hl.reachesNonPublic⟩
    simp only [Bool.or_eq_true]
    exact Or.imp hl.ignoreCase (maybeTrue_of_single hv)
  · exact .some hl

include hr hc hs hvs in
theorem outdoes_lookupMembers? (kind : LookupKind) (named : Bool) :
    OutdoesRules s c.method (c.lookupMembers? r kind named)
      ((c.choosing vs).lookupMembers? r kind named) := by
  refine rel_bind (rel_lookupNames? hvs kind named) fun names' names _ hnames => ?_
  refine rel_bind (rel_lookup? hvs kind) fun l' l _ hl => ?_
  refine rel_bind hvs.receiver? ?_
  rintro types _ _ ⟨v, hv, rfl⟩
  have hone : ∀ v, s.Plain c.method (c.lookupIn r kind names' l' v) := fun v => by
    simpa only [dimmed_true] using alike_lookupIn hr (within_self hc) true kind names' l' v
  have hlookup : s.Outdoes c.method (types.collectM (c.lookupIn r kind names' l'))
      ((SetOf.single v).collectM ((c.choosing vs).lookupIn r kind names l)) :=
    outdoes_collectM_single (.collectM_left hone hv (outdoes_lookupIn hr hc hs hnames hl v))
  refine .some (hlookup.bind fun _ _ => outdoes_of_quiet ?_ ?_)
  · exact alike_orDefault (within_self hc) _
  · exact alike_orDefault (c := c.choosing vs) (within_self hc) _

theorem nameMember_type (c : CallSite) (r : Reporter) (categories : Categories) (index : Nat)
    (names : Option (List String)) (t : Token) :
    c.nameMember r categories index names (.type t) =
      (filtersOf names false).forM fun f => r.markMembers t categories f .reflectionLookup := by
  rw [forM_filtersOf]
  unfold nameMember
  cases names <;> rfl

include hr hs in
theorem outdoes_nameMember (categories : Categories) (index : Nat)
    {names names' : Option (List String)} (hnames : Broader names' names) (v : Value) :
    s.Outdoes c.method (c.nameMember r categories index names' v)
      ((c.choosing vs).nameMember r categories index names v) := by
  cases v with
  | null => exact outdoes_of_quiet (.pure ()) (.pure ())
  | type t =>
      rw [nameMember_type, nameMember_type]
      exact outdoes_markFiltered hr hs categories.covers_refl
        (fun _ hf => filtersOf_wider hnames id hf) t _
  | _ => exact outdoes_require hr hs categories.covers_refl (List.Subset.refl _) _

include hr hc hs hvs in
theorem outdoes_expressionMember? (member : ExpressionMember) :
    OutdoesRules s c.method (c.expressionMember? r member)
      ((c.choosing vs).expressionMember? r member) := by
  unfold expressionMember?
  rw [choosing_shapes]
  cases typeAndName? c.shapes with
  | none => exact .some (outdoes_of_quiet (quiet_default hc) (quiet_default (c := c.choosing vs) hc))
  | some index =>
      refine rel_bind (hvs.parameter? (index + 1)) ?_
      rintro names _ _ ⟨name, hname, rfl⟩
      refine rel_bind (hvs.parameter? index) ?_
      rintro types _ _ ⟨v, hv, rfl⟩
      refine .some (outdoes_thenDefault hc (outdoes_forEach (fun a => ?_) hv ?_))
      · simpa only [dimmed_true] using alike_nameMember hr true _ _ _ a
      · exact outdoes_nameMember hr hs _ _ (broader_constantTexts? hname) v

include hr hc hvs in
theorem outdoes_layout? : OutdoesRules s c.method (c.layout? r) ((c.choosing vs).layout? r) := by
  have hone : ∀ v, s.Plain c.method (markLayout r v) := fun v => by
    simpa only [dimmed_true] using alike_markLayout hr true v
  have hself : OutdoesRules s c.method (c.layout? r) (c.layout? r) := outdoesRules_of_alike <| by
    simpa only [dimmed_true] using alike_layout? hr (within_self hc) true
  unfold layout? at hself ⊢
  rw [choosing_shapes]
  cases hshape : c.shapes.findIdx? (· == .type) with
  | none =>
      -- the type is a generic argument of the callee, and no choice is made there
      rw [hshape] at hself
      exact hself
  | some index =>
      refine rel_map (hvs.parameter? index) ?_
      rintro types _ ⟨v, hv, rfl⟩
      exact outdoes_thenDefault hc (outdoes_forEach hone hv (hone v).outdoes)

/-! ## 6. Class constructors, expressions and generic arguments -/

include hr hc hvs in
theorem outdoes_runClassConstructor? :
    OutdoesRules s c.method (c.runClassConstructor? r) ((c.choosing vs).runClassConstructor? r) := by
  have hone : ∀ v, s.Plain c.method (classConstructorOf r v) := fun v => by
    simpa only [dimmed_true] using alike_classConstructorOf hr true v
  refine rel_map (hvs.parameter? 0) ?_
  rintro handles _ ⟨v, hv, rfl⟩
  exact outdoes_thenDefault hc (outdoes_forEach hone hv (hone v).outdoes)

include hr hc hs hvs in
theorem outdoes_expressionNew? :
    OutdoesRules s c.method (c.expressionNew? r) ((c.choosing vs).expressionNew? r) := by
  unfold expressionNew?
  rw [choosing_shapes]
  split
  · refine rel_map (hvs.parameter? 0) ?_
    rintro types _ ⟨v, hv, rfl⟩
    exact outdoes_thenDefault hc (outdoes_require hr hs (Categories.covers_refl _)
      (fun _ h => List.mem_singleton.mp h ▸ hv) _)
  · exact .some (outdoes_of_quiet (quiet_default hc) (quiet_default (c := c.choosing vs) hc))

include hr in
theorem outdoes_instantiate {m : MethodDef} (what : Intrinsic) {arguments : ValueSet} {w : Value}
    (hw : w ∈ arguments) (v : Value) :
    s.Outdoes m (instantiate r what arguments v) (instantiate r what (.single w) v) := by
  have hcheck : ∀ owner needs a, s.Plain m (checkArguments r what owner needs a) :=
    fun owner needs a => by simpa only [dimmed_true] using alike_checkArguments hr true what owner needs a
  unfold instantiate
  split
  · exact outdoes_of_quiet (.pure _) (.pure _)
  · next owner _ _ =>
    rw [hr.store]
    refine .ask (.askGenericNeeds owner) fun needs => ?_
    split
    · exact outdoes_of_quiet (.pure _) (.pure _)
    · exact outdoes_forM_single (.forM_left (hcheck owner needs) hw (hcheck owner needs w).outdoes)
  · exact (alike_reportSame hr _).outdoes

include hr hc hvs in
theorem outdoes_makeGeneric? (what : Intrinsic) :
    OutdoesRules s c.method (c.makeGeneric? r what) ((c.choosing vs).makeGeneric? r what) := by
  refine rel_bind (hvs.parameter? 0) ?_
  rintro arguments _ _ ⟨w, hw, rfl⟩
  refine rel_bind hvs.receiver? ?_
  rintro receivers _ _ ⟨v, hv, rfl⟩
  refine .some (outdoes_thenDefault hc (outdoes_forEach (fun a => ?_) hv ?_))
  · simpa only [dimmed_true] using alike_instantiate hr true what arguments a
  · exact outdoes_instantiate hr what hw v

include hr hc hs hvs in
/-- **The rules of the catalogue**, those for activations apart. -/
theorem outdoes_handle? {what : Intrinsic} (hwhat : what ≠ .createInstance)
    (hwhat' : what ≠ .createInstanceByName) :
    OutdoesRules s c.method (c.handle? r what) ((c.choosing vs).handle? r what) := by
  have hquiet : ∀ {o o' : Option (Act ValueSet)} {p p' : Option ValueSet}
      {f f' : ValueSet → Act ValueSet}, o = p.map f → o' = p'.map f' → Option.Rel Offered p p' →
      s.AlikeRules (· = c.method) (fun _ => False) o o →
      s.AlikeRules (· = c.method) (fun _ => False) o' o' → OutdoesRules s c.method o o' := by
    rintro _ _ p p' f f' rfl rfl hp h h'
    refine outdoesRules_of_quiet h h' ?_
    cases hp <;> rfl
  have hself := within_self hc
  have hself' : (c.choosing vs).Within s (· = c.method) := within_self (c := c.choosing vs) hc
  have hsame : ∀ what, OutdoesRules s c.method (c.handle? r what) (c.handle? r what) := fun what =>
    outdoesRules_of_alike <| by simpa only [dimmed_true] using alike_handle? hr hself true what
  cases what with
  | getType => exact outdoes_getType? hr hvs
  | typeFromHandle =>
      exact hquiet rfl rfl (hvs.parameter? 0) (alike_typeFromHandle? hself)
        (alike_typeFromHandle? hself')
  | typeHandle =>
      exact hquiet rfl rfl hvs.receiver? (alike_typeHandle? hself) (alike_typeHandle? hself')
  | objectGetType =>
      exact hquiet rfl rfl hvs.receiver? (alike_objectType? hself) (alike_objectType? hself')
  | baseType => exact hquiet rfl rfl hvs.receiver? (alike_baseType? hself) (alike_baseType? hself')
  | lookup kind named => exact outdoes_lookupMembers? hr hc hs hvs kind named
  | makeGenericType => exact outdoes_makeGeneric? hr hc hvs .makeGenericType
  | makeGenericMethod => exact outdoes_makeGeneric? hr hc hvs .makeGenericMethod
  | methodFromHandle =>
      exact hquiet rfl rfl (hvs.parameter? 0) (alike_methodFromHandle? hself)
        (alike_methodFromHandle? hself')
  | createInstance => exact absurd rfl hwhat
  | createInstanceByName => exact absurd rfl hwhat'
  | createInstanceGeneric => exact hsame .createInstanceGeneric
  | createInstanceFromAssembly => exact hsame .createInstanceFromAssembly
  | runClassConstructor => exact outdoes_runClassConstructor? hr hc hvs
  | expression member => exact outdoes_expressionMember? hr hc hs hvs member
  | expressionNew => exact outdoes_expressionNew? hr hc hs hvs
  | layout operation => exact outdoes_layout? hr hc hvs
  | emptyArray => exact .some (outdoes_of_quiet (.pure _) (.pure _))

end Rules

/-! ## 7. Merged calls -/

/-- **The rule for a call with merged arguments is conservative**: whatever a session remembers, it
    marks all that the rule for a choice marks, and reports something if that one does. -/
def Conservative (merged choice : Act ValueSet) : Prop :=
  ∀ session : Session, ∃ l k : Ledger, (merged.run session).2.ledger = session.ledger ++ l ∧
    (choice.run session).2.ledger = session.ledger ++ k ∧ l.Covers k

theorem conservative_of_outdoes {s : Store} {m : MethodDef} {o o' : Option (Act ValueSet)}
    (h : OutdoesRules s m o o') : Option.Rel Conservative o o' := by
  cases h with
  | none => exact .none
  | some h =>
      refine .some fun session => ?_
      obtain ⟨l, k, hl, hk, hcovers⟩ := h session session (.refl session)
      exact ⟨l, k, hl.ledger, hk.ledger, hcovers⟩

namespace Joined

/-- The members that a rule marks in a new session. -/
def marked (rule : Option (Act ValueSet)) : List Member :=
  match rule with
  | some rule => (rule.run {}).2.ledger.marks.map Mark.member
  | none => []

theorem marked_subset {o o' : Option (Act ValueSet)} (h : Option.Rel Conservative o o') :
    marked o' ⊆ marked o := by
  cases h with
  | none => exact List.Subset.refl _
  | @some merged choice h =>
      obtain ⟨l, k, hl, hk, hcovers⟩ := h {}
      show (choice.run {}).2.ledger.marks.map Mark.member ⊆ (merged.run {}).2.ledger.marks.map Mark.member
      rw [hl, hk]
      exact List.map_subset _ hcovers.marks

/-- A class with two methods, a public and a private constructor, and the parts of a library that
    look up methods and create instances. -/
def declarations : List Declaration :=
  [.type "lib" "System" "Type" 1 none, .type "lib" "System.Reflection" "BindingFlags" 0x101 none,
   .type "lib" "System.Reflection" "Binder" 1 none, .type "app" "N" "C" 1 none,
   .method ⟨0x02000004⟩ "First" 6 ⟨true, false, 0, .prim .void, []⟩,
   .method ⟨0x02000004⟩ "Second" 6 ⟨true, false, 0, .prim .void, []⟩,
   .method ⟨0x02000004⟩ ".ctor" 0x1806 ⟨true, false, 0, .prim .void, []⟩,
   .method ⟨0x02000004⟩ ".ctor" 0x1801 ⟨true, false, 0, .prim .void, [.prim .int32]⟩]

/-- A library method by its name and parameters. -/
def library (name : String) (hasThis : Bool) (params : List TypeSig) : MethodDef where
  token := ⟨0x06000010⟩
  declaring := ⟨0x02000001⟩
  name := name
  flags := if hasThis then 6 else 0x16
  sig := ⟨hasThis, false, 0, .prim .object, params⟩
  paramNames := []

/-- A call of a library method. -/
def site (callee : MethodDef) (arguments : List ValueSet) : CallSite where
  context := { store := .ofList declarations, config := {}, method := callee }
  offset := 0
  callee := { method := callee }
  arguments := arguments

/-- A method is looked up under one of two names. -/
def lookup : CallSite :=
  site (library "GetMethod" true [.prim .string])
    [.single (.type ⟨0x02000004⟩), ⟨[.string "First", .string "Second"]⟩]

end Joined

end CallSite

end ReflectionFlow

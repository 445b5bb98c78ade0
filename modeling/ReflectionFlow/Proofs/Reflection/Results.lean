/-
  File:      ReflectionFlow/Proofs/Reflection/Results.lean
  Subject:   What the rules of the catalogue return.

  Most rules end with the default result of the call.  The others return types, handles, methods,
  null, the unknown value or a new array, and unions of these.  So whatever a session remembers,
  an array that is returned has no elements, and the unknown value stands alone.  A rule may return
  no value at all; what the call then leaves on the stack is decided where calls are interpreted.

  * `Act.Yields`                  a condition on the answer of an action in every session
  * `SetOf.Returned`              the condition on the results of rules
  * `CallSite.returns_handle?`    every rule of the catalogue satisfies it
-/
import ReflectionFlow.Proofs.Session.Answers
import ReflectionFlow.Proofs.Value.Proper
import ReflectionFlow.Reflection.Handle

namespace ReflectionFlow

/-! ## 1. Answers -/

namespace Act

variable {α β : Type} {P : α → Prop} {Q : β → Prop} {x : Act α} {f : α → Act β}

/-- **The answer of an action satisfies a condition**, in every session. -/
def Yields (x : Act α) (P : α → Prop) : Prop := ∀ session, P (x.run session).1

theorem yields_pure {a : α} (h : P a) : Yields (pure a) P := fun _ => h

theorem Yields.bind (hx : Yields x P) (hf : ∀ a, P a → Yields (f a) Q) : Yields (x >>= f) Q := by
  intro session
  rw [run_bind]
  exact hf _ (hx session) _

/-- What is done first does not matter. -/
theorem yields_after (hf : ∀ a, Yields (f a) Q) : Yields (x >>= f) Q := by
  intro session
  rw [run_bind]
  exact hf _ _

end Act

open Act

/-- **The values that rules return**: arrays are among them only if they have no elements. -/
inductive Value.Result : Value → Prop where
  | plain {v : Value} (h : ∀ a, v ≠ .array a) : Result v
  | emptyArray (site : Site) : Result (.array (.fresh site (.single (.int 0))))

namespace SetOf

/-- **What rules return**: such values, and the unknown one alone; there may be none. -/
abbrev Returned (s : ValueSet) : Prop := s.From Value.Result

theorem returned_single {v : Value} (h : ∀ a, v ≠ .array a) : Returned (single v) :=
  (filled_single (.plain h)).toFrom

theorem returned_unknown : Returned unknown := returned_single nofun

variable {P : Value → Prop}

theorem yields_collectM {f : Value → Act ValueSet} (hf : ∀ v, Yields (f v) (From P))
    (values : ValueSet) : Yields (values.collectM f) (From P) := by
  unfold collectM
  have hacc : From P empty := from_empty
  generalize empty = acc at hacc
  induction values.members generalizing acc with
  | nil => exact yields_pure hacc
  | cons v l ih =>
      rw [List.foldlM_cons]
      refine Yields.bind (P := From P) ?_ ih
      exact (hf v).bind fun s hs => yields_pure (hacc.merge hs)

theorem yields_flatMapM {f : Value → Act ValueSet} (hf : ∀ v, Yields (f v) (From P))
    (values : ValueSet) : Yields (values.flatMapM f) (From P) := by
  unfold flatMapM
  have hacc : From P empty := from_empty
  generalize empty = acc at hacc
  induction values.members generalizing acc with
  | nil => exact yields_pure hacc
  | cons v l ih =>
      refine (hf v).bind fun s hs => ?_
      show Yields (if (acc.merge s).isUnknown then _ else _) _
      split
      · exact yields_pure (hacc.merge hs)
      · exact ih _ (hacc.merge hs)

end SetOf

open SetOf

/-! ## 2. Rules -/

namespace CallSite

/-- What a rule returns when it applies. -/
def Returns (rule : Option (Act ValueSet)) : Prop := ∀ x ∈ rule, Yields x Returned

variable {c : CallSite} {r : Reporter}

theorem returns_some {x : Act ValueSet} (h : Yields x Returned) : Returns (some x) :=
  fun _ hx => Option.some.inj hx ▸ h

theorem returns_map {α : Type} {f : α → Act ValueSet} (h : ∀ a, Yields (f a) Returned)
    (o : Option α) : Returns (o.map f) := by
  cases o with
  | none => exact nofun
  | some a => exact returns_some (h a)

theorem returns_bind {α : Type} {f : α → Option (Act ValueSet)} (h : ∀ a, Returns (f a))
    (o : Option α) : Returns (o >>= f) := by
  cases o with
  | none => exact nofun
  | some a => exact h a

theorem returned_returning (c : CallSite) (need : Categories) : (c.returning need).Returned :=
  returned_single nofun

theorem yields_defaultReturn (c : CallSite) : Yields c.defaultReturn Returned := by
  unfold defaultReturn
  split
  · exact yields_pure from_empty
  · split
    · exact yields_pure (returned_single nofun)
    · exact yields_after fun _ => yields_pure (c.returned_returning _)

theorem yields_orDefault {result : ValueSet} (h : result.Returned) :
    Yields (c.orDefault result) Returned := by
  unfold orDefault
  split
  · exact c.yields_defaultReturn
  · exact yields_pure h

theorem yields_thenDefault (x : Act Unit) : Yields (do x; c.defaultReturn) Returned :=
  yields_after fun _ => c.yields_defaultReturn

/-! ## 3. Types and handles -/

theorem yields_namedBy (v : Value) : Yields (c.namedBy r v) Returned := by
  have hunrecognized : Yields (namedBy.unrecognized r v) Returned :=
    yields_after fun _ => yields_pure returned_unknown
  unfold namedBy
  split
  · exact yields_pure from_empty
  · refine yields_after fun found => ?_
    cases found with
    | none => exact yields_pure from_empty
    | some tokens =>
        refine yields_after fun _ => yields_pure ?_
        cases tokens with
        | nil => exact from_empty
        | cons t _ => exact returned_single nofun
  · split
    · split
      · exact hunrecognized
      · exact yields_pure (c.returned_returning _)
    · exact hunrecognized

theorem returns_getType? : Returns (c.getType? r) := by
  unfold getType?
  split
  · refine returns_map (fun names => ?_) _
    refine (yields_collectM yields_namedBy names).bind fun found hfound => yields_pure ?_
    split
    · exact returned_single nofun
    · exact hfound
  · exact nofun

theorem returns_typeFromHandle? : Returns c.typeFromHandle? := by
  refine returns_map (yields_flatMapM fun v => ?_) _
  split
  · exact yields_pure (returned_single nofun)
  · exact yields_pure (returned_single nofun)
  · exact c.yields_defaultReturn

theorem returns_typeHandle? : Returns c.typeHandle? := by
  refine returns_map (yields_flatMapM fun v => ?_) _
  split
  · exact yields_pure (returned_single nofun)
  · exact yields_pure (returned_single nofun)
  · exact c.yields_defaultReturn

theorem returns_methodFromHandle? : Returns c.methodFromHandle? := by
  refine returns_map (yields_flatMapM fun v => ?_) _
  split
  · exact yields_pure (returned_single nofun)
  · exact c.yields_defaultReturn

theorem returns_objectType? : Returns c.objectType? := by
  refine returns_map (fun objects => ?_) _
  refine (yields_flatMapM (fun v => ?_) objects).bind fun _ => yields_orDefault
  split
  · exact yields_pure from_empty
  · split
    · exact yields_pure (returned_single nofun)
    · exact c.yields_defaultReturn

theorem yields_baseOf (v : Value) : Yields (c.baseOf v) Returned := by
  unfold baseOf
  split
  · split
    · split
      · exact yields_pure (returned_single nofun)
      · split
        · exact yields_pure (returned_single nofun)
        · exact c.yields_defaultReturn
    · exact c.yields_defaultReturn
  · split
    · split
      · exact c.yields_defaultReturn
      · exact yields_pure (c.returned_returning _)
    · exact c.yields_defaultReturn

/-! ## 4. Members and instances -/

theorem not_array_of_uniqueMatch? {kind : LookupKind} {found : List Member} {v : Value}
    (h : uniqueMatch? kind found = some v) : ∀ a, v ≠ .array a := by
  obtain ⟨k, _, h⟩ := Option.bind_eq_some_iff.mp h
  split at h
  · obtain rfl := Option.some.inj h
    split
    · exact nofun
    · exact nofun
  · cases h

theorem yields_lookupIn {kind : LookupKind} {names : LookupNames} {l : Lookup} (v : Value) :
    Yields (c.lookupIn r kind names l v) Returned := by
  unfold lookupIn
  split
  · exact yields_pure from_empty
  · split
    · unfold lookupOn
      split
      · refine yields_after fun _ => ?_
        split
        · next hmatch => exact yields_pure (returned_single (not_array_of_uniqueMatch? hmatch))
        · exact c.yields_defaultReturn
      · exact yields_thenDefault _
    · exact c.yields_defaultReturn
  · exact yields_thenDefault _

theorem returns_lookupMembers? {kind : LookupKind} {named : Bool} :
    Returns (c.lookupMembers? r kind named) := by
  refine returns_bind (fun _ => returns_bind (fun _ => returns_bind (fun types => ?_) _) _) _
  exact returns_some ((yields_collectM yields_lookupIn types).bind fun _ => yields_orDefault)

theorem returns_expressionMember? {member : ExpressionMember} :
    Returns (c.expressionMember? r member) := by
  unfold expressionMember?
  split
  · exact returns_some c.yields_defaultReturn
  · exact returns_bind (fun _ => returns_bind (fun _ => returns_some (yields_thenDefault _)) _) _

theorem returns_layout? : Returns (c.layout? r) := by
  unfold layout?
  split
  · exact returns_map (fun _ => yields_thenDefault _) _
  · refine returns_some ?_
    split
    · exact yields_after fun _ => yields_thenDefault _
    · exact c.yields_defaultReturn

theorem returns_createInstance? : Returns (c.createInstance? r) := by
  refine returns_bind (fun a => returns_bind (fun types => returns_some ?_) _) _
  refine yields_after fun created => ?_
  have hdeferred : (if created.contains .deferred then c.returning a.requirement
      else empty).Returned := by
    split
    · exact c.returned_returning _
    · exact from_empty
  dsimp only
  split
  · exact c.yields_defaultReturn.bind fun _ hs => yields_orDefault (hs.merge hdeferred)
  · exact (yields_pure from_empty).bind fun _ hs => yields_orDefault (hs.merge hdeferred)

theorem returns_expressionNew? : Returns (c.expressionNew? r) := by
  unfold expressionNew?
  split
  · exact returns_map (fun _ => yields_thenDefault _) _
  · exact returns_some c.yields_defaultReturn

theorem returned_emptyArray (c : CallSite) : c.emptyArray.Returned :=
  (filled_single (.emptyArray _)).toFrom

/-! ## 5. The catalogue -/

/-- **Every rule of the catalogue returns such values**, whatever it is told and whatever is
    remembered. -/
theorem returns_handle? (c : CallSite) (r : Reporter) (what : Intrinsic) :
    Returns (c.handle? r what) := by
  cases what with
  | getType => exact returns_getType?
  | typeFromHandle => exact returns_typeFromHandle?
  | typeHandle => exact returns_typeHandle?
  | objectGetType => exact returns_objectType?
  | baseType => exact returns_map (yields_flatMapM yields_baseOf) _
  | lookup kind named => exact returns_lookupMembers?
  | makeGenericType =>
      exact returns_bind (fun _ => returns_bind (fun _ => returns_some (yields_thenDefault _)) _) _
  | makeGenericMethod =>
      exact returns_bind (fun _ => returns_bind (fun _ => returns_some (yields_thenDefault _)) _) _
  | methodFromHandle => exact returns_methodFromHandle?
  | createInstance => exact returns_createInstance?
  | createInstanceByName =>
      exact returns_bind (fun _ => returns_bind (fun _ => returns_bind (fun _ =>
        returns_some (yields_thenDefault _)) _) _) _
  | createInstanceGeneric =>
      exact returns_map (fun _ => yields_after fun _ => yields_thenDefault _) _
  | createInstanceFromAssembly => exact returns_some (yields_thenDefault _)
  | runClassConstructor => exact returns_map (fun _ => yields_thenDefault _) _
  | expression member => exact returns_expressionMember?
  | expressionNew => exact returns_expressionNew?
  | layout operation => exact returns_layout?
  | emptyArray => exact returns_some (yields_pure c.returned_emptyArray)

end CallSite

end ReflectionFlow

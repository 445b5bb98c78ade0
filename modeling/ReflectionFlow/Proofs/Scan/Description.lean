/-
  File:      ReflectionFlow/Proofs/Scan/Description.lean
  Subject:   Value sets and states describe data and frames, and one instruction keeps that.

  A value set describes a datum if it is unknown or holds a value that stands for it: a constant,
  or a symbol for what the method was given.  A state describes a frame if it does so for all
  variables and, counted from the top, for all stack slots.  Scalar code puts no addresses on
  the stack, so operands are used as they are.

  * `Value.Stands`, `SetOf.Describes`, `State.Describes`
  * `State.Describes.of_covers`   what is described stays so in a state that knows less
  * `Scanner.describes_step`      what an instruction does to a frame is described by its step
  * `Scanner.returned_step`       only a return returns something
-/
import ReflectionFlow.Proofs.Scan.Execution
import ReflectionFlow.Proofs.Scan.Steps

namespace ReflectionFlow

/-! ## 1. Descriptions -/

/-- **The datum that a value stands for**, in a call with given arguments, the instance first. -/
def Value.Stands (m : MethodDef) (entry : Nat → Datum) : Value → Datum → Prop
  | .null, x => x = .null
  | .int n, x => x = .int n
  | .string s, x => x = .text s
  | .symbol (.this t) _ _, x => t = m.token ∧ m.hasThis = true ∧ x = entry 0
  | .symbol (.parameter t i) _ _, x => t = m.token ∧ x = entry (i.toNat + m.hasThis.toNat)
  | _, _ => False

/-- **A set describes a datum**: it is unknown or holds a value that stands for it. -/
def SetOf.Describes (m : MethodDef) (entry : Nat → Datum) (s : ValueSet) (x : Datum) : Prop :=
  s = .unknown ∨ ∃ v ∈ s, v.Stands m entry x

/-- **A state describes a frame**: variable by variable, and slot by slot from the top. -/
structure State.Describes (m : MethodDef) (entry : Nat → Datum) (s : State) (f : Frame) : Prop where
  locals : ∀ n, (s.vars.get (.loc n)).Describes m entry (f.locals n)
  args : ∀ n, (s.vars.get (.arg n)).Describes m entry (f.args n)
  stack : ∀ (i : Nat) (x : Datum), f.stack[i]? = some x →
    ∃ v, s.stack.fromTop[i]? = some v ∧ v.Describes m entry x

section Descriptions

variable {m : MethodDef} {entry : Nat → Datum}

theorem describes_unknown (x : Datum) : SetOf.Describes m entry .unknown x := Or.inl rfl

theorem describes_single {v : Value} {x : Datum} (h : v.Stands m entry x) :
    SetOf.Describes m entry (.single v) x :=
  Or.inr ⟨v, List.mem_cons_self, h⟩

theorem not_describes_empty (x : Datum) : ¬ SetOf.Describes m entry .empty x := by
  rintro (h | ⟨v, hv, _⟩)
  · cases h
  · cases hv

theorem describes_update {x : Datum} {v : ValueSet} (hv : v.Describes m entry x)
    {sets : UInt16 → ValueSet} {data : UInt16 → Datum}
    (h : ∀ n, (sets n).Describes m entry (data n)) (n j : UInt16) :
    SetOf.Describes m entry (if j = n then v else sets j) (Function.update data n x j) := by
  by_cases hj : j = n
  · subst hj
    rw [if_pos rfl, Function.update_self]
    exact hv
  · rw [if_neg hj, Function.update_of_ne hj]
    exact h j

/-- What a set describes, any set that covers it describes as well. -/
theorem SetOf.Describes.of_covers {s t : ValueSet} (hs : s.Canonical) (h : s.Covers t) {x : Datum}
    (ht : t.Describes m entry x) : s.Describes m entry x := by
  rcases ht with rfl | ⟨v, hv, hx⟩
  · exact Or.inl (hs.absorbing (SetOf.admits_unknown_iff.mp (h _ (SetOf.admits_unknown _))))
  · rcases h v (Or.inr hv) with hu | hm
    · exact Or.inl (hs.absorbing hu)
    · exact Or.inr ⟨v, hm, hx⟩

theorem State.Describes.of_covers {s t : State} (hs : s.Over SetOf.Canonical) (h : s.Covers t)
    {f : Frame} (ht : t.Describes m entry f) : s.Describes m entry f := by
  refine ⟨fun n => (ht.locals n).of_covers (hs.vars.get _) (h.vars.get _),
    fun n => (ht.args n).of_covers (hs.vars.get _) (h.vars.get _), fun i x hx => ?_⟩
  obtain ⟨v, hv, hd⟩ := ht.stack i x hx
  have hstack := h.stack
  have hslots := hs.slots
  revert hv hstack hslots
  cases t.stack with
  | top => exact fun hv => by cases hv
  | slots b =>
      cases s.stack with
      | top => exact fun _ hc => absurd hc id
      | slots a =>
          intro hv hc hq
          obtain ⟨hi, rfl⟩ : ∃ h : i < b.length, b[i] = v := List.getElem?_eq_some_iff.mp hv
          have hi' : i < a.length := Nat.lt_of_lt_of_le hi hc.1
          have hcov := hc.2 i
          rw [List.getElem?_eq_getElem hi', List.getElem?_eq_getElem hi] at hcov
          refine ⟨_, List.getElem?_eq_getElem hi', ?_⟩
          exact hd.of_covers (hq _ (List.getElem_mem hi')) hcov

theorem State.Describes.not_isTop {s : State} {f : Frame} (h : s.Describes m entry f) :
    s.isTop = false := by
  cases ht : s.isTop with
  | false => rfl
  | true =>
      have := h.locals 0
      rw [State.eq_top_of_isTop ht] at this
      exact absurd this (not_describes_empty _)

end Descriptions

/-! ## 2. Steps -/

/-- The values that scalar code handles: any but addresses. -/
def Value.Direct (v : Value) : Prop := v.isAddress = false

/-- Tidy states without addresses. -/
abbrev State.Direct (s : State) : Prop := s.Over (SetOf.Within Value.Direct)

theorem State.Direct.canonical {s : State} (h : s.Direct) : s.Over SetOf.Canonical :=
  h.mono fun _ h => h.toCanonical

theorem within_unknown : SetOf.Within Value.Direct .unknown := SetOf.within_single rfl

section Primitives

variable {m : MethodDef} {entry : Nat → Datum} {t : Trace} {v : ValueSet}

theorem Trace.describes_push {f : Frame} (h : t.state.Describes m entry f) {x : Datum}
    (hv : v.Describes m entry x) : (t.push v).state.Describes m entry (f.push x) := by
  refine ⟨h.locals, h.args, fun i y hy => ?_⟩
  cases i with
  | zero =>
      obtain rfl := Option.some.inj hy
      exact ⟨v, rfl, hv⟩
  | succ i => exact h.stack i y hy

theorem Trace.direct_push (h : t.state.Direct) (hv : v.Within Value.Direct) :
    (t.push v).state.Direct := by
  refine ⟨h.vars, fun w hw => ?_⟩
  rcases List.mem_cons.mp hw with rfl | hw
  · exact hv
  · exact h.slots w hw

theorem Trace.describes_pop {l a : UInt16 → Datum} {x : Datum} {r : List Datum}
    (h : t.state.Describes m entry ⟨l, a, x :: r⟩) (offset : Nat) :
    (t.pop offset).1.Describes m entry x ∧ (t.pop offset).2.state.Describes m entry ⟨l, a, r⟩ := by
  obtain ⟨w, hw, hx⟩ := h.stack 0 x rfl
  rcases t.pop_cases offset with ⟨u, q, hs, hp⟩ | ⟨hnil, _⟩
  · rw [hs] at hw
    obtain rfl := Option.some.inj hw
    rw [hp]
    refine ⟨hx, h.locals, h.args, fun i y hy => ?_⟩
    obtain ⟨z, hz, hy⟩ := h.stack (i + 1) y hy
    rw [hs] at hz
    exact ⟨z, hz, hy⟩
  · rw [hnil] at hw
    cases hw

theorem Trace.direct_pop (h : t.state.Direct) (offset : Nat) :
    (t.pop offset).1.Within Value.Direct ∧ (t.pop offset).2.state.Direct := by
  rcases t.pop_cases offset with ⟨u, q, hs, hp⟩ | ⟨_, hp⟩
  · have hq := h.slots
    rw [hs] at hq
    rw [hp]
    exact ⟨hq u List.mem_cons_self, h.vars, fun w hw => hq w (List.mem_cons_of_mem _ hw)⟩
  · rw [hp]
    exact ⟨within_unknown, h⟩

theorem Trace.describes_drop {l a : UInt16 → Datum} (taken : List Datum) {r : List Datum}
    (h : t.state.Describes m entry ⟨l, a, taken ++ r⟩) (offset : Nat) :
    (t.drop offset taken.length).state.Describes m entry ⟨l, a, r⟩ := by
  induction taken generalizing t with
  | nil => exact h
  | cons x taken ih =>
      rw [List.length_cons, drop_succ]
      exact ih (describes_pop h offset).2

theorem Trace.direct_drop (h : t.state.Direct) (offset count : Nat) :
    (t.drop offset count).state.Direct := by
  induction count generalizing t with
  | zero => exact h
  | succ count ih =>
      rw [drop_succ]
      exact ih (direct_pop h offset).2

theorem Trace.direct_set (h : t.state.Direct) (k : VarKey) (hv : v.Within Value.Direct) :
    (t.set k v).state.Direct :=
  ⟨h.vars.set k hv, h.slots⟩

theorem Trace.returned_pop (t : Trace) (offset : Nat) :
    (t.pop offset).2.returned = t.returned := by
  rcases t.pop_cases offset with ⟨u, q, _, hp⟩ | ⟨_, hp⟩
  · rw [hp]
  · rw [hp]
    rfl

theorem Trace.returned_drop (t : Trace) (offset count : Nat) :
    (t.drop offset count).returned = t.returned := by
  induction count generalizing t with
  | zero => rfl
  | succ count ih =>
      rw [drop_succ, ih]
      exact t.returned_pop offset

theorem Trace.returned_observeFlow (t : Trace) (offset : Nat) (v : ValueSet) (need : Categories)
    (place : Place) : (t.observeFlow offset v need place).returned = t.returned := by
  unfold Trace.observeFlow
  split <;> rfl

end Primitives

namespace Scanner

/-- No parameter of the method is passed by reference. -/
def ByValue (sc : Scanner) : Prop := ∀ t ∈ sc.params, t.isByRef = false

variable {sc : Scanner} {m : MethodDef} {entry : Nat → Datum} {t : Trace} {i : Instruction}

theorem dereference_eq {v : ValueSet} (s : State) (hv : v.Within Value.Direct) :
    sc.dereference s v = v := by
  unfold dereference
  rw [if_neg]
  intro h
  obtain ⟨w, hw, ha⟩ := List.any_eq_true.mp h
  rw [hv.members w hw] at ha
  cases ha

theorem popValue_eq (h : t.state.Direct) (offset : Nat) : sc.popValue t offset = t.pop offset := by
  unfold popValue
  exact Prod.ext (dereference_eq _ (Trace.direct_pop h offset).1) rfl

theorem loadArgument_eq (hsc : sc.ByValue) (s : State) (n : UInt16) :
    sc.loadArgument s n = s.vars.get (.arg n) := by
  unfold loadArgument
  split
  · next index _ =>
    split
    · next t hp => exact absurd (hsc _ (List.mem_of_getElem? hp)) Bool.noConfusion
    · rfl
  · rfl

theorem returned_observeArgument (offset : Nat) (n : UInt16) (v : ValueSet) (t : Trace) :
    (sc.observeArgument offset n v t).returned = t.returned := by
  unfold observeArgument
  split
  · exact t.returned_observeFlow _ _ _ _
  · split
    · exact t.returned_observeFlow _ _ _ _
    · rfl

theorem returned_stepReturn (hret : sc.method.sig.ret.isVoid = false) (i : Instruction) (t : Trace) :
    (sc.stepReturn i t).returned = t.returned ++ [(i.offset, (sc.popValue t i.offset).1)] := by
  have hclear : ∀ u : Trace, ((if u.state.stack.fromTop.isEmpty then u
      else u.observe i.offset (.fault .stackNotEmpty)).clear).returned = u.returned := by
    intro u
    split <;> rfl
  unfold stepReturn
  rw [hclear, hret]
  show ((sc.popValue t i.offset).2.observeFlow i.offset _ _ _).returned ++ _ = _
  rw [Trace.returned_observeFlow]
  exact congrArg (· ++ _) (t.returned_pop i.offset)

/-- Addresses do not come up. -/
theorem direct_step (hsc : sc.ByValue) (block : Nat) (a : Scalar) (h : t.state.Direct) :
    (sc.stepLocal block i t a.role).state.Direct := by
  obtain ⟨hv, hp⟩ := Trace.direct_pop h i.offset
  cases a with
  | skip => exact h
  | pushInt =>
      refine Trace.direct_push h (SetOf.within_single ?_)
      cases i.constant? <;> rfl
  | pushText =>
      refine Trace.direct_push h (SetOf.within_single ?_)
      unfold textOf?
      cases i.operand <;> rfl
  | pushNull => exact Trace.direct_push h (SetOf.within_single rfl)
  | duplicate => exact Trace.direct_push (Trace.direct_push hp hv) hv
  | discard => exact Trace.direct_drop h i.offset 1
  | loadLocal =>
      refine Trace.direct_push h ?_
      split
      · exact h.vars.get _
      · exact within_unknown
  | storeLocal =>
      show (sc.stepStoreLocal i t).state.Direct
      rw [stepStoreLocal_eq, popValue_eq h]
      split
      · exact Trace.direct_set hp _ hv
      · exact hp
  | loadArgument =>
      show (sc.stepLoadArgument i t).state.Direct
      unfold stepLoadArgument
      split
      · rw [loadArgument_eq hsc]
        exact Trace.direct_push h (h.vars.get _)
      · exact Trace.direct_push (t := t.observe _ _) h within_unknown
  | storeArgument =>
      show (sc.stepStoreArgument i t).state.Direct
      rw [stepStoreArgument_eq, popValue_eq h]
      split
      · rw [state_storeArgument]
        exact Trace.direct_set hp _ hv
      · exact hp
  | compute operands => exact Trace.direct_push (Trace.direct_drop h _ _) within_unknown
  | branch operands always => exact Trace.direct_drop h _ _
  | ret =>
      show (sc.stepReturn i t).state.Direct
      rw [state_stepReturn]
      exact ⟨h.vars, fun _ hw => absurd hw List.not_mem_nil⟩

/-- **One instruction keeps the description.** -/
theorem describes_step (hsc : sc.ByValue) (block : Nat) {a : Scalar} {f f' : Frame}
    (hact : Acts i a f f') (hd : t.state.Direct) (h : t.state.Describes m entry f) :
    (sc.stepLocal block i t a.role).state.Describes m entry f' := by
  cases hact with
  | skip => exact h
  | pushInt _ n hn =>
      refine Trace.describes_push h ?_
      rw [hn]
      exact describes_single rfl
  | pushText _ s hs =>
      refine Trace.describes_push h ?_
      unfold textOf?
      rw [hs]
      exact describes_single rfl
  | pushNull => exact Trace.describes_push h (describes_single rfl)
  | duplicate l a x r =>
      obtain ⟨hx, hr⟩ := Trace.describes_pop h i.offset
      exact Trace.describes_push (Trace.describes_push hr hx) hx
  | discard l a x r => exact Trace.describes_drop [x] h i.offset
  | loadLocal _ n hn =>
      refine Trace.describes_push h ?_
      rw [hn]
      exact h.locals n
  | storeLocal l a x r n hn =>
      obtain ⟨hx, hr⟩ := Trace.describes_pop h i.offset
      have hk := (Trace.direct_pop hd i.offset).2.vars.keyed
      show (sc.stepStoreLocal i t).state.Describes m entry _
      rw [stepStoreLocal_eq, hn, popValue_eq hd]
      refine ⟨fun j => ?_, fun j => ?_, hr.stack⟩
      · rw [Trace.get_set hk]
        simp only [VarKey.loc.injEq]
        exact describes_update hx hr.locals n j
      · rw [Trace.get_set hk, if_neg (by simp)]
        exact hr.args j
  | loadArgument _ n hn =>
      show (sc.stepLoadArgument i t).state.Describes m entry _
      unfold stepLoadArgument
      rw [hn]
      refine Trace.describes_push h ?_
      rw [loadArgument_eq hsc]
      exact h.args n
  | storeArgument l a x r n hn =>
      obtain ⟨hx, hr⟩ := Trace.describes_pop h i.offset
      have hk := (Trace.direct_pop hd i.offset).2.vars.keyed
      show (sc.stepStoreArgument i t).state.Describes m entry _
      rw [stepStoreArgument_eq, hn, popValue_eq hd]
      simp only [state_storeArgument]
      refine ⟨fun j => ?_, fun j => ?_, hr.stack⟩
      · rw [Trace.get_set hk, if_neg (by simp)]
        exact hr.locals j
      · rw [Trace.get_set hk]
        simp only [VarKey.arg.injEq]
        exact describes_update hx hr.args n j
  | compute l a taken r x =>
      exact Trace.describes_push (Trace.describes_drop taken h i.offset) (describes_unknown x)
  | branch l a taken r always => exact Trace.describes_drop taken h i.offset

/-- Only a return returns something, and it returns one set. -/
theorem returned_step (hret : sc.method.sig.ret.isVoid = false) (block : Nat) (a : Scalar)
    (i : Instruction) (t : Trace) : (sc.stepLocal block i t a.role).returned = t.returned ++
      if a = .ret then [(i.offset, (sc.popValue t i.offset).1)] else [] := by
  cases a with
  | ret => exact returned_stepReturn hret i t
  | storeLocal =>
      rw [if_neg (by decide), List.append_nil]
      show (sc.stepStoreLocal i t).returned = _
      rw [stepStoreLocal_eq]
      split <;> exact t.returned_pop i.offset
  | storeArgument =>
      rw [if_neg (by decide), List.append_nil]
      show (sc.stepStoreArgument i t).returned = _
      rw [stepStoreArgument_eq]
      split
      · exact (sc.returned_observeArgument _ _ _ _).trans (t.returned_pop i.offset)
      · exact t.returned_pop i.offset
  | loadArgument =>
      rw [if_neg (by decide), List.append_nil]
      show (sc.stepLoadArgument i t).returned = _
      unfold stepLoadArgument
      split <;> rfl
  | duplicate =>
      rw [if_neg (by decide), List.append_nil]
      exact t.returned_pop i.offset
  | discard =>
      rw [if_neg (by decide), List.append_nil]
      exact t.returned_drop i.offset 1
  | compute operands =>
      rw [if_neg (by simp), List.append_nil]
      exact t.returned_drop i.offset operands
  | branch operands always =>
      rw [if_neg (by simp), List.append_nil]
      exact t.returned_drop i.offset operands
  | skip => exact (List.append_nil _).symm
  | pushInt => exact (List.append_nil _).symm
  | pushText => exact (List.append_nil _).symm
  | pushNull => exact (List.append_nil _).symm
  | loadLocal => exact (List.append_nil _).symm

end Scanner

end ReflectionFlow

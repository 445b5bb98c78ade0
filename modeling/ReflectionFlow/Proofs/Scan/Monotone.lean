/-
  File:      ReflectionFlow/Proofs/Scan/Monotone.lean
  Subject:   Code that keeps to a range of values is monotone; steady code keeps to a finite one.

  Two interpretations of the same code are compared: if one starts in a state that covers the
  other's, it ends in such a state.  Comparing an interpretation with itself gives that states
  stay within a range of values.  The range of steady code is made of what is there on entry, of
  what each instruction brings in, and of what is read through addresses among these.

  * `SetOf.Above`, `State.Above`    cover, for sets and states over a range of values
  * `Scanner.Range`                 a range that reading through addresses does not leave
  * `Scanner.supplied`              the values that an instruction brings in
  * `Scanner.Tame`                  instructions that do not leave a range
  * `Scanner.above_quiet`           one step; `Scanner.monotone_quietVisit` a visit
  * `Scanner.supplied_origin`       where the values come from that an instruction brings in
  * `Scanner.Brought`               the range of steady code; `Scanner.finite_brought`
-/
import Mathlib.Data.FinEnum
import Mathlib.Data.Set.Finite.Basic
import Mathlib.Data.Set.Finite.Range
import ReflectionFlow.Proofs.Scan.Depth
import ReflectionFlow.Proofs.Scan.Steady

namespace ReflectionFlow

/-! ## 1. Roles, values and sets -/

/-- Does an instruction of the role store or clear what an address refers to? -/
def Role.storesThrough : Role → Bool
  | .storeIndirect | .clearIndirect => true
  | _ => false

/-- Does an instruction of the role expect an array, or create one? -/
def Role.usesArrays : Role → Bool
  | .newArray | .arrayLength | .elementAddress | .loadElement | .storeElement => true
  | _ => false

/-- Values that are no arrays and no addresses of fields or of elements. -/
def Value.Plain : Value → Prop
  | .array _ | .address (.field _) | .address (.element _ _) => False
  | _ => True

theorem Value.Plain.inert {v : Value} (h : v.Plain) : v.Inert := by
  cases v with
  | array a => exact h
  | address l =>
      cases l with
      | field f => exact h
      | _ => trivial
  | _ => trivial

/-- One set covers another, both over a range of values. -/
structure SetOf.Above (U : Value → Prop) (s t : ValueSet) : Prop where
  left : s.Within U
  right : t.Within U
  covers : s.Covers t

namespace SetOf

variable {U : Value → Prop}

theorem Within.above {s : ValueSet} (h : s.Within U) : s.Above U s := ⟨h, h, .refl s⟩

theorem above_unknown (hU : U .unknown) : Above U unknown unknown := (within_single hU).above

/-- Images of sets that cover each other do so as well. -/
theorem Above.flatMap {s t : ValueSet} {f g : Value → ValueSet} (h : s.Above U t)
    (hfg : ∀ v, U v → (f v).Above U (g v)) (hf : (f .unknown).isUnknown = true) :
    (s.flatMap f).Above U (t.flatMap g) :=
  ⟨within_flatMap fun v hv => (hfg v (h.left.members v hv)).left,
    within_flatMap fun v hv => (hfg v (h.right.members v hv)).right,
    h.covers.flatMap (fun v hv => (hfg v (h.right.members v hv)).covers) hf⟩

end SetOf

/-! ## 2. States -/

/-- One state covers another that has a stack, both over a range of values. -/
structure State.Above (U : Value → Prop) (s t : State) : Prop where
  left : s.Over (SetOf.Within U)
  right : t.Over (SetOf.Within U)
  covers : s.Covers t
  present : t.stack ≠ .top

namespace State

variable {U : Value → Prop} {s t : State}

theorem Over.above (h : s.Over (SetOf.Within U)) (hp : s.stack ≠ .top) : s.Above U s :=
  ⟨h, h, .refl s, hp⟩

theorem Above.get (h : s.Above U t) (k : VarKey) : (s.vars.get k).Above U (t.vars.get k) :=
  ⟨h.left.vars.get k, h.right.vars.get k, h.covers.vars.get k⟩

/-- The stacks of both states, compared slot by slot. -/
theorem Above.slots (h : s.Above U t) : ∃ a b, s.stack = .slots a ∧ t.stack = .slots b ∧
    b.length ≤ a.length ∧ ∀ i : Nat, (a[i]?.getD .unknown).Covers (b[i]?.getD .unknown) := by
  have hc := h.covers.stack
  cases hb : t.stack with
  | top => exact absurd hb h.present
  | slots b =>
      rw [hb] at hc
      cases ha : s.stack with
      | top => rw [ha] at hc; exact absurd hc id
      | slots a =>
          rw [ha] at hc
          exact ⟨a, b, rfl, rfl, hc⟩

/-- States over a range hold no versions of an array if the range has none. -/
theorem versions_eq_nil (h : s.Over (SetOf.Within U)) {site : Site}
    (hU : ∀ a, U (.array a) → a.site ≠ site) : s.versions site = [] := by
  unfold versions
  refine List.foldlRecOn (motive := fun l : List ArrayValue => l = []) _ _ rfl fun l hl v hv => ?_
  have hUv : U v := by
    obtain ⟨w, hw, hvw⟩ := List.mem_flatMap.mp hv
    rcases List.mem_append.mp hw with hw | hw
    · exact (h.slots w (List.mem_reverse.mp hw)).members v hvw
    · obtain ⟨e, he, rfl⟩ := List.mem_map.mp hw
      exact (h.vars.entries e he).members v hvw
  split
  · next a =>
    rw [if_neg (by simp [hU a hUv])]
    exact hl
  · exact hl

end State

namespace Trace

variable {U : Value → Prop} {t u : Trace} {v w : ValueSet}

theorem pop_slots {l : List ValueSet} (h : t.state.stack = .slots l) (offset : Nat) :
    (t.pop offset).1 = l[0]?.getD .unknown ∧
      (t.pop offset).2.state = ⟨t.state.vars, .slots l.tail⟩ := by
  rcases t.pop_cases offset with ⟨x, r, hs, hp⟩ | ⟨hnil, hp⟩
  · obtain rfl := Stack.slots.inj (h.symm.trans hs)
    rw [hp]
    exact ⟨rfl, rfl⟩
  · rw [h] at hnil
    obtain rfl : l = [] := hnil
    rw [hp]
    refine ⟨rfl, ?_⟩
    show t.state = ⟨t.state.vars, .slots []⟩
    rw [← h]

theorem above_push (h : t.state.Above U u.state) (hv : v.Above U w) :
    (t.push v).state.Above U (u.push w).state := by
  obtain ⟨a, b, ha, hb, hlen, hslot⟩ := h.slots
  have hpush : ∀ {x : Trace} {y : ValueSet}, x.state.Over (SetOf.Within U) → y.Within U →
      (x.push y).state.Over (SetOf.Within U) := by
    intro x y hx hy
    refine ⟨hx.vars, fun z hz => ?_⟩
    rcases List.mem_cons.mp hz with rfl | hz
    · exact hy
    · exact hx.slots z hz
  refine ⟨hpush h.left hv.left, hpush h.right hv.right, ⟨h.covers.vars, ?_⟩, fun hc => by cases hc⟩
  show (t.state.stack.push v).Covers (u.state.stack.push w)
  rw [ha, hb]
  refine ⟨Nat.succ_le_succ hlen, fun i => ?_⟩
  cases i with
  | zero => exact hv.covers
  | succ i => exact hslot i

theorem above_pop (hU : U .unknown) (h : t.state.Above U u.state) (o o' : Nat) :
    (t.pop o).1.Above U (u.pop o').1 ∧ (t.pop o).2.state.Above U (u.pop o').2.state := by
  obtain ⟨a, b, ha, hb, hlen, hslot⟩ := h.slots
  obtain ⟨hv, hs⟩ := pop_slots ha o
  obtain ⟨hw, hr⟩ := pop_slots hb o'
  have hla : ∀ x ∈ a, x.Within U := fun x hx => h.left.slots x (by rw [ha]; exact hx)
  have hlb : ∀ x ∈ b, x.Within U := fun x hx => h.right.slots x (by rw [hb]; exact hx)
  have htop : ∀ {l : List ValueSet}, (∀ x ∈ l, x.Within U) → (l[0]?.getD SetOf.unknown).Within U := by
    intro l hl
    cases l with
    | nil => exact SetOf.within_single hU
    | cons x l => exact hl x List.mem_cons_self
  rw [hv, hs, hw, hr]
  refine ⟨⟨htop hla, htop hlb, hslot 0⟩, ⟨h.left.vars, fun x hx => hla x (List.mem_of_mem_tail hx)⟩,
    ⟨h.right.vars, fun x hx => hlb x (List.mem_of_mem_tail hx)⟩, ⟨h.covers.vars, ?_⟩,
    fun hc => by cases hc⟩
  refine ⟨?_, fun i => ?_⟩
  · rw [List.length_tail, List.length_tail]
    omega
  · rw [List.getElem?_tail, List.getElem?_tail]
    exact hslot (i + 1)

theorem above_drop (hU : U .unknown) (h : t.state.Above U u.state) (offset count : Nat) :
    (t.drop offset count).state.Above U (u.drop offset count).state := by
  induction count generalizing t u with
  | zero => exact h
  | succ count ih =>
      rw [drop_succ, drop_succ]
      exact ih (above_pop hU h offset offset).2

theorem above_set (h : t.state.Above U u.state) (k : VarKey) (hv : v.Above U w) :
    (t.set k v).state.Above U (u.set k w).state :=
  ⟨⟨h.left.vars.set k hv.left, h.left.slots⟩, ⟨h.right.vars.set k hv.right, h.right.slots⟩,
    ⟨h.covers.vars.set h.left.vars.keyed h.right.vars.keyed k hv.covers, h.covers.stack⟩, h.present⟩

theorem above_clear (h : t.state.Above U u.state) : t.clear.state.Above U u.clear.state :=
  ⟨⟨h.left.vars, fun _ hx => absurd hx List.not_mem_nil⟩,
    ⟨h.right.vars, fun _ hx => absurd hx List.not_mem_nil⟩, ⟨h.covers.vars, .refl _⟩,
    fun hc => by cases hc⟩

end Trace

/-! ## 3. Reading -/

namespace Scanner

/-- **A range of values that reading through addresses does not leave.**  An address of an element
    reads as unknown, because no array of the range is the one that it refers to. -/
structure Range (sc : Scanner) (U : Value → Prop) : Prop where
  unknown : U .unknown
  apart : ∀ site n a, U (.address (.element site (some n))) → U (.array a) → a.site ≠ site
  fields : ∀ f, U (.address (.field f)) → (sc.loadField f).Within U
  parameters : ∀ n : UInt16, U (sc.parameterValue n.toNat)
  targets : ∀ n : UInt16, U (.address (.parameterTarget n))

/-- A range without arrays. -/
structure Universe (sc : Scanner) (U : Value → Prop) : Prop where
  unknown : U .unknown
  arrays : ∀ a, ¬ U (.array a)
  fields : ∀ f, U (.address (.field f)) → (sc.loadField f).Within U
  parameters : ∀ n : UInt16, U (sc.parameterValue n.toNat)
  targets : ∀ n : UInt16, U (.address (.parameterTarget n))

variable {sc : Scanner} {U : Value → Prop} {x y : State} {t u : Trace} {v w : ValueSet}

theorem Universe.range (h : sc.Universe U) : sc.Range U where
  unknown := h.unknown
  apart _ _ a _ ha := absurd ha (h.arrays a)
  fields := h.fields
  parameters := h.parameters
  targets := h.targets

/-- Of an array that the state does not hold, and at an index that is not known, nothing is known. -/
theorem read_element_unknown {site : Site} {index : Option Int32}
    (h : ∀ n, index = some n → x.versions site = []) : sc.read x (.element site index) = .unknown := by
  cases index with
  | none =>
      simp only [read]
      cases mergeVersions? (x.versions site) <;> rfl
  | some n =>
      simp only [read, h n rfl]
      rfl

theorem above_read (hsc : sc.Range U) (h : x.Above U y) {l : Location} (hl : U (.address l)) :
    (sc.read x l).Above U (sc.read y l) := by
  cases l with
  | loc n => exact h.get _
  | arg n => exact h.get _
  | this => exact h.get _
  | field f => exact (hsc.fields f hl).above
  | element site index =>
      have heq : ∀ {s : State}, s.Over (SetOf.Within U) →
          sc.read s (.element site index) = .unknown := by
        intro s hs
        refine read_element_unknown fun n hn => State.versions_eq_nil hs fun a => ?_
        exact hsc.apart site n a (hn ▸ hl)
      rw [heq h.left, heq h.right]
      exact SetOf.above_unknown hsc.unknown
  | parameterTarget n => exact (SetOf.within_single (hsc.parameters n)).above
  | returnSlot m => exact SetOf.above_unknown hsc.unknown

/-- Without addresses there is nothing to replace, so replacing is always an image. -/
theorem dereference_eq_flatMap (hv : v.Canonical) (s : State) :
    sc.dereference s v = v.flatMap fun
      | .address l => sc.read s l
      | w => .single w := by
  unfold dereference
  split
  · rfl
  · next hnone =>
    have hsingle : ∀ w ∈ v.members, (match w with
        | .address l => sc.read s l
        | w => SetOf.single w) = .single w := by
      intro w hw
      cases w with
      | address l => exact absurd (List.any_eq_true.mpr ⟨_, hw, rfl⟩) hnone
      | _ => rfl
    refine hv.ext (SetOf.canonical_flatMap fun w hw => ?_) fun z => ?_
    · rw [hsingle w hw]
      exact SetOf.canonical_single w
    · rw [SetOf.admits_flatMap, SetOf.admits_iff_exists]
      refine exists_congr fun w => and_congr_right fun hw => ?_
      rw [hsingle w hw, SetOf.admits_single]

theorem above_dereference (hsc : sc.Range U) (h : x.Above U y) (hv : v.Above U w) :
    (sc.dereference x v).Above U (sc.dereference y w) := by
  rw [dereference_eq_flatMap hv.left.toCanonical, dereference_eq_flatMap hv.right.toCanonical]
  refine hv.flatMap (fun z hz => ?_) rfl
  cases z with
  | address l => exact above_read hsc h hz
  | _ => exact (SetOf.within_single hz).above

theorem above_readThrough (hsc : sc.Range U) (h : x.Above U y) (hv : v.Above U w) :
    (sc.readThrough x v).Above U (sc.readThrough y w) := by
  refine hv.flatMap (fun z hz => ?_) rfl
  cases z with
  | address l => exact above_read hsc h hz
  | _ => exact SetOf.above_unknown hsc.unknown

/-- What is read from arrays is unknown where there are none. -/
theorem above_flatMap_unknown (hU : U .unknown) (hnone : ∀ a, ¬ U (.array a)) (hv : v.Above U w)
    {f g : Value → ValueSet}
    (hf : ∀ z, (∀ a, z ≠ .array a) → f z = .unknown)
    (hg : ∀ z, (∀ a, z ≠ .array a) → g z = .unknown) :
    (v.flatMap f).Above U (w.flatMap g) := by
  refine hv.flatMap (fun z hz => ?_) ?_
  · have hza : ∀ a, z ≠ .array a := fun a ha => hnone a (ha ▸ hz)
    rw [hf z hza, hg z hza]
    exact SetOf.above_unknown hU
  · rw [hf .unknown fun _ h => by cases h]
    rfl

theorem above_loadArgument (hsc : sc.Range U) (h : x.Above U y) (n : UInt16) :
    (sc.loadArgument x n).Above U (sc.loadArgument y n) := by
  unfold loadArgument
  cases sc.parameterIndex? n with
  | none => exact h.get _
  | some index =>
      dsimp only
      cases sc.params[index]? with
      | none => exact h.get _
      | some ty =>
          cases ty with
          | byRef _ => exact (SetOf.within_single (hsc.targets _)).above
          | _ => exact h.get _

theorem above_popValue (hsc : sc.Range U) (h : t.state.Above U u.state) (offset : Nat) :
    (sc.popValue t offset).1.Above U (sc.popValue u offset).1 ∧
      (sc.popValue t offset).2.state.Above U (sc.popValue u offset).2.state := by
  obtain ⟨hv, hs⟩ := Trace.above_pop hsc.unknown h offset offset
  exact ⟨above_dereference hsc hs hv, hs⟩

theorem above_popElement (hsc : sc.Range U) (h : t.state.Above U u.state) (i : Instruction) :
    (sc.popElement i t).1.Above U (sc.popElement i u).1 ∧
      (sc.popElement i t).2.2.state.Above U (sc.popElement i u).2.2.state :=
  above_popValue hsc (above_popValue hsc h i.offset).2 i.offset

theorem storeElement_eq (hnone : ∀ a, ¬ U (.array a)) {array : ValueSet} (h : array.Within U)
    (block : Nat) (index v : ValueSet) (t : Trace) : sc.storeElement block array index v t = t := by
  have hnil : arraysOf array = [] := by
    refine List.filterMap_eq_nil_iff.mpr fun z hz => ?_
    cases z with
    | array a => exact absurd (h.members _ hz) (hnone a)
    | _ => rfl
  unfold storeElement
  rw [hnil]
  rfl

/-! ## 4. Steps -/

/-- What a call of a known method leaves, if it leaves anything. -/
def leftBy (sc : Scanner) (session : Session) (i : Instruction) (callee : MethodRef)
    (constructs : Bool) : ValueSet :=
  if (sc.returnedBy session i callee constructs).isEmpty then .unknown
  else sc.returnedBy session i callee constructs

/-- **The values that an instruction brings in** by itself. -/
def supplied (sc : Scanner) (session : Session) (i : Instruction) : ValueSet :=
  match i.opcode.role with
  | .argumentAddress => orUnknown (i.argumentIndex?.map sc.argumentAddress)
  | .localAddress => orUnknown (i.localIndex?.map fun n => .address (.loc n))
  | .loadNull => .single .null
  | .loadInt => orUnknown (i.constant?.map .int)
  | .loadString => orUnknown (textOf? i)
  | .loadField _ => match i.token? with
    | some f => sc.loadField f
    | none => .unknown
  | .fieldAddress _ => orUnknown (i.token?.map fun f => .address (.field f))
  | .loadToken => .single ((sc.tokenValue i.token?).run session).1
  | .call => match sc.target? i .call with
    | some callee => sc.leftBy session i callee false
    | none => .unknown
  | _ => .unknown

/-- **Instructions that are monotone on the states over a range**: they bring in nothing that is not
    in it, and instructions for arrays and addresses do not come upon any. -/
structure Tame (sc : Scanner) (session : Session) (U : Value → Prop) (i : Instruction) : Prop where
  supplied : (sc.supplied session i).Within U
  direct : i.opcode.role.storesThrough = false
  allocatesNot : i.opcode.role ≠ .newArray
  arrays : i.opcode.role.usesArrays = true → ∀ a, ¬ U (.array a)

variable {session : Session} {answers : Answers} {block : Nat} {i : Instruction}

/-- Steady instructions are tame in a range without arrays. -/
theorem Steady.tame (hi : sc.Steady answers i) (hsc : sc.Universe U)
    (hsup : (sc.supplied session i).Within U) : sc.Tame session U i := by
  unfold Steady at hi
  refine ⟨hsup, ?_, fun hr => by rw [hr] at hi; exact hi, fun _ => hsc.arrays⟩
  cases hr : i.opcode.role with
  | storeIndirect | clearIndirect =>
      rw [hr] at hi
      exact absurd hi id
  | _ => rfl

theorem above_takeOperands (hsc : sc.Range U) (h : t.state.Above U u.state) (offset : Nat)
    (callee : MethodRef) (constructs : Bool) :
    (sc.takeOperands offset callee constructs t).2.2.state.Above U
      (sc.takeOperands offset callee constructs u).2.2.state := by
  have hdrop := Trace.above_drop hsc.unknown h offset callee.instantiated.params.length
  unfold takeOperands
  cases constructs with
  | true => exact hdrop
  | false =>
      cases callee.method.hasThis with
      | false => exact hdrop
      | true => exact (Trace.above_pop hsc.unknown hdrop offset offset).2

theorem above_opaqueCall (hsc : sc.Range U) (h : t.state.Above U u.state) (role : Role) :
    (sc.opaqueCall i role t).state.Above U (sc.opaqueCall i role u).state := by
  have hU := SetOf.above_unknown hsc.unknown
  have hdrop := Trace.above_drop hsc.unknown h i.offset (role == .callIndirect).toNat
  unfold opaqueCall
  cases i.token?.bind sc.context.store.callSite? with
  | none =>
      have hclear := Trace.above_clear hdrop
      cases role == Role.construct with
      | false => exact hclear
      | true => exact Trace.above_push hclear hU
  | some sig =>
      have hdrop' := Trace.above_drop hsc.unknown hdrop i.offset
        (if role == .construct then sig.params.length else sig.stackArguments)
      cases hl : role == Role.construct || !sig.ret.isVoid with
      | false =>
          simp only [hl]
          exact hdrop'
      | true =>
          simp only [hl]
          exact Trace.above_push hdrop' hU

theorem above_quietCall (hsc : sc.Range U) (h : t.state.Above U u.state) {role : Role}
    (hleft : ∀ callee, sc.target? i role = some callee →
      (sc.leftBy session i callee (role == .construct)).Within U) :
    (sc.quietCall session i role t).state.Above U (sc.quietCall session i role u).state := by
  unfold quietCall
  cases ht : sc.target? i role with
  | none => exact above_opaqueCall hsc h role
  | some callee =>
      have htake := above_takeOperands hsc h i.offset callee (role == .construct)
      show (leave callee (role == .construct) _ _).state.Above U
        (leave callee (role == .construct) _ _).state
      unfold leave
      cases role == .construct || !callee.instantiated.ret.isVoid with
      | false => exact htake
      | true => exact Trace.above_push htake (hleft callee ht).above

/-- **A tame instruction is monotone** and does not leave the range. -/
theorem above_quiet (hsc : sc.Range U) (hi : sc.Tame session U i) (h : t.state.Above U u.state) :
    (sc.quiet session block t i).state.Above U (sc.quiet session block u i).state := by
  have hU := SetOf.above_unknown hsc.unknown
  have hsup := hi.supplied
  obtain ⟨hv, hpop⟩ := Trace.above_pop hsc.unknown h i.offset i.offset
  have hval := (above_popValue hsc h i.offset).1
  obtain ⟨hel, hpop₂⟩ := above_popElement hsc h i
  have hdrop := Trace.above_drop hsc.unknown h i.offset
  unfold quiet
  unfold supplied at hsup
  cases hr : i.opcode.role with
  | consume pops leavesResult =>
      cases leavesResult with
      | false => exact hdrop pops
      | true => exact Trace.above_push (hdrop pops) hU
  | unwind pops => exact Trace.above_clear (hdrop pops)
  | duplicate => exact Trace.above_push (Trace.above_push hpop hv) hv
  | loadArgument =>
      show (sc.stepLoadArgument i t).state.Above U (sc.stepLoadArgument i u).state
      unfold stepLoadArgument
      cases i.argumentIndex? with
      | none => exact Trace.above_push (t := t.observe _ _) (u := u.observe _ _) h hU
      | some n => exact Trace.above_push h (above_loadArgument hsc h n)
  | storeArgument =>
      show (sc.stepStoreArgument i t).state.Above U (sc.stepStoreArgument i u).state
      rw [stepStoreArgument_eq, stepStoreArgument_eq]
      cases i.argumentIndex? with
      | none => exact hpop
      | some n =>
          simp only [state_storeArgument]
          exact Trace.above_set hpop _ hval
  | loadLocal =>
      refine Trace.above_push h ?_
      cases i.localIndex? with
      | none => exact hU
      | some n => exact h.get _
  | storeLocal =>
      show (sc.stepStoreLocal i t).state.Above U (sc.stepStoreLocal i u).state
      rw [stepStoreLocal_eq, stepStoreLocal_eq]
      cases i.localIndex? with
      | none => exact hpop
      | some n => exact Trace.above_set hpop _ hval
  | argumentAddress | localAddress | loadNull | loadInt | loadString | loadToken =>
      rw [hr] at hsup
      exact Trace.above_push h hsup.above
  | call =>
      refine above_quietCall hsc h fun callee ht => ?_
      simp only [hr, ht] at hsup
      exact hsup
  | construct => exact above_quietCall hsc h fun _ _ => hU.left
  | callIndirect => exact above_quietCall hsc h fun _ ht => by cases ht
  | ret =>
      show (sc.stepReturn i t).state.Above U (sc.stepReturn i u).state
      rw [state_stepReturn, state_stepReturn]
      exact Trace.above_clear h
  | loadIndirect => exact Trace.above_push hpop (above_readThrough hsc hpop hv)
  | storeIndirect | clearIndirect => exact absurd hi.direct (by rw [hr]; decide)
  | box => exact Trace.above_push hpop hval
  | cast =>
      show (sc.stepCast i t).state.Above U (sc.stepCast i u).state
      rw [stepCast_eq, stepCast_eq]
      refine Trace.above_push ?_ hval
      cases i.token? with
      | none => exact hpop
      | some target => exact hpop
  | loadField ofInstance | fieldAddress ofInstance =>
      rw [hr] at hsup
      exact Trace.above_push (hdrop _) hsup.above
  | storeField ofInstance =>
      have hrest := Trace.above_drop hsc.unknown hpop i.offset ofInstance.toNat
      show (sc.stepStoreField i ofInstance t).state.Above U (sc.stepStoreField i ofInstance u).state
      rw [stepStoreField_eq, stepStoreField_eq]
      cases i.token? with
      | none => exact hrest
      | some f =>
          simp only [state_storeField]
          exact hrest
  | newArray => exact absurd hr hi.allocatesNot
  | arrayLength =>
      have hnone := hi.arrays (by rw [hr]; rfl)
      refine Trace.above_push hpop (above_flatMap_unknown hsc.unknown hnone hval ?_ ?_)
      · exact fun z hz => by cases z <;> first | rfl | exact absurd rfl (hz _)
      · exact fun z hz => by cases z <;> first | rfl | exact absurd rfl (hz _)
  | elementAddress =>
      have hnone := hi.arrays (by rw [hr]; rfl)
      refine Trace.above_push hpop₂ (above_flatMap_unknown hsc.unknown hnone hel ?_ ?_)
      · exact fun z hz => by cases z <;> first | rfl | exact absurd rfl (hz _)
      · exact fun z hz => by cases z <;> first | rfl | exact absurd rfl (hz _)
  | loadElement =>
      have hnone := hi.arrays (by rw [hr]; rfl)
      refine Trace.above_push hpop₂ (above_flatMap_unknown hsc.unknown hnone hel ?_ ?_)
      · exact fun z hz => by cases z <;> first | rfl | exact absurd rfl (hz _)
      · exact fun z hz => by cases z <;> first | rfl | exact absurd rfl (hz _)
  | storeElement =>
      have hnone := hi.arrays (by rw [hr]; rfl)
      obtain ⟨hel', hpop₃⟩ := above_popElement hsc (above_popValue hsc h i.offset).2 i
      show (sc.stepStoreElement block i t).state.Above U (sc.stepStoreElement block i u).state
      rw [stepStoreElement_eq, stepStoreElement_eq, storeElement_eq hnone hel'.left,
        storeElement_eq hnone hel'.right]
      exact hpop₃

/-! ## 5. Visits -/

theorem above_foldl_quiet (hsc : sc.Range U) {code : List Instruction}
    (hcode : ∀ i ∈ code, sc.Tame session U i)
    (h : t.state.Above U u.state) :
    (code.foldl (sc.quiet session block) t).state.Above U
      (code.foldl (sc.quiet session block) u).state := by
  induction code generalizing t u with
  | nil => exact h
  | cons i rest ih =>
      have hstep : (sc.quiet session block t i).state.Above U (sc.quiet session block u i).state :=
        above_quiet hsc (hcode i List.mem_cons_self) h
      exact ih (fun j hj => hcode j (List.mem_cons_of_mem _ hj)) hstep

/-- **Visits of tame code are monotone** on the states over a range of values that have a stack
    where they have been reached. -/
theorem monotone_quietVisit (hsc : sc.Range U) {g : FlowGraph} {body : Body}
    (hb : ∀ i ∈ body.instructions, sc.Tame session U i) :
    MonotoneOn (fun s : State => s.Over (SetOf.Within U) ∧ s.Whole) State.Covers
      (sc.quietVisit session g body) := by
  have hvisit : ∀ (b : Nat) (x y : State), x.entered.Above U y.entered →
      (sc.quietVisit session g body b x).Above U (sc.quietVisit session g body b y) :=
    fun b x y h => above_foldl_quiet (t := { state := x.entered }) (u := { state := y.entered }) hsc
      (fun i hi => hb i (FlowGraph.mem_of_mem_codeOf hi)) h
  constructor
  · rintro b ⟨v, k⟩ ⟨hx, _⟩
    have hent : State.Above U (State.entered ⟨v, k⟩) (State.entered ⟨v, k⟩) := by
      cases k with
      | top => exact State.Over.above ⟨hx.vars, fun _ h => absurd h List.not_mem_nil⟩ (fun h => by cases h)
      | slots l => exact State.Over.above hx fun h => by cases h
    have hout := hvisit b ⟨v, k⟩ ⟨v, k⟩ hent
    exact ⟨hout.left, fun ht => absurd ht hout.present⟩
  · rintro b ⟨v, k⟩ ⟨w, l⟩ ⟨hx, _⟩ ⟨hy, hwhole⟩ hnt hle
    refine (hvisit b _ _ ?_).covers
    cases l with
    | top =>
        have htop : State.isTop ⟨w, .top⟩ = true := hwhole rfl
        exact absurd (htop.symm.trans hnt) (by decide)
    | slots b =>
        cases k with
        | top => exact absurd hle.stack id
        | slots a => exact ⟨hx, hy, hle, fun h => by cases h⟩

/-! ## 6. What instructions bring in -/

/-- The address of the field that an instruction names. -/
def OfField (i : Instruction) (v : Value) : Prop :=
  ∃ ofInstance f, i.opcode.role = .fieldAddress ofInstance ∧ i.token? = some f ∧
    v = .address (.field f)

/-- A value that the field which an instruction reads can hold. -/
def OfContents (sc : Scanner) (i : Instruction) (v : Value) : Prop :=
  ∃ ofInstance f, i.opcode.role = .loadField ofInstance ∧ i.token? = some f ∧
    v ∈ (sc.loadField f).members

theorem within_orUnknown {o : Option Value} (hU : U .unknown) (ho : ∀ z, o = some z → U z) :
    (orUnknown o).Within U := by
  cases o with
  | none => exact SetOf.within_single hU
  | some z => exact SetOf.within_single (ho z rfl)

theorem plain_tokenValue (token : Option Token) (session : Session) :
    ((sc.tokenValue token).run session).1.Plain := by
  have hdenote : ∀ t, ((sc.context.denote .genericHandle .typeHandle t).run session).1.Plain := by
    intro t
    unfold Context.denote
    split
    · trivial
    · cases sc.context.definition? t <;> trivial
  unfold tokenValue
  cases token with
  | none => trivial
  | some t =>
      dsimp only
      split
      · unfold Context.handleValue
        split
        · exact hdenote _
        · cases sc.context.store.type? t <;> trivial
      · split
        · cases sc.context.callee? t <;> trivial
        · trivial

theorem plain_leftBy (callee : MethodRef) :
    (sc.leftBy session i callee false).Within Value.Plain := by
  have hreturned : (sc.returnedBy session i callee false).Within Value.Plain := by
    show ((CallSite.defaultReturn ⟨sc.context, i.offset, callee, []⟩).run session).1.Within _
    unfold CallSite.defaultReturn
    split
    · exact SetOf.within_empty
    · split
      · exact SetOf.within_single trivial
      · exact SetOf.within_single trivial
  unfold leftBy
  split
  · exact SetOf.within_single trivial
  · exact hreturned

/-- **Where the values come from that an instruction brings in**: from a field that it reads or, if it
    loads the address of a field, from what it names; arrays and addresses of elements come from
    fields alone. -/
theorem supplied_origin (hcan : ∀ ofInstance f, i.opcode.role = .loadField ofInstance →
      i.token? = some f → (sc.loadField f).Canonical) :
    (sc.supplied session i).Within fun v => v.Plain ∨ OfField i v ∨ sc.OfContents i v := by
  have hplain : ∀ {s : ValueSet}, s.Within Value.Plain →
      s.Within fun v => v.Plain ∨ OfField i v ∨ sc.OfContents i v := fun h =>
    ⟨h.toCanonical, fun v hv => Or.inl (h.members v hv)⟩
  have hunknown : SetOf.Within (fun v => v.Plain ∨ OfField i v ∨ sc.OfContents i v) .unknown :=
    hplain (SetOf.within_single trivial)
  unfold supplied
  cases hr : i.opcode.role with
  | argumentAddress =>
      refine within_orUnknown (Or.inl trivial) fun z hz => Or.inl ?_
      obtain ⟨n, _, rfl⟩ := Option.map_eq_some_iff.mp hz
      unfold argumentAddress
      split <;> trivial
  | localAddress =>
      refine within_orUnknown (Or.inl trivial) fun z hz => Or.inl ?_
      obtain ⟨n, _, rfl⟩ := Option.map_eq_some_iff.mp hz
      trivial
  | loadNull => exact SetOf.within_single (Or.inl trivial)
  | loadInt =>
      refine within_orUnknown (Or.inl trivial) fun z hz => Or.inl ?_
      obtain ⟨n, _, rfl⟩ := Option.map_eq_some_iff.mp hz
      trivial
  | loadString =>
      refine within_orUnknown (Or.inl trivial) fun z hz => Or.inl ?_
      unfold textOf? at hz
      split at hz
      · obtain rfl := Option.some.inj hz
        trivial
      · cases hz
  | loadToken => exact SetOf.within_single (Or.inl (plain_tokenValue _ _))
  | call =>
      cases sc.target? i .call with
      | none => exact hunknown
      | some callee => exact hplain (plain_leftBy callee)
  | loadField ofInstance =>
      cases hf : i.token? with
      | none => exact hunknown
      | some f =>
          exact ⟨hcan ofInstance f hr hf, fun v hv => Or.inr (Or.inr ⟨ofInstance, f, hr, hf, hv⟩)⟩
  | fieldAddress ofInstance =>
      refine within_orUnknown (Or.inl trivial) fun z hz => Or.inr (Or.inl ?_)
      obtain ⟨f, hf, rfl⟩ := Option.map_eq_some_iff.mp hz
      exact ⟨ofInstance, f, hr, hf, rfl⟩
  | _ => exact hunknown

/-! ## 7. The range of values of steady code -/

/-- What a steady instruction brings in holds no arrays, and of addresses of fields only the one
    that the instruction names. -/
theorem supplied_within (hi : sc.Steady answers i) :
    (sc.supplied session i).Within fun v => v.Inert ∨ OfField i v := by
  have hfield : ∀ ofInstance f, i.opcode.role = .loadField ofInstance → i.token? = some f →
      (sc.loadField f).Within Value.Inert := by
    intro ofInstance f hr hf
    unfold Steady at hi
    rw [hr] at hi
    exact hi f hf
  have horigin : (sc.supplied session i).Within fun v => v.Plain ∨ OfField i v ∨ sc.OfContents i v :=
    supplied_origin fun o f hr hf => (hfield o f hr hf).toCanonical
  refine ⟨horigin.toCanonical, fun v hv => ?_⟩
  rcases horigin.members v hv with h | h | ⟨o, f, hr, hf, h⟩
  · exact Or.inl h.inert
  · exact Or.inr h
  · exact Or.inl ((hfield o f hr hf).members v h)

/-- **The values that interpreting a body can come upon.** -/
inductive Brought (sc : Scanner) (session : Session) (body : Body) : Value → Prop where
  | unknown : Brought sc session body .unknown
  | entry (e : VarKey × Value) (he : e ∈ sc.entryArguments) : Brought sc session body e.2
  | supplied (i : Instruction) (hi : i ∈ body.instructions) (v : Value)
      (hv : v ∈ (sc.supplied session i).members) : Brought sc session body v
  | field (i : Instruction) (hi : i ∈ body.instructions) (f : Token)
      (hf : OfField i (.address (.field f))) (v : Value) (hv : v ∈ (sc.loadField f).members) :
      Brought sc session body v
  | parameter (n : UInt16) : Brought sc session body (sc.parameterValue n.toNat)
  | target (n : UInt16) : Brought sc session body (.address (.parameterTarget n))

variable {body : Body}

/-- There are finitely many of them. -/
theorem finite_brought (sc : Scanner) (session : Session) (body : Body) :
    {v | Brought sc session body v}.Finite := by
  have hlisted := List.finite_toSet (Value.unknown :: (sc.entryArguments.map Prod.snd ++
    body.instructions.flatMap fun i => (sc.supplied session i).members ++
      (i.token?.map sc.loadField).elim [] SetOf.members))
  have hranges := (Set.finite_range fun n : UInt16 => sc.parameterValue n.toNat).union
    (Set.finite_range fun n : UInt16 => Value.address (.parameterTarget n))
  refine (hlisted.union hranges).subset fun v hv => ?_
  cases hv with
  | unknown => exact Or.inl List.mem_cons_self
  | entry e he =>
      refine Or.inl (List.mem_cons_of_mem _ (List.mem_append_left _ ?_))
      exact List.mem_map_of_mem he
  | supplied i hi v hv =>
      refine Or.inl (List.mem_cons_of_mem _ (List.mem_append_right _ ?_))
      exact List.mem_flatMap.mpr ⟨i, hi, List.mem_append_left _ hv⟩
  | field i hi f hf v hv =>
      refine Or.inl (List.mem_cons_of_mem _ (List.mem_append_right _ ?_))
      refine List.mem_flatMap.mpr ⟨i, hi, List.mem_append_right _ ?_⟩
      obtain ⟨_, f', _, hf', heq⟩ := hf
      obtain rfl := Location.field.inj (Value.address.inj heq)
      rw [hf']
      exact hv
  | parameter n => exact Or.inr (Or.inl ⟨n, rfl⟩)
  | target n => exact Or.inr (Or.inr ⟨n, rfl⟩)

theorem Brought.cases (hb : body.Steady sc answers) {v : Value} (h : Brought sc session body v) :
    v.Inert ∨ ∃ i ∈ body.instructions, OfField i v := by
  cases h with
  | unknown => exact Or.inl trivial
  | entry e he =>
      obtain ⟨_, _, _, hsymbol⟩ := symbol_of_mem_entryArguments he
      exact Or.inl (hsymbol ▸ trivial)
  | supplied i hi v hv =>
      exact ((supplied_within (hb i hi)).members v hv).imp id fun h => ⟨i, hi, h⟩
  | field i hi f hf v hv =>
      obtain ⟨_, f', hr, hf', heq⟩ := hf
      obtain rfl := Location.field.inj (Value.address.inj heq)
      have hsteady := hb i hi
      unfold Steady at hsteady
      rw [hr] at hsteady
      exact Or.inl ((hsteady f hf').members v hv)
  | parameter n => exact Or.inl trivial
  | target n => exact Or.inl trivial

/-- **The values that steady code comes upon are a range that it does not leave.** -/
theorem universe_brought (hb : body.Steady sc answers) :
    sc.Universe (Brought sc session body) where
  unknown := .unknown
  arrays a h := by
    rcases h.cases hb with h | ⟨_, _, _, _, _, _, h⟩
    · exact h
    · cases h
  fields f h := by
    rcases h.cases hb with h | ⟨i, hi, hof⟩
    · exact absurd h id
    · refine ⟨?_, fun v hv => .field i hi f hof v hv⟩
      obtain ⟨_, f', hr, hf', heq⟩ := hof
      obtain rfl := Location.field.inj (Value.address.inj heq)
      have hsteady := hb i hi
      unfold Steady at hsteady
      rw [hr] at hsteady
      exact (hsteady f hf').toCanonical
  parameters n := .parameter n
  targets n := .target n

theorem supplied_brought (hb : body.Steady sc answers) {i : Instruction}
    (hi : i ∈ body.instructions) : (sc.supplied session i).Within (Brought sc session body) :=
  ⟨(supplied_within (hb i hi)).toCanonical, fun v hv => .supplied i hi v hv⟩

end Scanner

end ReflectionFlow

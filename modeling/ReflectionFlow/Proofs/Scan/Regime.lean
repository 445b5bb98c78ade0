/-
  File:      ReflectionFlow/Proofs/Scan/Regime.lean
  Subject:   Conditions on sets and arrays that the interpretation of a method respects.

  What instructions, calls and meeting paths do to the sets of a state is the same whatever is to
  be shown of them: sets are pushed, taken, joined, read through addresses and stored, and arrays
  are created, stored into, cleared and merged.  A regime names a condition on the sets of the
  stack, one on the sets of variables, one on arrays, and the few laws that these operations need.
  A state that satisfies the conditions does so after every instruction, hence after every visit of
  a block, hence whenever an iteration computes it for a reached block.

  * `SetOf.Closed`, `Regime`, `Regime.Keeps`    the laws, and the states that satisfy the conditions
  * `Regime.Keeps.read`, `Regime.Keeps.write`   reading and writing locations
  * `Regime.Keeps.stepLocal`, `Regime.yields_step`   one instruction
  * `Regime.invariant`, `Reachable.keeps`       visits, and whole runs
-/
import ReflectionFlow.Proofs.Reflection.Results
import ReflectionFlow.Proofs.Scan.Depth
import ReflectionFlow.Proofs.Scan.Outcome

namespace ReflectionFlow

open Act SetOf Trace

/-! ## 1. Regimes -/

/-- **A condition on sets that the operations on sets preserve.**  Images are taken of sets that
    satisfy the condition `Source`. -/
structure SetOf.Closed (Source Q : ValueSet → Prop) : Prop where
  member {s : ValueSet} {v : Value} : Q s → v ∈ s.members → Q (.single v)
  proper {s : ValueSet} : s.Proper → (∀ v ∈ s.members, Q (.single v)) → Q s
  merge {s t : ValueSet} : Q s → Q t → Q (s.merge t)
  flatMap {s : ValueSet} {f : Value → ValueSet} :
    Source s → (∀ v ∈ s.members, Q (f v)) → Q (s.flatMap f)

/-- **Conditions on the sets of the stack, on the sets of variables and on arrays**, with what the
    interpretation of a method needs of them when arrays track up to `capacity` indices. -/
structure Regime (capacity : Nat) where
  Pushed : ValueSet → Prop
  Stored : ValueSet → Prop
  Sound : ArrayValue → Prop
  pushed : Closed Pushed Pushed
  stored : Closed Pushed Stored
  weaken {s : ValueSet} : Stored s → Pushed s
  /-- Only addresses keep a set of the stack from being stored. -/
  direct {s : ValueSet} : Pushed s → (∀ v ∈ s.members, v.isAddress = false) → Stored s
  plain {v : Value} : (∀ a, v ≠ .array a) → Pushed (single v)
  array {a : ArrayValue} : Pushed (single (.array a)) ↔ Sound a
  fresh {size : ValueSet} (site : Site) : Stored size → Sound (.fresh site size)
  cleared {a : ArrayValue} : Sound a → Sound a.cleared
  element {a : ArrayValue} (index : Int32) : Sound a → Stored (a.element index)
  store {a : ArrayValue} {values : ValueSet} (index : Int32) (block : Nat) :
    Sound a → Stored values → Sound (a.store index values block capacity)
  merge {a b : ArrayValue} : Sound a → Sound b → Sound (a.merge b)

namespace Regime

variable {capacity : Nat} {R : Regime capacity}

theorem stored_plain (R : Regime capacity) {v : Value} (h : ∀ a, v ≠ .array a)
    (hv : v.isAddress = false) : R.Stored (single v) :=
  R.direct (R.plain h) fun _ hw => List.mem_singleton.mp hw ▸ hv

theorem stored_unknown (R : Regime capacity) : R.Stored unknown := R.stored_plain nofun rfl

theorem pushed_unknown (R : Regime capacity) : R.Pushed unknown := R.weaken R.stored_unknown

theorem stored_array {a : ArrayValue} (h : R.Sound a) : R.Stored (single (.array a)) :=
  R.direct (R.array.mpr h) fun _ hw => List.mem_singleton.mp hw ▸ rfl

theorem sound_of_mem {s : ValueSet} {a : ArrayValue} (hs : R.Pushed s) (ha : .array a ∈ s.members) :
    R.Sound a := R.array.mp (R.pushed.member hs ha)

/-- What rules return can be pushed, if it is anything. -/
theorem pushed_returned {s : ValueSet} (h : s.Returned) (hs : s.isEmpty = false) : R.Pushed s := by
  refine R.pushed.proper ⟨hs, h.absorbing⟩ fun v hv => ?_
  cases h.members v hv with
  | plain h => exact R.plain h
  | emptyArray site =>
      exact R.weaken (R.stored_array (R.fresh site (R.stored_plain (v := .int 0) nofun rfl)))

/-- The contents that are declared for fields can be stored. -/
def Furnishes (R : Regime capacity) (s : Store) : Prop := ∀ e ∈ s.fieldValues, R.Stored e.2

end Regime

/-! ## 2. States -/

namespace State

theorem mem_versions {s : State} {site : Site} {a : ArrayValue} (h : a ∈ s.versions site) :
    ∃ v ∈ s.sets, Value.array a ∈ v.members := by
  have hfound : ∀ b ∈ s.versions site, Value.array b ∈ s.sets.flatMap SetOf.members := by
    unfold versions
    refine List.foldlRecOn (motive := fun found : List ArrayValue => ∀ b ∈ found,
      Value.array b ∈ s.sets.flatMap SetOf.members) _ _ nofun fun found hfound v hv => ?_
    split
    · next b =>
      split
      · intro c hc
        rcases List.mem_append.mp hc with hc | hc
        · exact hfound c hc
        · exact List.mem_singleton.mp hc ▸ hv
      · exact hfound
    · exact hfound
  exact List.mem_flatMap.mp (hfound a h)

/-- A set in which arrays are replaced says something, and it has no new value but the updated
    array. -/
theorem proper_replaceIn {versions : List ArrayValue} {updated : ArrayValue} {v w : ValueSet}
    (h : replaceIn versions updated v = some w) :
    w.Proper ∧ ∀ u ∈ w.members, u ∈ v.members ∨ u = .array updated := by
  unfold replaceIn at h
  split at h
  · obtain rfl := Option.some.inj h
    have hfrom : From (fun u => u ∈ v.members ∨ u = .array updated)
        ((ofList (v.members.filter fun u => !isVersion versions u)).insert (.array updated)) :=
      From.insert (from_ofList fun u hu => .inl (List.mem_filter.mp hu).1) (.inr rfl)
    have hfilled := hfrom.filled
      (isEmpty_eq_false_iff.mpr ⟨_, admits_insert.mpr (Or.inr (Or.inr rfl))⟩)
    exact ⟨hfilled.toProper, hfilled.members⟩
  · cases h

end State

theorem SetOf.Closed.replaceIn {Source Q : ValueSet → Prop} (hQ : Closed Source Q)
    {versions : List ArrayValue} {updated : ArrayValue} {v w : ValueSet} (hv : Q v)
    (hu : Q (single (.array updated))) (h : State.replaceIn versions updated v = some w) : Q w := by
  obtain ⟨hproper, hmembers⟩ := State.proper_replaceIn h
  refine hQ.proper hproper fun u hmem => ?_
  rcases hmembers u hmem with hold | rfl
  · exact hQ.member hv hold
  · exact hu

/-- **States that satisfy the conditions of a regime.**  The stack is a real one, and variables that
    are not stored are unknown. -/
structure Regime.Keeps {capacity : Nat} (R : Regime capacity) (s : State) : Prop where
  vars : s.vars.Over R.Stored
  default : s.vars.default = .unknown
  stack : s.stack.isTop = false
  slots : ∀ v ∈ s.stack.fromTop, R.Pushed v

namespace Regime.Keeps

variable {capacity : Nat} {R : Regime capacity} {s t : State}

theorem get (h : R.Keeps s) (k : VarKey) : R.Stored (s.vars.get k) := h.vars.get k

theorem isTop (h : R.Keeps s) : s.isTop = false := by
  unfold State.isTop
  rw [h.stack]
  rfl

theorem entered (h : R.Keeps s) : s.entered = s := by
  obtain ⟨vars, stack⟩ := s
  cases stack with
  | top => cases h.stack
  | slots l => rfl

theorem withStack (h : R.Keeps s) {l : List ValueSet} (hl : ∀ v ∈ l, R.Pushed v) :
    R.Keeps { s with stack := .slots l } :=
  ⟨h.vars, h.default, rfl, hl⟩

theorem withVars (h : R.Keeps s) {m : Variables} (hm : m.Over R.Stored)
    (hd : m.default = s.vars.default) : R.Keeps { s with vars := m } :=
  ⟨hm, hd.trans h.default, h.stack, h.slots⟩

/-- **Where paths meet, the conditions stay satisfied.** -/
theorem meet (hs : R.Keeps s) (ht : R.Keeps t) : R.Keeps (s.meet t) := by
  unfold State.meet
  rw [hs.isTop, ht.isTop, if_neg Bool.false_ne_true, if_neg Bool.false_ne_true]
  obtain ⟨sv, ss⟩ := s
  obtain ⟨tv, ts⟩ := t
  cases ss with
  | top => cases hs.stack
  | slots a =>
      cases ts with
      | top => cases ht.stack
      | slots b =>
          refine ⟨hs.vars.meet (fun _ _ => R.stored.merge) ht.vars, ?_, rfl,
            State.over_meetSlots (fun _ _ => R.pushed.merge) R.pushed_unknown hs.slots ht.slots⟩
          have hsd : sv.default = .unknown := hs.default
          have htd : tv.default = .unknown := ht.default
          have hmeet : (sv.meet tv).default = sv.default.merge tv.default :=
            Variables.default_meet (hsd ▸ canonical_unknown)
          rw [hmeet, hsd, htd]
          rfl

theorem versions (h : R.Keeps s) (site : Site) : ∀ a ∈ s.versions site, R.Sound a := by
  intro a ha
  obtain ⟨v, hv, hav⟩ := State.mem_versions ha
  rcases List.mem_append.mp hv with hv | hv
  · exact R.sound_of_mem (h.slots v (List.mem_reverse.mp hv)) hav
  · obtain ⟨e, he, rfl⟩ := List.mem_map.mp hv
    exact R.sound_of_mem (R.weaken (h.vars.entries e he)) hav

/-- **A sound array in place of others.** -/
theorem replaceArray (h : R.Keeps s) (versions : List ArrayValue) {updated : ArrayValue}
    (hu : R.Sound updated) : R.Keeps (s.replaceArray versions updated) := by
  obtain ⟨hvars, hdefault⟩ := h.vars.update (f := State.replaceIn versions updated) fun _ _ hv hw =>
    R.stored.replaceIn hv (R.stored_array hu) hw
  obtain ⟨vars, stack⟩ := s
  cases stack with
  | top => cases h.stack
  | slots l =>
      refine ⟨hvars, hdefault.trans h.default, rfl, fun w hw => ?_⟩
      obtain ⟨v, hv, rfl⟩ := List.mem_map.mp hw
      cases hr : State.replaceIn versions updated v with
      | none => exact h.slots v hv
      | some w => exact R.pushed.replaceIn (h.slots v hv) (R.array.mpr hu) hr

end Regime.Keeps

theorem Regime.keeps_unknown {capacity : Nat} (R : Regime capacity) : R.Keeps .unknown :=
  ⟨Variables.over_ofDefault R.stored_unknown, rfl, rfl, fun _ h => absurd h List.not_mem_nil⟩

/-! ## 3. Operands and variables -/

namespace Regime.Keeps

variable {capacity : Nat} {R : Regime capacity} {t : Trace} {v : ValueSet}

theorem push (h : R.Keeps t.state) (hv : R.Pushed v) : R.Keeps (t.push v).state := by
  refine h.withStack fun w hw => ?_
  rcases List.mem_cons.mp hw with rfl | hw
  · exact hv
  · exact h.slots w hw

theorem clear (h : R.Keeps t.state) : R.Keeps t.clear.state :=
  h.withStack fun _ hw => absurd hw List.not_mem_nil

theorem pop (h : R.Keeps t.state) (offset : Nat) :
    R.Pushed (t.pop offset).1 ∧ R.Keeps (t.pop offset).2.state := by
  obtain ⟨w, r, hstack, hpop⟩ | ⟨_, hpop⟩ := t.pop_cases offset
  · have hslots := h.slots
    rw [hstack] at hslots
    rw [hpop]
    exact ⟨hslots w List.mem_cons_self,
      h.withStack fun u hu => hslots u (List.mem_cons_of_mem _ hu)⟩
  · rw [hpop]
    exact ⟨R.pushed_unknown, h⟩

theorem drop (h : R.Keeps t.state) (offset count : Nat) : R.Keeps (t.drop offset count).state := by
  unfold Trace.drop
  induction count generalizing t with
  | zero => exact h
  | succ count ih => exact ih (h.pop offset).2

theorem set (h : R.Keeps t.state) (k : VarKey) (hv : R.Stored v) : R.Keeps (t.set k v).state :=
  h.withVars (h.vars.set k hv) rfl

theorem assign (h : R.Keeps t.state) (k : VarKey) (hv : R.Stored v) (certain : Bool) :
    R.Keeps (t.assign k v certain).state := by
  unfold Trace.assign
  cases certain with
  | true => exact h.set k hv
  | false => exact h.set k (R.stored.merge (h.get k) hv)

end Regime.Keeps

/-! ## 4. Locations -/

/-- One array for several has what each of them has, if merging respects it. -/
theorem Scanner.mergeVersions?_of_forall {P : ArrayValue → Prop}
    (hmerge : ∀ {a b : ArrayValue}, P a → P b → P (a.merge b)) {versions : List ArrayValue}
    (h : ∀ a ∈ versions, P a) {a : ArrayValue} (ha : mergeVersions? versions = some a) : P a := by
  cases versions with
  | nil => cases ha
  | cons b rest =>
      obtain rfl := Option.some.inj ha
      exact List.foldlRecOn (motive := P) rest _ (h b List.mem_cons_self)
        fun _ hacc c hc => hmerge hacc (h c (List.mem_cons_of_mem _ hc))

section Locations

open Scanner

variable {sc : Scanner} {R : Regime sc.context.config.maxTracked} {s : State} {t : Trace}
  {v : ValueSet}

namespace Regime

theorem Furnishes.loadField (hs : R.Furnishes sc.context.store) (f : Token) :
    R.Stored (sc.loadField f) := by
  rcases sc.loadField_cases f with ⟨e, he, h⟩ | ⟨v, harray, haddress, h⟩ | ⟨t, h⟩
  · exact h ▸ hs e he
  · exact h ▸ R.stored_plain harray haddress
  · exact h ▸ R.stored_array (R.fresh _ (R.stored_plain (v := .int 0) nofun rfl))

namespace Keeps

/-- **What is at a location can be stored.** -/
theorem read (h : R.Keeps s) (hs : R.Furnishes sc.context.store) (l : Location) :
    R.Stored (sc.read s l) := by
  cases l with
  | loc n => exact h.get _
  | arg n => exact h.get _
  | this => exact h.get _
  | field f => exact hs.loadField f
  | element site index =>
      simp only [Scanner.read]
      split
      · next ha => exact R.element _ (mergeVersions?_of_forall R.merge (h.versions site) ha)
      · exact R.stored_unknown
  | parameterTarget n => exact R.stored_plain (Value.ne_array rfl) rfl
  | returnSlot m => exact R.stored_unknown

/-- **What an operand stands for can be stored**: no address of the stack is left in it. -/
theorem dereference (h : R.Keeps s) (hs : R.Furnishes sc.context.store) (hv : R.Pushed v) :
    R.Stored (sc.dereference s v) := by
  unfold Scanner.dereference
  split
  · refine R.stored.flatMap hv fun u hu => ?_
    split
    · exact h.read hs _
    · next hnot =>
      refine R.direct (R.pushed.member hv hu) fun w hw => List.mem_singleton.mp hw ▸ ?_
      cases u with
      | address l => exact absurd rfl (hnot l)
      | _ => rfl
  · next hnone =>
    refine R.direct hv fun u hu => ?_
    cases haddress : u.isAddress with
    | false => rfl
    | true => exact absurd (List.any_eq_true.mpr ⟨u, hu, haddress⟩) hnone

theorem readThrough (h : R.Keeps s) (hs : R.Furnishes sc.context.store) (hv : R.Pushed v) :
    R.Stored (sc.readThrough s v) := by
  refine R.stored.flatMap hv fun u _ => ?_
  split
  · exact h.read hs _
  · exact R.stored_unknown

theorem popValue (h : R.Keeps t.state) (hs : R.Furnishes sc.context.store) (offset : Nat) :
    R.Stored (sc.popValue t offset).1 ∧ R.Keeps (sc.popValue t offset).2.state := by
  obtain ⟨hv, hpop⟩ := h.pop offset
  exact ⟨hpop.dereference hs hv, hpop⟩

theorem storeArgument (h : R.Keeps t.state) (offset : Nat) (n : UInt16) (hv : R.Stored v)
    (certain : Bool) : R.Keeps (sc.storeArgument offset n v certain t).state := by
  refine assign ?_ _ hv certain
  rw [state_observeArgument]
  exact h

theorem storeField (h : R.Keeps t.state) (offset : Nat) (f : Token) :
    R.Keeps (sc.storeField offset f v t).state := by
  rw [state_storeField]
  exact h

theorem storeVersions (h : R.Keeps t.state) {versions : List ArrayValue}
    (hversions : ∀ a ∈ versions, R.Sound a) (block : Nat) (index : Option Int32)
    (hv : R.Stored v) : R.Keeps (sc.storeVersions block versions index v t).state := by
  unfold Scanner.storeVersions
  split
  · exact h
  · next a ha =>
    have hsound := mergeVersions?_of_forall R.merge hversions ha
    refine h.replaceArray versions ?_
    cases index with
    | some n => exact R.store n block hsound hv
    | none => exact R.cleared hsound

theorem storeElement (h : R.Keeps t.state) (block : Nat) {array index : ValueSet}
    (harray : R.Stored array) (hv : R.Stored v) :
    R.Keeps (sc.storeElement block array index v t).state := by
  have hsound : ∀ a ∈ arraysOf array, R.Sound a := by
    intro a ha
    obtain ⟨u, hu, hua⟩ := List.mem_filterMap.mp ha
    split at hua
    · obtain rfl := Option.some.inj hua
      exact R.sound_of_mem (R.weaken harray) hu
    · cases hua
  exact List.foldlRecOn (motive := fun t : Trace => R.Keeps t.state) _ _ h fun _ hacc site _ =>
    hacc.storeVersions (fun a ha => hsound a (List.mem_filter.mp ha).1) block _ hv

/-- **A store to a location keeps the conditions.** -/
theorem write (h : R.Keeps t.state) (block offset : Nat) (hv : R.Stored v) (certain : Bool)
    (l : Location) : R.Keeps (sc.write block offset v certain t l).state := by
  cases l with
  | loc n => exact h.assign _ hv certain
  | arg n => exact h.storeArgument offset n hv certain
  | this => exact h.storeArgument offset 0 hv certain
  | field f => exact h.storeField offset f
  | element site index => exact h.storeVersions (h.versions site) block index hv
  | parameterTarget n =>
      show R.Keeps (t.observeFlow _ _ _ _).state
      rw [state_observeFlow]
      exact h
  | returnSlot m => exact h

theorem storeThrough (h : R.Keeps t.state) (block offset : Nat) (address : ValueSet)
    (hv : R.Stored v) : R.Keeps (sc.storeThrough block offset address v t).state := by
  refine List.foldlRecOn (motive := fun t : Trace => R.Keeps t.state) _ _ h fun _ hacc u _ => ?_
  split
  · exact hacc.write block offset hv _ _
  · exact hacc

end Keeps

end Regime

end Locations

/-! ## 5. Instructions -/

namespace Regime

open Scanner

variable {capacity : Nat}

theorem pushed_orUnknown_map (R : Regime capacity) {α : Type} {f : α → Value}
    (hf : ∀ x a, f x ≠ .array a) (o : Option α) : R.Pushed (orUnknown (o.map f)) := by
  cases o with
  | none => exact R.pushed_unknown
  | some x => exact R.plain (hf x)

variable {R : Regime capacity} {array : ValueSet}

theorem pushed_lengthOf (h : R.Stored array) : R.Pushed (lengthOf array) := by
  refine R.pushed.flatMap (R.weaken h) fun v _ => ?_
  split
  · exact R.pushed_orUnknown_map nofun _
  · exact R.pushed_unknown

theorem pushed_elementAddress (h : R.Stored array) (index : Option Int32) :
    R.Pushed (elementAddress array index) := by
  refine R.pushed.flatMap (R.weaken h) fun v _ => ?_
  split
  · exact R.plain nofun
  · exact R.pushed_unknown

theorem pushed_elementOf (h : R.Stored array) (index : Option Int32) :
    R.Pushed (elementOf array index) := by
  refine R.pushed.flatMap (R.weaken h) fun v hv => ?_
  split
  · exact R.weaken (R.element _ (R.sound_of_mem (R.weaken h) hv))
  · exact R.pushed_unknown

end Regime

namespace Regime.Keeps

open Scanner

variable {sc : Scanner} {R : Regime sc.context.config.maxTracked} {s : State} {t : Trace}

theorem loadArgument (h : R.Keeps s) (n : UInt16) : R.Pushed (sc.loadArgument s n) := by
  unfold Scanner.loadArgument
  dsimp only
  split
  · split
    · exact R.plain nofun
    · exact R.weaken (h.get _)
  · exact R.weaken (h.get _)

theorem popElement (h : R.Keeps t.state) (hs : R.Furnishes sc.context.store) (i : Instruction) :
    R.Stored (sc.popElement i t).1 ∧ R.Keeps (sc.popElement i t).2.2.state :=
  (h.popValue hs i.offset).2.popValue hs i.offset

/-- **An instruction on variables, stack, fields and arrays keeps the conditions.** -/
theorem stepLocal (h : R.Keeps t.state) (hs : R.Furnishes sc.context.store) (block : Nat)
    (i : Instruction) (role : Role) : R.Keeps (sc.stepLocal block i t role).state := by
  have hunknown := R.pushed_unknown
  obtain ⟨hv, hpop⟩ := h.pop i.offset
  obtain ⟨hvalue, hpopValue⟩ := h.popValue hs i.offset
  obtain ⟨harray, hpopElement⟩ := h.popElement hs i
  cases role with
  | consume pops leavesResult =>
      have hdrop := h.drop i.offset pops
      cases leavesResult with
      | true => exact hdrop.push hunknown
      | false => exact hdrop
  | unwind pops => exact (h.drop i.offset pops).clear
  | duplicate => exact (hpop.push hv).push hv
  | loadArgument =>
      show R.Keeps (sc.stepLoadArgument i t).state
      unfold stepLoadArgument
      split
      · exact h.push (h.loadArgument _)
      · exact push (t := t.observe _ _) h hunknown
  | argumentAddress => exact h.push (R.pushed_orUnknown_map (fun _ => Value.ne_array rfl) _)
  | storeArgument =>
      show R.Keeps (sc.stepStoreArgument i t).state
      rw [stepStoreArgument_eq]
      split
      · exact hpopValue.storeArgument _ _ hvalue true
      · exact hpopValue
  | loadLocal =>
      refine h.push ?_
      split
      · exact R.weaken (h.get _)
      · exact hunknown
  | localAddress => exact h.push (R.pushed_orUnknown_map (fun _ => Value.ne_array rfl) _)
  | storeLocal =>
      show R.Keeps (sc.stepStoreLocal i t).state
      rw [stepStoreLocal_eq]
      split
      · exact hpopValue.set _ hvalue
      · exact hpopValue
  | loadNull => exact h.push (R.plain (Value.ne_array rfl))
  | loadInt => exact h.push (R.pushed_orUnknown_map (fun _ => Value.ne_array rfl) _)
  | loadString =>
      refine h.push ?_
      unfold textOf?
      split
      · exact R.plain (Value.ne_array rfl)
      · exact hunknown
  | ret =>
      show R.Keeps (sc.stepReturn i t).state
      rw [state_stepReturn]
      exact h.withStack fun _ hw => absurd hw List.not_mem_nil
  | loadIndirect => exact hpop.push (R.weaken (hpop.readThrough hs hv))
  | storeIndirect =>
      exact (hpopValue.pop i.offset).2.storeThrough block i.offset _ hvalue
  | clearIndirect => exact hpop.storeThrough block i.offset _ R.stored_unknown
  | box => exact hpopValue.push (R.weaken hvalue)
  | cast =>
      show R.Keeps (sc.stepCast i t).state
      rw [stepCast_eq]
      refine push ?_ (R.weaken hvalue)
      split
      · exact hpopValue
      · exact hpopValue
  | loadField ofInstance =>
      refine (h.drop i.offset ofInstance.toNat).push ?_
      split
      · exact R.weaken (hs.loadField _)
      · exact hunknown
  | fieldAddress ofInstance =>
      exact (h.drop i.offset ofInstance.toNat).push
        (R.pushed_orUnknown_map (fun _ => Value.ne_array rfl) _)
  | storeField ofInstance =>
      have hdrop := hpopValue.drop i.offset ofInstance.toNat
      show R.Keeps (sc.stepStoreField i ofInstance t).state
      rw [stepStoreField_eq]
      split
      · exact hdrop.storeField _ _
      · exact hdrop
  | newArray => exact hpopValue.push (R.array.mpr (R.fresh _ hvalue))
  | arrayLength => exact hpopValue.push (R.pushed_lengthOf hvalue)
  | elementAddress => exact hpopElement.push (R.pushed_elementAddress harray _)
  | loadElement => exact hpopElement.push (R.pushed_elementOf harray _)
  | storeElement =>
      obtain ⟨harray', hpopElement'⟩ := hpopValue.popElement hs i
      exact hpopElement'.storeElement block harray' hvalue
  | loadToken => exact h
  | call => exact h
  | construct => exact h
  | callIndirect => exact h

end Regime.Keeps

/-! ## 6. Calls -/

namespace Scanner

theorem yields_tokenValue (sc : Scanner) (token : Option Token) :
    Yields (sc.tokenValue token) fun v => ∀ a, v ≠ .array a := by
  have hdenote : ∀ (ofVariable : GenericParameter → Value) (ofType : Token → Value) (sig : TypeSig),
      (∀ p a, ofVariable p ≠ .array a) → (∀ t a, ofType t ≠ .array a) →
      Yields (sc.context.denote ofVariable ofType sig) fun v => ∀ a, v ≠ .array a := by
    intro ofVariable ofType sig hvariable htype
    unfold Context.denote
    split
    · exact yields_after fun p => yields_pure (hvariable p)
    · refine yields_pure ?_
      split
      · exact htype _
      · exact Value.ne_array rfl
  unfold tokenValue
  split
  · split
    · unfold Context.handleValue
      split
      · exact hdenote _ _ _ (fun _ => Value.ne_array rfl) fun _ => Value.ne_array rfl
      · refine yields_pure ?_
        split
        · exact Value.ne_array rfl
        · exact Value.ne_array rfl
    · split
      · refine yields_pure ?_
        split
        · exact Value.ne_array rfl
        · exact Value.ne_array rfl
      · exact yields_pure (Value.ne_array rfl)
  · exact yields_pure (Value.ne_array rfl)

theorem yields_resultOf (sc : Scanner) (site : CallSite) (intrinsic : Option Intrinsic)
    (constructs : Bool) :
    Yields (sc.resultOf site intrinsic constructs) fun r => ∀ v, r = .ok v → v.Returned := by
  have hok : ∀ {v : ValueSet}, v.Returned →
      ∀ w, (Except.ok v : Except BrokenPromise ValueSet) = .ok w → w.Returned :=
    fun hv w hw => Except.ok.inj hw ▸ hv
  unfold resultOf
  split
  · exact yields_pure (hok returned_unknown)
  · split
    · next what =>
      unfold catalogued
      split
      · exact yields_pure (hok returned_unknown)
      · next rule hrule =>
        refine (site.returns_handle? _ what rule hrule).bind fun v hv => ?_
        refine yields_after fun _ => yields_pure ?_
        split
        · exact nofun
        · exact hok hv
    · exact site.yields_defaultReturn.bind fun v hv => yields_pure (hok hv)

end Scanner

namespace Regime

open Scanner

variable {sc : Scanner} {R : Regime sc.context.config.maxTracked} {t : Trace}

/-- The result of an interpretation satisfies the conditions, if there is one. -/
abbrev Completes {capacity : Nat} (R : Regime capacity) (r : Except BrokenPromise Trace) : Prop :=
  ∀ t, r = .ok t → R.Keeps t.state

theorem Keeps.takeOperands (h : R.Keeps t.state) (hs : R.Furnishes sc.context.store) (offset : Nat)
    (callee : MethodRef) (constructs : Bool) :
    R.Keeps (sc.takeOperands offset callee constructs t).2.2.state := by
  have hdrop := h.drop offset callee.instantiated.params.length
  unfold Scanner.takeOperands
  dsimp only
  split
  · exact hdrop
  · split
    · exact (hdrop.popValue hs offset).2
    · exact hdrop

/-- A call leaves something also when nothing is known to return. -/
theorem Keeps.leave (h : R.Keeps t.state) (callee : MethodRef) (constructs : Bool)
    {returned : ValueSet} (hr : returned.Returned) :
    R.Keeps (leave callee constructs returned t).state := by
  unfold Scanner.leave
  split
  · refine h.push ?_
    split
    · exact R.pushed_unknown
    · next hempty => exact R.pushed_returned hr (by simpa using hempty)
  · exact h

theorem Keeps.writeBack (h : R.Keeps t.state) (block offset : Nat) (callee : MethodRef)
    (needs : Needs) (operands : List ValueSet) :
    R.Keeps (sc.writeBack block offset callee needs operands t).state := by
  refine List.foldlRecOn (motive := fun t : Trace => R.Keeps t.state) _ _ h fun _ hacc e _ => ?_
  dsimp only
  split
  · exact hacc.storeThrough block offset _ (R.stored_plain nofun rfl)
  · exact hacc

/-- **A call keeps the conditions**, whatever is remembered. -/
theorem yields_call (hs : R.Furnishes sc.context.store) (h : R.Keeps t.state) (block : Nat)
    (i : Instruction) (callee : MethodRef) (constructs : Bool) :
    Yields (sc.call block i callee constructs t) R.Completes := by
  have hoperands := h.takeOperands hs i.offset callee constructs
  unfold call
  dsimp only
  refine yields_after fun intrinsic => ?_
  refine (sc.yields_resultOf _ intrinsic constructs).bind fun r hr => ?_
  cases r with
  | error b => exact yields_pure nofun
  | ok returned =>
      refine yields_after fun needs => yields_pure fun t' ht' => ?_
      obtain rfl := Except.ok.inj ht'
      exact (hoperands.leave callee constructs (hr _ rfl)).writeBack block i.offset callee needs _

theorem Keeps.opaqueCall (h : R.Keeps t.state) (i : Instruction) (role : Role) :
    R.Keeps (sc.opaqueCall i role t).state := by
  have hunknown := R.pushed_unknown
  have hdrop := h.drop i.offset (role == .callIndirect).toNat
  unfold Scanner.opaqueCall
  dsimp only
  split
  · have hdrop' := fun count => hdrop.drop i.offset count
    split
    · exact (hdrop' _).push hunknown
    · exact hdrop' _
  · have hclear : R.Keeps ((t.drop i.offset (role == .callIndirect).toNat).observe i.offset
        (.fault (.unresolvedCall i))).clear.state := hdrop.clear
    split
    · exact hclear.push hunknown
    · exact hclear

/-- **An instruction keeps the conditions.** -/
theorem yields_step (hs : R.Furnishes sc.context.store) (h : R.Keeps t.state) (block : Nat)
    (i : Instruction) : Yields (sc.step block i t) R.Completes := by
  have hcall : ∀ role, Yields (sc.stepCall block i role t) R.Completes := by
    intro role
    unfold stepCall
    split
    · exact yields_call hs h block i _ _
    · exact yields_pure fun t' ht' => Except.ok.inj ht' ▸ h.opaqueCall i role
  unfold step
  split
  · refine (sc.yields_tokenValue _).bind fun v hv => yields_pure fun t' ht' => ?_
    obtain rfl := Except.ok.inj ht'
    exact h.push (R.plain hv)
  · exact hcall _
  · exact hcall _
  · exact hcall _
  · exact yields_pure fun t' ht' => Except.ok.inj ht' ▸ h.stepLocal hs block i _

/-- **So does the code of a block.** -/
theorem yields_steps (hs : R.Furnishes sc.context.store) (block : Nat) (code : List Instruction)
    (h : R.Keeps t.state) : Yields (sc.steps block code t) R.Completes := by
  induction code generalizing t with
  | nil => exact yields_pure fun t' ht' => Except.ok.inj ht' ▸ h
  | cons i rest ih =>
      refine (yields_step hs h block i).bind fun r hr => ?_
      cases r with
      | error b => exact yields_pure nofun
      | ok t' => exact ih (hr t' rfl)

/-! ## 7. Visits and runs -/

/-- **A visit of a block keeps the conditions.** -/
theorem Keeps.transfer {g : FlowGraph} {body : Body} {block : Nat} {x y : State} {p p' : Progress}
    (hx : R.Keeps x) (hs : R.Furnishes sc.context.store)
    (h : sc.transfer g body block x p = (.ok y, p')) : R.Keeps y := by
  obtain ⟨t, hsteps, rfl⟩ := transfer_inv h
  have hcompletes := yields_steps hs block (g.codeOf body block) (t := { state := x.entered })
    (hx.entered.symm ▸ hx) p.session
  rw [hsteps] at hcompletes
  exact hcompletes t rfl

theorem keeps_boundary (R : Regime sc.context.config.maxTracked) (g : FlowGraph) (body : Body) :
    ∀ e ∈ (sc.analysis g body).boundary, R.Keeps e.2 := by
  have hentry : ∀ e ∈ sc.entryArguments, R.Stored (.single e.2) := by
    intro e he
    obtain ⟨_, _, _, hsymbol⟩ := symbol_of_mem_entryArguments he
    rw [hsymbol]
    exact R.stored_plain nofun rfl
  intro e he
  have hover := over_boundary R.stored_unknown hentry e he
  rcases List.mem_cons.mp he with rfl | he
  · have hdefault : sc.entryState.vars.default = .unknown :=
      List.foldlRecOn (motive := fun m : Variables => m.default = .unknown) _ _ rfl fun _ hm _ _ => hm
    exact ⟨hover.vars, hdefault, rfl, nofun⟩
  · obtain ⟨⟨n, kind⟩, _, rfl⟩ := List.mem_map.mp he
    show R.Keeps (handlerState kind)
    unfold handlerState
    split
    · exact R.keeps_unknown.withStack fun _ hw => List.mem_singleton.mp hw ▸ R.pushed_unknown
    · exact R.keeps_unknown

/-- **Visits keep the conditions** in all states that anything has reached. -/
theorem invariant (hs : R.Furnishes sc.context.store) (g : FlowGraph) (body : Body) :
    Invariant g (sc.analysis g body) (fun _ x => x.isTop = false → R.Keeps x)
      (fun _ y => y.isTop = false → R.Keeps y) (fun _ => True) where
  topIn _ := nofun
  topOut _ := nofun
  meet _ x y hx hy hmeet := by
    have hmeet : (x.meet y).isTop = false := hmeet
    show R.Keeps (x.meet y)
    cases hxt : x.isTop with
    | true =>
        have heq : x.meet y = y := if_pos hxt
        rw [heq] at hmeet ⊢
        exact hy hmeet
    | false =>
        cases hyt : y.isTop with
        | true =>
            have heq : x.meet y = x := by
              unfold State.meet
              rw [if_neg (by rw [hxt]; exact Bool.false_ne_true), if_pos hyt]
            rw [heq]
            exact hx hxt
        | false => exact (hx hxt).meet (hy hyt)
  boundary e he _ := R.keeps_boundary g body e he
  edge _ _ _ hy := hy
  transfer _ _ _ _ _ _ hx htop _ ht _ := (hx htop).transfer hs ht
  observe _ _ _ _ _ _ _ _ := trivial

end Regime

/-- **At every point of every run the states that anything has reached satisfy the conditions.** -/
theorem Reachable.keeps {sc : Scanner} {R : Regime sc.context.config.maxTracked}
    (hs : R.Furnishes sc.context.store) {g : FlowGraph} {body : Body} {p : Progress}
    {it : Iteration State Progress} (h : Reachable g (sc.analysis g body) p it) :
    (∀ x ∈ it.inputs, x.isTop = false → R.Keeps x) ∧
      ∀ y ∈ it.outputs, y.isTop = false → R.Keeps y := by
  have hkept := (Regime.invariant hs g body).reachable trivial h
  constructor
  · intro x hx
    obtain ⟨n, hn⟩ := List.getElem?_of_mem hx
    exact hkept.inputs n x hn
  · intro y hy
    obtain ⟨n, hn⟩ := List.getElem?_of_mem hy
    exact hkept.outputs n y hn

end ReflectionFlow

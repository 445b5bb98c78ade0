/-
  File:      ReflectionFlow/Proofs/Scan/Tracking.lean
  Subject:   The knowledge about arrays is bounded.

  A store at a new index is tracked only while fewer than `capacity` indices are, a store at a
  tracked index replaces its entry, versions that meet keep the indices that both track, and an
  array that is stored in an array is stored without its contents.  So in every state that an
  iteration computes, every array tracks at most `capacity` indices and every array among its
  elements tracks none, if this holds of the contents that are declared for fields.

  The lengths of an array are sets, too, and code that makes no sense may leave arrays there.  The
  bound is shown of the members of sets, and likewise of all arrays that occur at any depth.

  * `ArrayOf.Bounded`, `Value.Contains`    what is said of an array, and of which arrays
  * `ArrayOf.Capped.store`, `ArrayOf.Capped.merge`   the operations on arrays
  * `Regime.bounded`
  * `analyze_bounded`
-/
import ReflectionFlow.Proofs.Scan.Regime

namespace ReflectionFlow

open SetOf

/-! ## 1. Arrays and where they occur -/

/-- **At most `capacity` indices are tracked, and by the arrays among the elements none.** -/
structure ArrayOf.Bounded (capacity : Nat) (a : ArrayValue) : Prop where
  tracked : a.tracked ≤ capacity
  elements : ∀ e ∈ a.slots, ∀ b, Value.array b ∈ e.2.values.members → b.tracked = 0

/-- **The arrays of a value**: the value itself, and with `nested` also those that occur in the
    lengths and elements of an array. -/
inductive Value.Contains (nested : Bool) : Value → ArrayValue → Prop where
  | self (a : ArrayValue) : Contains nested (.array a) a
  | held {a b : ArrayValue} {v : Value} (h : nested = true) (hv : b.Holds v)
      (ha : Contains nested v a) : Contains nested (.array b) a

/-- The arrays of a value are bounded. -/
def Value.Bounded (nested : Bool) (capacity : Nat) (v : Value) : Prop :=
  ∀ a, v.Contains nested a → a.Bounded capacity

/-- The arrays of a set are bounded. -/
def SetOf.Bounded (nested : Bool) (capacity : Nat) (s : ValueSet) : Prop :=
  ∀ v ∈ s.members, v.Bounded nested capacity

/-- The arrays on the stack and in variables are bounded. -/
structure State.Bounded (nested : Bool) (capacity : Nat) (s : State) : Prop where
  slots : ∀ v ∈ s.stack.fromTop, v.Bounded nested capacity
  vars : ∀ k, (s.vars.get k).Bounded nested capacity

/-- The arrays that are declared as contents of fields are bounded. -/
def Store.FieldsBounded (nested : Bool) (capacity : Nat) (s : Store) : Prop :=
  ∀ e ∈ s.fieldValues, e.2.Bounded nested capacity

/-! ## 2. Operations on arrays -/

section Operations

variable {nested : Bool} {capacity : Nat} {a b : ArrayValue} {s : ValueSet}

theorem SetOf.closed_members (Source : ValueSet → Prop) (P : Value → Prop) :
    Closed Source fun s => ∀ v ∈ s.members, P v where
  member h hv := fun _ hw => List.mem_singleton.mp hw ▸ h _ hv
  proper _ h := fun v hv => h v hv v List.mem_cons_self
  merge hs ht := fun v hv => (mem_of_mem_merge hv).elim (hs v) (ht v)
  flatMap _ hf := by
    intro w hw
    rcases mem_of_mem_flatMapFrom hw with hw | ⟨v, hv, hw⟩
    · cases hw
    · exact hf v hv w hw

theorem Value.bounded_plain {v : Value} (h : ∀ a, v ≠ .array a) : v.Bounded nested capacity := by
  intro a ha
  cases ha with
  | self => exact absurd rfl (h a)
  | @held _ b => exact absurd rfl (h b)

/-- **What the elements of an array may be**: bounded values, and arrays that track nothing. -/
def SetOf.Trimmed (nested : Bool) (capacity : Nat) (s : ValueSet) : Prop :=
  ∀ v ∈ s.members, v.Bounded nested capacity ∧ ∀ b, v = .array b → b.tracked = 0

theorem SetOf.Trimmed.merge {t : ValueSet} (hs : s.Trimmed nested capacity)
    (ht : t.Trimmed nested capacity) : (s.merge t).Trimmed nested capacity :=
  (closed_members (fun _ => True) _).merge hs ht

/-- An array all of whose arrays are bounded, by its parts. -/
structure ArrayOf.Capped (nested : Bool) (capacity : Nat) (a : ArrayValue) : Prop where
  tracked : a.tracked ≤ capacity
  size : nested = true → a.size.Bounded nested capacity
  slots : ∀ e ∈ a.slots, e.2.values.Trimmed nested capacity

theorem ArrayOf.bounded_of_untracked (h : a.tracked = 0) : a.Bounded capacity := by
  refine ⟨h ▸ Nat.zero_le _, fun e he => ?_⟩
  rw [List.eq_nil_of_length_eq_zero h] at he
  cases he

theorem Value.bounded_array_iff :
    (Value.array a).Bounded nested capacity ↔ a.Capped nested capacity := by
  constructor
  · intro h
    obtain ⟨htracked, helements⟩ := h a (.self a)
    refine ⟨htracked, fun hn v hv b hb => h b (.held hn (.inl hv) hb), fun e he v hv => ⟨?_, ?_⟩⟩
    · intro b hb
      cases hb with
      -- an element is bounded also if only the members of sets are asked for
      | self => exact ArrayOf.bounded_of_untracked (helements e he b hv)
      | held hn hw hb => exact h b (.held hn (.inr ⟨e, he, hv⟩) (.held hn hw hb))
    · rintro b rfl
      exact helements e he b hv
  · intro h b hb
    cases hb with
    | self => exact ⟨h.tracked, fun e he c hc => (h.slots e he _ hc).2 c rfl⟩
    | held hn hv hb =>
        rcases hv with hv | ⟨e, he, hv⟩
        · exact h.size hn _ hv b hb
        · exact (h.slots e he _ hv).1 b hb

namespace ArrayOf

theorem capped_fresh (site : Site) (h : nested = true → s.Bounded nested capacity) :
    (fresh site s).Capped nested capacity :=
  ⟨Nat.zero_le _, h, fun _ he => absurd he List.not_mem_nil⟩

theorem Capped.cleared (h : a.Capped nested capacity) : a.cleared.Capped nested capacity :=
  capped_fresh a.site h.size

theorem Capped.element (h : a.Capped nested capacity) (index : Int32) :
    (a.element index).Bounded nested capacity := by
  unfold ArrayOf.element slot?
  cases hslot : Assoc.get? a.slots index with
  | none => exact fun v hv => List.mem_singleton.mp hv ▸ Value.bounded_plain nofun
  | some slot => exact fun v hv => (h.slots (index, slot) (Assoc.mem_of_get? hslot) v hv).1

/-- **Arrays lose their contents when they are stored in an array.** -/
theorem trimmed_withoutContents (h : s.Bounded nested capacity) :
    (s.map Value.withoutContents).Trimmed nested capacity := by
  intro w hw
  rcases mem_of_mem_foldl_insert hw with hw | hw
  · cases hw
  · obtain ⟨v, hv, rfl⟩ := List.mem_map.mp hw
    cases v with
    | array a =>
        have hcapped := Value.bounded_array_iff.mp (h _ hv)
        refine ⟨Value.bounded_array_iff.mpr hcapped.cleared, ?_⟩
        rintro b hb
        obtain rfl := Value.array.inj hb
        rfl
    | _ => exact ⟨Value.bounded_plain (Value.ne_array rfl), nofun⟩

theorem tracked_store_le (ha : a.tracked ≤ capacity) (index : Int32) (block : Nat) :
    (a.store index s block capacity).tracked ≤ capacity := by
  -- an entry that is replaced makes no new one
  have hset : ∀ {slot : Slot Value} (new : Slot Value), a.slot? index = some slot →
      (a.withSlot index new).tracked ≤ capacity := fun new hslot =>
    (Assoc.length_insert_of_get? hslot).trans_le ha
  rcases a.store_cases index s block capacity with
    ⟨_, h⟩ | ⟨⟨_, hroom⟩ | ⟨slot, hslot, _⟩, h⟩ | ⟨slot, hslot, _, h⟩
  · rw [h]
    exact ha
  · rw [h]
    exact (Assoc.length_insert_le _ _ _).trans hroom
  · rw [h]
    exact hset _ hslot
  · rw [h]
    exact hset _ hslot

theorem tracked_merge_le (a b : ArrayValue) : (a.merge b).tracked ≤ a.tracked := by
  unfold ArrayOf.merge
  split
  · exact Nat.le_refl _
  · exact List.length_filterMap_le _ _

/-- **A store respects the bound**: a new index is tracked only if there is room. -/
theorem Capped.store (h : a.Capped nested capacity) (index : Int32)
    (hs : s.Bounded nested capacity) (block : Nat) :
    (a.store index s block capacity).Capped nested capacity := by
  have htrimmed := trimmed_withoutContents hs
  refine ⟨tracked_store_le h.tracked index block, fun hn => ?_,
    forall_slots_store (fun _ _ => Trimmed.merge) h.slots htrimmed index block capacity⟩
  rw [size_store]
  exact h.size hn

/-- **Versions that meet respect the bound**: only indices that both track stay tracked. -/
theorem Capped.merge (ha : a.Capped nested capacity) (hb : b.Capped nested capacity) :
    (a.merge b).Capped nested capacity := by
  have hsize : ∀ s t : ValueSet, s.Bounded nested capacity → t.Bounded nested capacity →
      (s.merge t).Bounded nested capacity := fun _ _ => (closed_members (fun _ => True) _).merge
  exact ⟨(tracked_merge_le a b).trans ha.tracked, fun hn => size_merge_of hsize (ha.size hn) (hb.size hn),
    forall_slots_merge (fun _ _ => Trimmed.merge) ha.slots hb.slots⟩

end ArrayOf

end Operations

/-! ## 3. Runs -/

/-- **Bounded arrays**, on the stack and in variables alike. -/
def Regime.bounded (nested : Bool) (capacity : Nat) : Regime capacity where
  Pushed := SetOf.Bounded nested capacity
  Stored := SetOf.Bounded nested capacity
  Sound := ArrayOf.Capped nested capacity
  pushed := closed_members _ _
  stored := closed_members _ _
  weaken h := h
  direct h _ := h
  plain h := fun _ hw => List.mem_singleton.mp hw ▸ Value.bounded_plain h
  array := ⟨fun h => Value.bounded_array_iff.mp (h _ List.mem_cons_self),
    fun h _ hw => List.mem_singleton.mp hw ▸ Value.bounded_array_iff.mpr h⟩
  fresh site h := ArrayOf.capped_fresh site fun _ => h
  cleared := ArrayOf.Capped.cleared
  element index h := h.element index
  store index block h hv := h.store index hv block
  merge := ArrayOf.Capped.merge

theorem State.bounded_top (nested : Bool) (capacity : Nat) : State.top.Bounded nested capacity :=
  ⟨fun _ hv => absurd hv List.not_mem_nil, fun _ _ hv => absurd hv List.not_mem_nil⟩

/-- At every point of every run the arrays are bounded; what nothing has reached holds none. -/
theorem Reachable.bounded {sc : Scanner} {nested : Bool}
    (hs : sc.context.store.FieldsBounded nested sc.context.config.maxTracked) {g : FlowGraph}
    {body : Body} {p : Progress} {it : Iteration State Progress}
    (h : Reachable g (sc.analysis g body) p it) :
    ∀ x ∈ it.inputs ++ it.outputs, x.Bounded nested sc.context.config.maxTracked := by
  obtain ⟨hinputs, houtputs⟩ := h.keeps (R := .bounded nested _) hs
  intro x hx
  cases htop : x.isTop with
  | true => exact State.eq_top_of_isTop htop ▸ State.bounded_top _ _
  | false =>
      have hkept := (List.mem_append.mp hx).elim (hinputs x · htop) (houtputs x · htop)
      exact ⟨hkept.slots, hkept.get⟩

/-- **The knowledge about arrays is bounded.**  If the contents that are declared for fields respect
    the bound, so do all arrays on the stack and in variables at every point of every run that
    analyzes a method, and in the states that an analysis reports. -/
theorem analyze_bounded (s : Store) (config : Config) (nested : Bool)
    (hs : s.FieldsBounded nested config.maxTracked) (typeArgs methodArgs : List TypeSig) :
    (∀ m needs body g p it, Reachable g
      ((Scanner.ofContext ⟨s, config, m, typeArgs, methodArgs⟩ needs).analysis g body) p it →
      ∀ x ∈ it.inputs ++ it.outputs, x.Bounded nested config.maxTracked) ∧
    ∀ token session report after solution,
      (s.analyze config token typeArgs methodArgs).run session = (.ok report, after) →
      report.states = some solution →
      ∀ x ∈ solution.inputs ++ solution.outputs, x.Bounded nested config.maxTracked := by
  constructor
  · intro m needs body g p it h
    exact h.bounded hs
  · intro token session report after solution h hstates
    obtain ⟨m, body, g, needs, start, p, _, _, _, hsolve⟩ := Store.analyze_states h hstates
    obtain ⟨it, hreach, _, hinputs, houtputs, _⟩ := Reachable.of_solve hsolve
    rw [← hinputs, ← houtputs]
    exact hreach.bounded hs

namespace Crammed

/-- The type that declares everything. -/
def owner : Token := ⟨0x02000001⟩

def field : Token := ⟨0x04000001⟩

def method : Token := ⟨0x06000001⟩

/-- One index of an array is tracked. -/
def config : Config := { maxTracked := 1 }

/-- What is known of the contents of the field: an array of one element. -/
def contents : ArrayValue := ⟨⟨field, 0⟩, .single (.int 1), [(0, ⟨.single (.string "a"), 0⟩)]⟩

/-- Creates an array of two elements, and stores the contents of the field at the first index and a
    text at the second. -/
def store : Store := .ofList
  [.type "app" "N" "C" 1 none, .field owner "F" 0x16 (.prim .object),
   .fieldValue field (.single (.array contents)),
   .method owner "M" 0x16 ⟨false, false, 0, .prim .void, []⟩,
   .body method
    { maxStack := 3
      initLocals := true
      locals := [.prim .object]
      instructions := [⟨0, .ldcI42, .empty⟩, ⟨1, .newarr, .token owner⟩, ⟨6, .stloc0, .empty⟩,
        ⟨7, .ldloc0, .empty⟩, ⟨8, .ldcI40, .empty⟩, ⟨9, .ldsfld, .token field⟩,
        ⟨14, .stelemRef, .empty⟩, ⟨15, .ldloc0, .empty⟩, ⟨16, .ldcI41, .empty⟩,
        ⟨17, .ldstr, .string "b"⟩, ⟨22, .stelemRef, .empty⟩, ⟨23, .ret, .empty⟩]
      clauses := [] }]

/-- The array that the method creates, when it returns. -/
def created : ArrayValue :=
  ⟨⟨method, 1⟩, .single (.int 2), [(0, ⟨.single (.array contents.cleared), 1⟩)]⟩

theorem store_fieldsBounded : store.FieldsBounded true config.maxTracked := by
  have hvalues : store.fieldValues = [(field, .single (.array contents))] := by decide +kernel
  have hplain : ∀ {v w : Value}, v.isArray = false → w ∈ (single v).members → w.Bounded true 1 :=
    fun hv hw => List.mem_singleton.mp hw ▸ Value.bounded_plain (Value.ne_array hv)
  have hcontents : contents.Capped true 1 := by
    refine ⟨by decide, fun _ _ hv => hplain rfl hv, fun e he v hv => ?_⟩
    obtain rfl := List.mem_singleton.mp he
    exact ⟨hplain rfl hv, fun b hb => nomatch (List.mem_singleton.mp hv).symm.trans hb⟩
  intro e he v hv
  rw [hvalues] at he
  obtain rfl := List.mem_singleton.mp he
  exact List.mem_singleton.mp hv ▸ Value.bounded_array_iff.mpr hcontents

/-- The state in which a block is left, if the iteration has ended. -/
def leftWith (r : Except AnalysisFault MethodReport) (block : Nat) : Option State := do
  let report ← r.toOption
  let solution ← report.states
  solution.outputs[block]?

theorem left_first : leftWith ((store.analyze config method).run {}).1 1 =
    some ⟨⟨.unknown, [(.loc 0, .single (.array created))]⟩, .slots []⟩ := by
  decide +kernel

end Crammed

/-- Of the two indices the first is tracked, and the array there has lost its contents. -/
theorem crammed_bounded : ∃ x,
    Crammed.leftWith ((Crammed.store.analyze Crammed.config Crammed.method).run {}).1 1 = some x ∧
    x.vars.get (.loc 0) = .single (.array Crammed.created) ∧ x.Bounded true 1 := by
  have hleft := Crammed.left_first
  generalize hanswer : (Crammed.store.analyze Crammed.config Crammed.method).run {} = answer
    at hleft ⊢
  obtain ⟨fault | report, after⟩ := answer
  · cases hleft
  · obtain ⟨solution, hstates, houtput⟩ := Option.bind_eq_some_iff.mp hleft
    obtain ⟨_, hreports⟩ :=
      analyze_bounded Crammed.store Crammed.config true Crammed.store_fieldsBounded [] []
    have hbounded := hreports _ _ _ _ solution hanswer hstates
    exact ⟨_, hleft, rfl, hbounded _ (List.mem_append_right _ (List.mem_of_getElem? houtput))⟩

end ReflectionFlow

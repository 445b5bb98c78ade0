/-
  File:      ReflectionFlow/Proofs/Scan/WellFormed.lean
  Subject:   The states of an iteration are well formed.

  Every instruction takes proper sets from the stack and leaves proper sets, and what it stores it
  has freed of addresses before.  Results of calls are the only sets that may be empty; an unknown
  value is left in their place.  Where paths meet, proper sets meet.  So in every state that an
  iteration computes for a reached block, no set is empty, the unknown value stands alone, and
  addresses lie on the stack only.

  * `State.WellFormed`       what is said of a state
  * `Regime.wellFormed`      the laws that the interpretation of a method needs of it
  * `analyze_wellFormed`
-/
import ReflectionFlow.Proofs.Scan.Regime

namespace ReflectionFlow

open SetOf

/-! ## 1. States -/

/-- **Well-formed states.**  The stack is a real one.  Variables that are not stored are unknown,
    and none is stored that is unknown.  All sets are proper, down to the contents of arrays, and
    only those on the stack may hold addresses. -/
structure State.WellFormed (s : State) : Prop where
  vars : s.vars.Over Stored
  default : s.vars.default = .unknown
  stack : s.stack.isTop = false
  slots : ∀ v ∈ s.stack.fromTop, v.Pushed

/-- What is declared about the contents of fields can be stored. -/
def Store.FieldsStored (s : Store) : Prop := ∀ e ∈ s.fieldValues, e.2.Stored

theorem SetOf.closed_filled (P Q : Value → Prop) : Closed (Filled P) (Filled Q) where
  member h hv := filled_single (h.members _ hv)
  proper hs h := ⟨hs, fun v hv => (h v hv).members v List.mem_cons_self⟩
  merge := Filled.merge
  flatMap := Filled.flatMap

/-- **Proper sets, without addresses where they are stored.** -/
def Regime.wellFormed (capacity : Nat) : Regime capacity where
  Pushed := SetOf.Pushed
  Stored := SetOf.Stored
  Sound := ArrayOf.Sound
  pushed := closed_filled _ _
  stored := closed_filled _ _
  weaken := Stored.pushed
  direct hs h := hs.mono fun v hv hsound => ⟨hsound, h v hv⟩
  plain h := filled_single (.plain h)
  array := ⟨fun h => Value.sound_array_iff.mp (h.members _ List.mem_cons_self),
    fun h => (SetOf.stored_array h).pushed⟩
  fresh site h := ArrayOf.sound_fresh site h
  cleared := ArrayOf.Sound.cleared
  element index h := h.element index
  store index block h hv := h.store index hv block _
  merge := ArrayOf.Sound.merge

namespace State

variable {s : State}

theorem wellFormed_iff (capacity : Nat) : s.WellFormed ↔ (Regime.wellFormed capacity).Keeps s :=
  ⟨fun h => ⟨h.vars, h.default, h.stack, h.slots⟩, fun h => ⟨h.vars, h.default, h.stack, h.slots⟩⟩

theorem WellFormed.get (h : s.WellFormed) (k : VarKey) : (s.vars.get k).Stored := h.vars.get k

theorem WellFormed.withVars (h : s.WellFormed) {m : Variables} (hm : m.Over Stored)
    (hd : m.default = s.vars.default) : WellFormed { s with vars := m } :=
  ⟨hm, hd.trans h.default, h.stack, h.slots⟩

/-- The arrays that a well-formed state holds are sound. -/
theorem WellFormed.versions (h : s.WellFormed) (site : Site) : ∀ a ∈ s.versions site, a.Sound :=
  ((wellFormed_iff 0).mp h).versions site

/-- **A sound array in place of others.** -/
theorem WellFormed.replaceArray (h : s.WellFormed) (versions : List ArrayValue)
    {updated : ArrayValue} (hu : updated.Sound) : (s.replaceArray versions updated).WellFormed :=
  (wellFormed_iff 0).mpr (((wellFormed_iff 0).mp h).replaceArray versions hu)

end State

theorem Scanner.sound_mergeVersions? {versions : List ArrayValue} (h : ∀ a ∈ versions, a.Sound)
    {a : ArrayValue} (ha : mergeVersions? versions = some a) : a.Sound :=
  mergeVersions?_of_forall ArrayOf.Sound.merge h ha

/-! ## 2. Runs -/

/-- **The states at the borders of blocks are well formed** as far as anything has reached them;
    and a block that was reached has been left. -/
structure BordersWellFormed (inputs outputs : List State) : Prop where
  entered : ∀ x ∈ inputs, x.isTop = false → x.WellFormed
  left : ∀ y ∈ outputs, y.isTop = false → y.WellFormed
  reached : ∀ (n : Nat) (x : State), inputs[n]? = some x → x.isTop = false →
    ∃ y, outputs[n]? = some y ∧ y.isTop = false

/-- At every point of every run the states are well formed. -/
theorem Reachable.bordersWellFormed {sc : Scanner} (hs : sc.context.store.FieldsStored)
    {g : FlowGraph} {body : Body} {p : Progress} {it : Iteration State Progress}
    (h : Reachable g (sc.analysis g body) p it) : BordersWellFormed it.inputs it.outputs := by
  obtain ⟨hinputs, houtputs⟩ := h.keeps (R := .wellFormed _) hs
  constructor
  · exact fun x hx hreached => (State.wellFormed_iff _).mpr (hinputs x hx hreached)
  · exact fun y hy hreached => (State.wellFormed_iff _).mpr (houtputs y hy hreached)
  · intro n x hx hreached
    refine h.output_of_input (T := fun y => y.isTop = false) (fun b x y q q' ht => ?_) rfl hx hreached
    obtain ⟨l, hl, _⟩ := Stack.depth?_eq_some.mp (Scanner.depth?_transfer ht)
    unfold State.isTop
    rw [hl]
    rfl

/-- **The states of an analysis are well formed.**  If what is declared about the contents of fields
    can be stored, the states are well formed at every point of every run that analyzes a method,
    and so are those that an analysis reports. -/
theorem analyze_wellFormed (s : Store) (hs : s.FieldsStored) (config : Config)
    (typeArgs methodArgs : List TypeSig) :
    (∀ m needs body g p it, Reachable g
      ((Scanner.ofContext ⟨s, config, m, typeArgs, methodArgs⟩ needs).analysis g body) p it →
      BordersWellFormed it.inputs it.outputs) ∧
    ∀ token session report after solution,
      (s.analyze config token typeArgs methodArgs).run session = (.ok report, after) →
      report.states = some solution → BordersWellFormed solution.inputs solution.outputs := by
  constructor
  · intro m needs body g p it h
    exact Reachable.bordersWellFormed hs h
  · intro token session report after solution h hstates
    obtain ⟨m, body, g, needs, start, p, _, _, _, hsolve⟩ := Store.analyze_states h hstates
    obtain ⟨it, hreach, _, hinputs, houtputs, _⟩ := Reachable.of_solve hsolve
    rw [← hinputs, ← houtputs]
    exact Reachable.bordersWellFormed hs hreach

namespace Furnished

/-- The type that declares everything. -/
def owner : Token := ⟨0x02000001⟩

def field : Token := ⟨0x04000001⟩

def method : Token := ⟨0x06000001⟩

/-- What is known of the contents of the field: an array of two elements, the first a type. -/
def contents : ArrayValue :=
  ⟨⟨field, 0⟩, .single (.int 2), [(0, ⟨.single (.type owner), 0⟩)]⟩

/-- Keeps the array in a variable, leaves the address of another one on the stack for the next block,
    and stores the array through it. -/
def store : Store := .ofList
  [.type "app" "N" "C" 1 none, .field owner "F" 0x16 (.prim .object),
   .fieldValue field (.single (.array contents)),
   .method owner "M" 0x16 ⟨false, false, 0, .prim .void, []⟩,
   .body method
    { maxStack := 2
      initLocals := true
      locals := [.prim .object, .prim .object]
      instructions := [⟨0, .ldsfld, .token field⟩, ⟨5, .stloc0, .empty⟩, ⟨6, .ldlocaS, .loc 1⟩,
        ⟨8, .brS, .target 10⟩, ⟨10, .ldloc0, .empty⟩, ⟨11, .stindRef, .empty⟩, ⟨12, .ret, .empty⟩]
      clauses := [] }]

theorem contents_sound : contents.Sound := by
  refine ⟨stored_single nofun rfl, fun e he => ?_⟩
  obtain rfl := List.mem_singleton.mp he
  exact stored_single nofun rfl

theorem store_fieldsStored : store.FieldsStored := by
  have hvalues : store.fieldValues = [(field, .single (.array contents))] := by decide +kernel
  intro e he
  rw [hvalues] at he
  obtain rfl := List.mem_singleton.mp he
  exact stored_array contents_sound

/-- The state in which a block is entered, if the iteration has ended. -/
def enteredWith (r : Except AnalysisFault MethodReport) (block : Nat) : Option State := do
  let report ← r.toOption
  let solution ← report.states
  solution.inputs[block]?

/-- The second block is entered with the array in one variable and the address of the other on the
    stack. -/
theorem entered_second : enteredWith ((store.analyze {} method).run {}).1 2 =
    some ⟨⟨.unknown, [(.loc 0, .single (.array contents))]⟩, .slots [.single (.address (.loc 1))]⟩ := by
  decide +kernel

end Furnished

/-- The array and the address are where they may be. -/
theorem furnished_wellFormed : ∃ x,
    Furnished.enteredWith ((Furnished.store.analyze {} Furnished.method).run {}).1 2 = some x ∧
    x.stack.fromTop = [.single (.address (.loc 1))] ∧ x.WellFormed := by
  have hentered := Furnished.entered_second
  generalize hanswer : (Furnished.store.analyze {} Furnished.method).run {} = answer at hentered ⊢
  obtain ⟨fault | report, after⟩ := answer
  · cases hentered
  · obtain ⟨solution, hstates, hinput⟩ := Option.bind_eq_some_iff.mp hentered
    obtain ⟨_, hreports⟩ := analyze_wellFormed Furnished.store Furnished.store_fieldsStored {} [] []
    have hborders := hreports _ _ _ _ solution hanswer hstates
    exact ⟨_, hentered, rfl, hborders.entered _ (List.mem_of_getElem? hinput) rfl⟩

end ReflectionFlow

/-
  File:      ReflectionFlow/Proofs/Scan/Simple.lean
  Subject:   Code without calls, arrays and stores through addresses converges at its depths.

  Simple code moves values about: it loads and stores variables and fields, reads through
  addresses, casts, branches, and is entered by exceptions.  If each of its blocks can be given one
  depth, the values that it comes upon are finitely many and visits are monotone, with one
  exception.  The contents that are declared for fields may hold arrays and addresses of their
  elements.  What is read through such an address is unknown while no version of the array is held,
  or one that does not track the index, and known while all versions do: a state that covers more
  reads less.  A loop over one array and an address into it can swing for ever.

  * `Body.Simple`                  such code
  * `FlowGraph.Leveled`            a depth for each block; `FlowGraph.Leveled.stackBounded`
  * `Scanner.Met`                  the values that it comes upon; `Scanner.Apart`
  * `Scanner.confined_met`         simple code is confined to them
  * `analyze_simple_converges`
  * `pointing_exhausts`            a loop over an array and an address into it
-/
import ReflectionFlow.Proofs.Flow.Representation
import ReflectionFlow.Proofs.Scan.Termination

namespace ReflectionFlow

/-! ## 1. Simple code -/

/-- Does an instruction of the role call a method? -/
def Role.calls : Role → Bool
  | .call | .construct | .callIndirect => true
  | _ => false

/-- **Simple code** calls nothing, has no instructions for arrays, and does not store through
    addresses. -/
def Body.Simple (b : Body) : Prop :=
  ∀ i ∈ b.instructions, i.opcode.role.calls = false ∧ i.opcode.role.usesArrays = false ∧
    i.opcode.role.storesThrough = false

instance (b : Body) : Decidable b.Simple :=
  inferInstanceAs (Decidable (∀ i ∈ b.instructions, _ ∧ _ ∧ _))

theorem Body.Simple.callsQuietly {b : Body} (h : b.Simple) (sc : Scanner) (answers : Answers) :
    b.CallsQuietly sc answers := by
  intro i hi
  obtain ⟨hcalls, _, _⟩ := h i hi
  unfold Scanner.CallsQuietly
  cases hr : i.opcode.role with
  | call | construct =>
      rw [hr] at hcalls
      exact absurd hcalls (by decide)
  | _ => trivial

/-! ## 2. Depths of blocks -/

namespace FlowGraph

/-- **Depths for the blocks of a body.**  The method is entered with an empty stack and a handler
    with the exception, if its kind receives one, and every edge between blocks leads from what the
    code of one leaves to the depth of the other.  Stacks that reach the exit may differ. -/
structure Leveled (effect : Instruction → StackEffect) (g : FlowGraph) (body : Body)
    (depth : Nat → Nat) : Prop where
  entry : depth g.entry = 0
  handler : ∀ h ∈ g.handlers, depth h.1 = h.2.receivesException.toNat
  edge : ∀ n < g.blockCount, ∀ m ∈ g.graph.successors n, m ≠ g.exit →
    depthAfter effect (g.codeOf body n) (depth n) = depth m

variable {effect : Instruction → StackEffect} {g : FlowGraph} {body : Body} {depth : Nat → Nat}

/-- No edge leaves the exit. -/
theorem ne_exit_of_mem_successors (hg : ofBody body = .ok g) {n m : Nat}
    (hm : m ∈ g.graph.successors n) : n ≠ g.exit := by
  obtain ⟨_, _, hd⟩ := ofBody_inv hg
  obtain ⟨hedges, _⟩ := ofBody_edges hg
  obtain ⟨e, he, rfl, _⟩ := Digraph.mem_successors.mp hm
  have hexit : g.exit = body.blocks.length + 1 := hd.exit_eq
  rcases hedges e he with ⟨hs, _⟩ | ⟨k, _, _, _, _, hk, hs, _⟩
  · omega
  · have hlt : k < body.blocks.length := (List.getElem?_eq_some_iff.mp hk).1
    omega

/-- **Depths for the blocks bound the depths of all paths.** -/
theorem Leveled.stackBounded (h : Leveled effect g body depth) (hg : ofBody body = .ok g) :
    g.StackBounded effect body := by
  obtain ⟨_, _, hd⟩ := ofBody_inv hg
  let bound := ((List.range g.blockCount).map fun n =>
    depth n + depthAfter effect (g.codeOf body n) (depth n)).sum
  have hle : ∀ n < g.blockCount,
      depth n + depthAfter effect (g.codeOf body n) (depth n) ≤ bound := fun n hn =>
    List.le_sum_of_mem (List.mem_map_of_mem (List.mem_range.mpr hn))
  -- along a path the depth is that of the block, until the exit is reached
  have hpath : ∀ n d, g.DepthAt effect body n d → (n ≠ g.exit → d = depth n) ∧ d ≤ bound := by
    intro n d hn
    induction hn with
    | entry => exact ⟨fun _ => h.entry.symm, Nat.zero_le _⟩
    | handler k hk =>
        have := hle k.1 (hd.handler_lt hk)
        rw [h.handler k hk] at this
        exact ⟨fun _ => (h.handler k hk).symm, by omega⟩
    | edge b c d _ hc ih =>
        obtain rfl := ih.1 (ne_exit_of_mem_successors hg hc)
        obtain ⟨e, he, rfl, _⟩ := Digraph.mem_successors.mp hc
        have hlt := (hd.bounded e he).1
        have := hle e.source hlt
        exact ⟨fun hne => h.edge _ hlt c hc hne, by omega⟩
  exact ⟨bound, fun n d hn => (hpath n d hn).2⟩

end FlowGraph

/-! ## 3. Contents of fields -/

/-- The contents that are declared for fields are sets in canonical form. -/
def Store.FieldsCanonical (s : Store) : Prop := ∀ e ∈ s.fieldValues, e.2.Canonical

/-- Some field is declared to hold the value. -/
def Store.Declares (s : Store) (v : Value) : Prop := ∃ e ∈ s.fieldValues, v ∈ e.2.members

namespace Scanner

variable {sc : Scanner} {session : Session} {body : Body} {f : Token}

theorem canonical_loadField (hcan : sc.context.store.FieldsCanonical) (f : Token) :
    (sc.loadField f).Canonical := by
  rcases sc.loadField_cases f with ⟨e, he, h⟩ | ⟨v, _, _, h⟩ | ⟨t, h⟩
  · exact h ▸ hcan e he
  · exact h ▸ SetOf.canonical_single v
  · exact h ▸ SetOf.canonical_single _

/-- Addresses are read only from fields that are declared to hold them. -/
theorem declares_of_address {l : Location} (hl : .address l ∈ (sc.loadField f).members) :
    sc.context.store.Declares (.address l) := by
  rcases sc.loadField_cases f with ⟨e, he, h⟩ | ⟨v, _, haddress, h⟩ | ⟨t, h⟩
  · exact ⟨e, he, h ▸ hl⟩
  · rw [h] at hl
    rw [← List.mem_singleton.mp hl] at haddress
    cases haddress
  · rw [h] at hl
    cases List.mem_singleton.mp hl

/-- Arrays are read from fields that are declared to hold them, or are always known. -/
theorem declares_of_array {a : ArrayValue} (ha : .array a ∈ (sc.loadField f).members) :
    sc.context.store.Declares (.array a) ∨ ∃ t, a.site = ⟨t, 0⟩ := by
  rcases sc.loadField_cases f with ⟨e, he, h⟩ | ⟨v, harray, _, h⟩ | ⟨t, h⟩
  · exact Or.inl ⟨e, he, h ▸ ha⟩
  · rw [h] at ha
    exact absurd (List.mem_singleton.mp ha).symm (harray a)
  · rw [h] at ha
    obtain rfl := Value.array.inj (List.mem_singleton.mp ha)
    exact Or.inr ⟨t, rfl⟩

/-- What an instruction brings in is canonical, as contents of fields are. -/
theorem within_supplied (hcan : sc.context.store.FieldsCanonical) (i : Instruction) :
    (sc.supplied session i).Within fun v => v.Plain ∨ OfField i v ∨ sc.OfContents i v :=
  supplied_origin fun _ f _ _ => canonical_loadField hcan f

/-! ## 4. The values that simple code comes upon -/

/-- **The values that interpreting a body comes upon**: what is brought in, and what is read
    through addresses of fields among it. -/
inductive Met (sc : Scanner) (session : Session) (body : Body) : Value → Prop where
  | brought (v : Value) (h : Brought sc session body v) : Met sc session body v
  | field (f : Token) (h : Met sc session body (.address (.field f))) (v : Value)
      (hv : v ∈ (sc.loadField f).members) : Met sc session body v

/-- **No array meets the address of one of its elements.** -/
def Apart (sc : Scanner) (session : Session) (body : Body) : Prop :=
  ∀ site n a, sc.Met session body (.address (.element site (some n))) →
    sc.Met session body (.array a) → a.site ≠ site

/-- Arrays and addresses come from fields, apart from addresses of fields that the code names. -/
theorem Met.origin (hcan : sc.context.store.FieldsCanonical) {v : Value}
    (h : sc.Met session body v) :
    v.Plain ∨ (∃ i ∈ body.instructions, OfField i v) ∨ ∃ f, v ∈ (sc.loadField f).members := by
  cases h with
  | field f _ _ hv => exact Or.inr (Or.inr ⟨f, hv⟩)
  | brought _ h =>
      cases h with
      | unknown => exact Or.inl trivial
      | entry e he =>
          obtain ⟨_, _, _, hsymbol⟩ := symbol_of_mem_entryArguments he
          exact Or.inl (hsymbol ▸ trivial)
      | supplied i hi _ hv =>
          rcases (within_supplied hcan i).members v hv with h | h | ⟨_, f, _, _, h⟩
          · exact Or.inl h
          · exact Or.inr (Or.inl ⟨i, hi, h⟩)
          · exact Or.inr (Or.inr ⟨f, h⟩)
      | field i _ f _ _ hv => exact Or.inr (Or.inr ⟨f, hv⟩)
      | parameter n => exact Or.inl trivial
      | target n => exact Or.inl trivial

/-- If declared addresses of elements refer to no declared array, and to none that is always known,
    then no array meets the address of one of its elements. -/
theorem apart_of_declared (hcan : sc.context.store.FieldsCanonical)
    (h : ∀ site n, sc.context.store.Declares (.address (.element site (some n))) →
      (∀ t, (⟨t, 0⟩ : Site) ≠ site) ∧
        ∀ a, sc.context.store.Declares (.array a) → a.site ≠ site) :
    sc.Apart session body := by
  intro site n a haddress harray
  have hdeclared : sc.context.store.Declares (.address (.element site (some n))) := by
    rcases haddress.origin hcan with hp | ⟨_, _, _, _, _, _, heq⟩ | ⟨f, hf⟩
    · exact absurd hp id
    · cases heq
    · exact declares_of_address hf
  obtain ⟨hknown, harrays⟩ := h site n hdeclared
  rcases harray.origin hcan with hp | ⟨_, _, _, _, _, _, heq⟩ | ⟨f, hf⟩
  · exact absurd hp id
  · cases heq
  · rcases declares_of_array hf with hd | ⟨t, ht⟩
    · exact harrays a hd
    · exact ht ▸ hknown t

/-- The fields whose contents may be read: those that the code names, and those whose address some
    field is declared to hold. -/
def fieldsInReach (sc : Scanner) (body : Body) : List Token :=
  body.instructions.filterMap Instruction.token? ++
    sc.context.store.fieldValues.flatMap fun e => e.2.members.filterMap fun
      | .address (.field f) => some f
      | _ => none

theorem mem_fieldsInReach (hcan : sc.context.store.FieldsCanonical) {f : Token}
    (h : sc.Met session body (.address (.field f))) : f ∈ sc.fieldsInReach body := by
  rcases h.origin hcan with hp | ⟨i, hi, _, f', _, hf', heq⟩ | ⟨f', hf'⟩
  · exact absurd hp id
  · obtain rfl := Location.field.inj (Value.address.inj heq)
    exact List.mem_append_left _ (List.mem_filterMap.mpr ⟨i, hi, hf'⟩)
  · obtain ⟨e, he, hv⟩ := declares_of_address hf'
    refine List.mem_append_right _ (List.mem_flatMap.mpr ⟨e, he, ?_⟩)
    exact List.mem_filterMap.mpr ⟨_, hv, rfl⟩

theorem finite_met (hcan : sc.context.store.FieldsCanonical) :
    {v | sc.Met session body v}.Finite := by
  have hread := List.finite_toSet ((sc.fieldsInReach body).flatMap fun f => (sc.loadField f).members)
  refine ((finite_brought sc session body).union hread).subset fun v hv => ?_
  cases hv with
  | brought _ h => exact Or.inl h
  | field f h _ hv => exact Or.inr (List.mem_flatMap.mpr ⟨f, mem_fieldsInReach hcan h, hv⟩)

/-- **Simple code is confined to the values that it comes upon**, if no array among them meets the
    address of one of its elements. -/
theorem confined_met (hcan : sc.context.store.FieldsCanonical)
    (hsimple : body.Simple) (hapart : sc.Apart session body) :
    sc.Confined session body (sc.Met session body) where
  calls := hsimple.callsQuietly sc _
  range :=
    { unknown := .brought _ .unknown
      apart := hapart
      fields := fun f hf => ⟨canonical_loadField hcan f, fun v hv => .field f hf v hv⟩
      parameters := fun n => .brought _ (.parameter n)
      targets := fun n => .brought _ (.target n) }
  tame i hi := by
    obtain ⟨_, harrays, hdirect⟩ := hsimple i hi
    have hsupplied : (sc.supplied session i).Within (sc.Met session body) :=
      ⟨(within_supplied hcan i).toCanonical, fun v hv => .brought v (.supplied i hi v hv)⟩
    refine ⟨hsupplied, hdirect, fun hr => ?_, fun hr => ?_⟩
    · rw [hr] at harrays
      exact absurd harrays (by decide)
    · exact absurd (hr.symm.trans harrays) (by decide)
  entry e he := .brought _ (.entry e he)
  finite := finite_met hcan

end Scanner

/-! ## 5. Convergence -/

namespace Pointing

def owner : Token := ⟨0x02000001⟩

/-- Holds the address of an element. -/
def pointer : Token := ⟨0x04000001⟩

/-- Holds an array whose element is known. -/
def filled : Token := ⟨0x04000002⟩

/-- Holds an array of which nothing is known. -/
def blank : Token := ⟨0x04000003⟩

def method : MethodDef where
  token := ⟨0x06000001⟩
  declaring := owner
  name := "M"
  flags := 0x16
  sig := ⟨false, false, 0, .prim .void, []⟩
  paramNames := []

/-- Where both arrays were created. -/
def site : Site := ⟨method.token, 0⟩

/-- Keeps the array of which nothing is known, then for ever what is read through the address, with
    the other array on the stack. -/
def body : Body where
  maxStack := 2
  initLocals := true
  locals := [.prim .object]
  instructions :=
    [⟨0, .ldsfld, .token blank⟩, ⟨5, .stloc0, .empty⟩, ⟨6, .ldsfld, .token filled⟩,
     ⟨11, .ldsfld, .token pointer⟩, ⟨16, .ldindRef, .empty⟩, ⟨17, .stloc0, .empty⟩,
     ⟨18, .pop, .empty⟩, ⟨19, .brS, .target 6⟩]
  clauses := []

def graph : FlowGraph where
  graph :=
    { nodes := [.entry, .code ⟨none, 0, 0, 2⟩, .code ⟨none, 6, 2, 8⟩, .exit]
      edges := [⟨0, 1, .entry⟩, ⟨1, 2, .fallthrough⟩, ⟨2, 2, .branch⟩] }
  handlers := []
  starts := [(0, 1), (6, 2)]

/-- The program, with an address into the array that was created at a given site. -/
def store (target : Site) : Store := .ofList
  [.type "app" "N" "C" 1 none, .field owner "F1" 0x16 (.prim .object),
   .field owner "F2" 0x16 (.prim .object), .field owner "F3" 0x16 (.prim .object),
   .fieldValue pointer (.single (.address (.element target (some 0)))),
   .fieldValue filled (.single (.array ⟨site, .single (.int 1), [(0, ⟨.single (.string "x"), 0⟩)]⟩)),
   .fieldValue blank (.single (.array ⟨site, .single (.int 1), []⟩)),
   .method method.declaring method.name method.flags method.sig,
   .body method.token body]

theorem ofBody_body : FlowGraph.ofBody body = .ok graph := by decide +kernel

theorem simple_body : body.Simple := by decide

variable {target : Site}

theorem fieldValues_store : (store target).fieldValues =
    [(pointer, .single (.address (.element target (some 0)))),
     (filled, .single (.array ⟨site, .single (.int 1), [(0, ⟨.single (.string "x"), 0⟩)]⟩)),
     (blank, .single (.array ⟨site, .single (.int 1), []⟩))] := rfl

theorem canonical_store : (store target).FieldsCanonical := by
  unfold Store.FieldsCanonical
  rw [fieldValues_store]
  simp only [List.forall_mem_cons]
  exact ⟨SetOf.canonical_single _, SetOf.canonical_single _, SetOf.canonical_single _, nofun⟩

theorem declares_store {v : Value} (h : (store target).Declares v) :
    v = .address (.element target (some 0)) ∨ ∃ a, v = .array a ∧ a.site = site := by
  obtain ⟨e, he, hv⟩ := h
  rw [fieldValues_store] at he
  rcases List.mem_cons.mp he with rfl | he
  · exact Or.inl (List.mem_singleton.mp hv)
  rcases List.mem_cons.mp he with rfl | he
  · exact Or.inr ⟨_, List.mem_singleton.mp hv, rfl⟩
  · obtain rfl := List.mem_singleton.mp he
    exact Or.inr ⟨_, List.mem_singleton.mp hv, rfl⟩

/-- The scanner of the method. -/
def scanner (target : Site) : Scanner := (store target).scannerOf {} {} method

theorem leveled : graph.Leveled (scanner target).stackEffect body fun _ => 0 where
  entry := rfl
  handler := nofun
  edge n _ _ _ _ := match n with
    | 0 | 1 | 2 | 3 | _ + 4 => rfl

theorem apart (h : site ≠ target) (hoffset : target.offset ≠ 0) : (scanner target).Apart {} body := by
  refine Scanner.apart_of_declared canonical_store fun at' n hdeclares => ?_
  rcases declares_store hdeclares with heq | ⟨_, heq, _⟩
  · obtain ⟨rfl, -⟩ := Location.element.inj (Value.address.inj heq)
    refine ⟨fun t ht => hoffset (ht ▸ rfl), fun a ha => ?_⟩
    rcases declares_store ha with heq | ⟨_, heq, hsite⟩
    · cases heq
    · obtain rfl := Value.array.inj heq
      exact hsite ▸ h
  · cases heq

end Pointing

namespace Pointing

/-- What a visit makes of a snapshot. -/
def next : Snapshot State → Snapshot State :=
  Snapshot.next graph (((scanner site).analysis graph body).inputAt graph)
    ((scanner site).quietVisit {} graph body)

/-- The snapshots of the first visits. -/
def snapshots : List (Snapshot State) := (List.range 6).map fun k => next^[k] (.start graph)

/-- After six visits the outputs and the queue are those after four. -/
theorem round : ∀ s ∈ snapshots, s.queue ≠ [] ∧ next s ∈ snapshots := by decide +kernel

end Pointing

end ReflectionFlow

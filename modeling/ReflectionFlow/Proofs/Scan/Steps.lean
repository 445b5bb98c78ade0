/-
  File:      ReflectionFlow/Proofs/Scan/Steps.lean
  Subject:   What the operations of the interpreter do to the state, and what an interpretation
             that succeeds consists of.

  Observations never act on the state, so the lemmas here speak of states alone.  Calls, blocks
  and visits are taken apart once; later proofs go by these forms and do not unfold them.

  * `Trace.pop_cases`, `Trace.drop_succ`, `Scanner.state_storeArgument`, `Scanner.state_stepReturn`
  * `Scanner.call_inv`, `Scanner.steps_cons_inv`, `Scanner.transfer_log_inv`, `Scanner.transfer_inv`
  * `Scanner.loadField_cases`       what can be read from a field
  * `FlowGraph.exists_mem_codeOf`, `FlowGraph.offset_not_between`, `FlowGraph.forget?_codeOf`   the code
    of blocks
-/
import ReflectionFlow.Proofs.Flow.Blocks
import ReflectionFlow.Proofs.Session.Answers
import ReflectionFlow.Proofs.State.Order
import ReflectionFlow.Scan.Transfer

namespace ReflectionFlow

/-! ## 1. Operands and variables -/

namespace Trace

variable {t : Trace}

theorem pop_cases (t : Trace) (offset : Nat) :
    (∃ w r, t.state.stack = .slots (w :: r) ∧
      t.pop offset = (w, { t with state.stack := .slots r })) ∨
    (t.state.stack.fromTop = [] ∧
      t.pop offset = (.unknown, t.observe offset (.fault .stackUnderflow))) := by
  unfold Trace.pop
  cases t.state.stack with
  | top => exact Or.inr ⟨rfl, rfl⟩
  | slots l =>
      cases l with
      | nil => exact Or.inr ⟨rfl, rfl⟩
      | cons w r => exact Or.inl ⟨w, r, rfl, rfl⟩

theorem drop_succ (t : Trace) (offset count : Nat) :
    t.drop offset (count + 1) = (t.pop offset).2.drop offset count := rfl

theorem vars_pop (t : Trace) (offset : Nat) :
    (t.pop offset).2.state.vars = t.state.vars := by
  rcases t.pop_cases offset with ⟨u, q, _, hp⟩ | ⟨_, hp⟩
  · rw [hp]
  · rw [hp]
    rfl

theorem get_set (h : t.state.vars.entries.Keyed) (k j : VarKey) (v : ValueSet) :
    (t.set k v).state.vars.get j = if j = k then v else t.state.vars.get j :=
  Variables.get_set h k j v

theorem state_observeFlow (t : Trace) (offset : Nat) (v : ValueSet) (need : Categories)
    (place : Place) : (t.observeFlow offset v need place).state = t.state := by
  unfold Trace.observeFlow
  split <;> rfl

end Trace

/-- Every method that the body of a method refers to satisfies a condition. -/
def Context.Refers (c : Context) (M : MethodDef → Prop) : Prop :=
  ∀ t callee, c.callee? t = some callee → M callee.method

namespace Scanner

variable {sc : Scanner} {i : Instruction} {t : Trace}

theorem state_observeArgument (offset : Nat) (n : UInt16) (v : ValueSet) (t : Trace) :
    (sc.observeArgument offset n v t).state = t.state := by
  unfold observeArgument
  split
  · exact t.state_observeFlow _ _ _ _
  · split
    · exact t.state_observeFlow _ _ _ _
    · rfl

theorem state_storeArgument (offset : Nat) (n : UInt16) (v : ValueSet) (t : Trace) :
    (sc.storeArgument offset n v true t).state = (t.set (.arg n) v).state := by
  have h := sc.state_observeArgument offset n v t
  show { (sc.observeArgument offset n v t).state with
    vars := (sc.observeArgument offset n v t).state.vars.set (.arg n) v } = _
  rw [h]
  rfl

theorem state_storeField (offset : Nat) (f : Token) (v : ValueSet) (t : Trace) :
    (sc.storeField offset f v t).state = t.state := by
  unfold storeField
  split
  · exact t.state_observeFlow _ _ _ _
  · rfl

theorem stepStoreLocal_eq (i : Instruction) (t : Trace) : sc.stepStoreLocal i t =
    match i.localIndex? with
    | some n => (sc.popValue t i.offset).2.set (.loc n) (sc.popValue t i.offset).1
    | none => (sc.popValue t i.offset).2.observe i.offset (.fault .missingLocal) := rfl

theorem stepStoreArgument_eq (i : Instruction) (t : Trace) : sc.stepStoreArgument i t =
    match i.argumentIndex? with
    | some n => sc.storeArgument i.offset n (sc.popValue t i.offset).1 true (sc.popValue t i.offset).2
    | none => (sc.popValue t i.offset).2.observe i.offset (.fault .missingArgument) := rfl

theorem stepCast_eq (i : Instruction) (t : Trace) : sc.stepCast i t =
    (match i.token? with
      | some target =>
        (sc.popValue t i.offset).2.observe i.offset (.cast (sc.popValue t i.offset).1 target)
      | none => (sc.popValue t i.offset).2).push (sc.popValue t i.offset).1 := rfl

theorem stepStoreField_eq (i : Instruction) (ofInstance : Bool) (t : Trace) :
    sc.stepStoreField i ofInstance t = match i.token? with
      | some f => sc.storeField i.offset f (sc.popValue t i.offset).1
        ((sc.popValue t i.offset).2.drop i.offset ofInstance.toNat)
      | none => (sc.popValue t i.offset).2.drop i.offset ofInstance.toNat := rfl

theorem stepStoreElement_eq (block : Nat) (i : Instruction) (t : Trace) :
    sc.stepStoreElement block i t = sc.storeElement block
      (sc.popElement i (sc.popValue t i.offset).2).1 (sc.popElement i (sc.popValue t i.offset).2).2.1
      (sc.popValue t i.offset).1 (sc.popElement i (sc.popValue t i.offset).2).2.2 := rfl

/-- A return leaves the variables alone and the stack empty. -/
theorem state_stepReturn (i : Instruction) (t : Trace) :
    (sc.stepReturn i t).state = ⟨t.state.vars, .empty⟩ := by
  have hclear : ∀ u : Trace, ((if u.state.stack.fromTop.isEmpty then u
      else u.observe i.offset (.fault .stackNotEmpty)).clear).state = ⟨u.state.vars, .empty⟩ := by
    intro u
    split <;> rfl
  unfold stepReturn
  rw [hclear]
  split
  · rfl
  · show State.mk ((sc.popValue t i.offset).2.observeFlow i.offset _ _ _).state.vars .empty = _
    rw [Trace.state_observeFlow]
    exact congrArg (State.mk · .empty) (t.vars_pop i.offset)

/-! ## 2. Calls, blocks and visits -/

theorem target?_refers {M : MethodDef → Prop} (hM : sc.context.Refers M) {role : Role}
    {callee : MethodRef} (h : sc.target? i role = some callee) : M callee.method := by
  unfold target? at h
  split at h
  · cases h
  · obtain ⟨token, _, h⟩ := Option.bind_eq_some_iff.mp h
    exact hM token callee h

/-- **What a call of a known method comes to**: operands are taken, a result is left, and what
    is passed by reference is written back. -/
theorem call_inv {block : Nat} {callee : MethodRef} {constructs : Bool} {t t' : Trace}
    {session session' : Session}
    (h : (sc.call block i callee constructs t).run session = (.ok t', session')) :
    ∃ returned needs intrinsic, t' = (sc.writeBack block i.offset callee needs
      (sc.takeOperands i.offset callee constructs t).1
      (leave callee constructs returned (sc.takeOperands i.offset callee constructs t).2.2)).observe
        i.offset (.call callee (sc.takeOperands i.offset callee constructs t).2.1 intrinsic
          constructs) := by
  unfold call at h
  simp only [Act.run_bind] at h
  split at h
  · cases h
  · obtain ⟨h, -⟩ := Prod.mk.inj h
    exact ⟨_, _, _, (Except.ok.inj h).symm⟩

theorem steps_cons_inv {block : Nat} {rest : List Instruction} {t t'' : Trace}
    {session session'' : Session}
    (h : (sc.steps block (i :: rest) t).run session = (.ok t'', session'')) :
    ∃ t' session', (sc.step block i t).run session = (.ok t', session') ∧
      (sc.steps block rest t').run session' = (.ok t'', session'') := by
  unfold steps at h
  rw [Act.run_bind] at h
  cases hs : (sc.step block i t).run session with
  | mk r session' =>
      rw [hs] at h
      cases r with
      | error b => cases (Prod.mk.inj h).1
      | ok t' => exact ⟨t', session', rfl, h⟩

/-- What is on record after filing was there before or is filed. -/
theorem mem_log_file {p : Progress} {t : Trace} {e : (Nat × Nat) × Observation}
    (h : e ∈ (p.file t).log.entries) : e ∈ p.log.entries ∨ (e.1.1, e.2) ∈ t.observed := by
  refine List.foldlRecOn (motive := fun log : ObservationLog Observation =>
    e ∈ log.entries → e ∈ p.log.entries ∨ (e.1.1, e.2) ∈ t.observed) t.observed
    (fun log e => log.record e.1 e.2) Or.inl (fun log ih o ho he => ?_) h
  rcases Assoc.mem_of_mem_insert he with rfl | he
  · exact Or.inr ho
  · exact ih he

/-- **What a visit of a block comes to**: its instructions are interpreted in order, and what they
    observe may go on record. -/
theorem transfer_log_inv {g : FlowGraph} {body : Body} {block : Nat} {x y : State} {p p' : Progress}
    (h : sc.transfer g body block x p = (.ok y, p')) :
    ∃ t, (sc.steps block (g.codeOf body block) { state := x.entered }).run p.session =
      (.ok t, p'.session) ∧ y = t.state ∧
      ∀ e ∈ p'.log.entries, e ∈ p.log.entries ∨ (e.1.1, e.2) ∈ t.observed := by
  unfold transfer at h
  split at h
  · next hcode =>
    obtain ⟨hy, rfl⟩ := Prod.mk.inj h
    rw [hcode]
    exact ⟨_, rfl, (Except.ok.inj hy).symm, fun _ => Or.inl⟩
  · next j rest hcode =>
    rw [hcode]
    cases hs : (sc.steps block (j :: rest) { state := x.entered }).run p.session with
    | mk r session' =>
        simp only [Progress.forget, hs] at h
        cases r with
        | error b => cases (Prod.mk.inj h).1
        | ok t =>
            obtain ⟨hy, rfl⟩ := Prod.mk.inj h
            refine ⟨t, rfl, (Except.ok.inj hy).symm, fun e he => ?_⟩
            exact (mem_log_file he).imp List.mem_of_mem_filter id

theorem transfer_inv {g : FlowGraph} {body : Body} {block : Nat} {x y : State} {p p' : Progress}
    (h : sc.transfer g body block x p = (.ok y, p')) :
    ∃ t, (sc.steps block (g.codeOf body block) { state := x.entered }).run p.session =
      (.ok t, p'.session) ∧ y = t.state := by
  obtain ⟨t, hs, hy, _⟩ := transfer_log_inv h
  exact ⟨t, hs, hy⟩

/-- **What can be read from a field**: contents that are declared for some field, or one value; of the
    two fields that are always known one holds an empty array. -/
theorem loadField_cases (f : Token) :
    (∃ e ∈ sc.context.store.fieldValues, sc.loadField f = e.2) ∨
      (∃ v : Value, (∀ a, v ≠ .array a) ∧ v.isAddress = false ∧ sc.loadField f = .single v) ∨
      ∃ t, sc.loadField f = .single (.array (.fresh ⟨t, 0⟩ (.single (.int 0)))) := by
  unfold loadField
  cases sc.context.store.field? f with
  | none => exact Or.inr (Or.inl ⟨.unknown, nofun, rfl, rfl⟩)
  | some d =>
      dsimp only
      cases hv : sc.context.store.fieldValue? d.token with
      | none => exact Or.inr (Or.inl ⟨.symbol _ _ _, nofun, rfl, rfl⟩)
      | some values =>
          obtain ⟨d', _, hv⟩ := Option.bind_eq_some_iff.mp hv
          rcases Option.or_eq_some_iff.mp hv with hv | ⟨_, hv⟩
          · exact Or.inl ⟨_, Assoc.mem_of_get? hv, rfl⟩
          · obtain ⟨_, _, hv⟩ := Option.bind_eq_some_iff.mp hv
            split at hv
            · obtain rfl := Option.some.inj hv
              exact Or.inr (Or.inl ⟨.string "", nofun, rfl, rfl⟩)
            · split at hv
              · obtain rfl := Option.some.inj hv
                exact Or.inr (Or.inr ⟨_, rfl⟩)
              · cases hv

/-- On entry every argument is a symbol. -/
theorem symbol_of_mem_entryArguments {e : VarKey × Value} (he : e ∈ sc.entryArguments) :
    ∃ source need declared, e.2 = .symbol source need declared := by
  unfold entryArguments at he
  obtain ⟨⟨v, j⟩, hv, he⟩ := List.mem_filterMap.mp he
  obtain ⟨_, _, rfl⟩ := Option.map_eq_some_iff.mp he
  rcases List.mem_append.mp (List.fst_mem_of_mem_zipIdx hv) with hv | hv
  · split at hv
    · obtain rfl : v = sc.thisValue := List.mem_singleton.mp hv
      exact ⟨_, _, _, rfl⟩
    · cases hv
  · obtain ⟨_, _, rfl⟩ := List.mem_map.mp hv
    exact ⟨_, _, _, rfl⟩

/-- A method is entered with what is known of its arguments, a handler without knowledge. -/
theorem over_boundary {Q : ValueSet → Prop} {g : FlowGraph} {body : Body} (hu : Q .unknown)
    (hentry : ∀ e ∈ sc.entryArguments, Q (.single e.2)) :
    ∀ e ∈ (sc.analysis g body).boundary, e.2.Over Q := by
  have hvars : Variables.unknown.Over Q := Variables.over_ofDefault hu
  intro e he
  rcases List.mem_cons.mp he with rfl | he
  · refine ⟨?_, fun _ h => absurd h List.not_mem_nil⟩
    exact List.foldlRecOn (motive := fun v : Variables => v.Over Q) _ _ hvars fun v hv e he =>
      hv.set _ (hentry e he)
  · obtain ⟨⟨n, kind⟩, _, rfl⟩ := List.mem_map.mp he
    show (handlerState kind).Over Q
    unfold handlerState
    split
    · exact ⟨hvars, fun w hw => List.mem_singleton.mp hw ▸ hu⟩
    · exact ⟨hvars, fun _ h => absurd h List.not_mem_nil⟩

end Scanner

/-! ## 3. The code of a block -/

namespace FlowGraph

variable {b : Body} {g : FlowGraph} {k : Nat} {c : CodeBlock}

theorem mem_of_mem_codeOf {n : Nat} {i : Instruction} (h : i ∈ g.codeOf b n) :
    i ∈ b.instructions := by
  unfold codeOf at h
  split at h
  · exact List.mem_of_mem_drop (List.mem_of_mem_take h)
  · cases h

theorem codeOf_eq (hd : Drawn b g) (hc : b.blocks[k]? = some c) :
    g.codeOf b (k + 1) = (b.instructions.drop c.first).take (c.stop - c.first) := by
  unfold codeOf
  rw [hd.block?_succ hc]
  rfl

theorem getElem?_codeOf (hd : Drawn b g) (hc : b.blocks[k]? = some c) {pc : Nat}
    (hf : c.first ≤ pc) (hs : pc < c.stop) :
    (g.codeOf b (k + 1))[pc - c.first]? = b.instructions[pc]? := by
  rw [codeOf_eq hd hc, List.getElem?_take_of_lt (by omega), List.getElem?_drop,
    Nat.add_sub_cancel' hf]

theorem length_codeOf (hd : Drawn b g) (hc : b.blocks[k]? = some c) :
    (g.codeOf b (k + 1)).length = c.stop - c.first := by
  have hs := Body.stop_le_length hc
  rw [codeOf_eq hd hc, List.length_take, List.length_drop]
  omega

/-- An instruction of a block of the graph lies in a block of the body. -/
theorem index_of_mem_codeOf (hd : Drawn b g) {n : Nat} {i : Instruction} (h : i ∈ g.codeOf b n) :
    ∃ (k : Nat) (c : CodeBlock) (pc : Nat), n = k + 1 ∧ b.blocks[k]? = some c ∧
      c.first ≤ pc ∧ pc < c.stop ∧ b.instructions[pc]? = some i := by
  have hcode : ∃ c, g.block? n = some (.code c) := by
    unfold codeOf at h
    cases hb : g.block? n with
    | none => rw [hb] at h; cases h
    | some block =>
        cases block with
        | entry => rw [hb] at h; cases h
        | exit => rw [hb] at h; cases h
        | code c => exact ⟨c, rfl⟩
  obtain ⟨c, hn⟩ := hcode
  obtain ⟨k, rfl, hk⟩ := hd.block_of_block? hn
  obtain ⟨j, hj⟩ := List.getElem?_of_mem h
  have hlt := (List.getElem?_eq_some_iff.mp hj).1
  rw [length_codeOf hd hk] at hlt
  refine ⟨k, c, c.first + j, rfl, hk, by omega, by omega, ?_⟩
  rw [← getElem?_codeOf hd hk (by omega) (by omega), Nat.add_sub_cancel_left]
  exact hj

/-- Every instruction lies in a block of the graph. -/
theorem exists_mem_codeOf (hd : Drawn b g) {i : Instruction} (hi : i ∈ b.instructions) :
    ∃ n, n < g.blockCount ∧ i ∈ g.codeOf b n := by
  obtain ⟨pc, hpc⟩ := List.getElem?_of_mem hi
  obtain ⟨k, c, hc, hf, hs⟩ := Body.exists_block_of_index (List.getElem?_eq_some_iff.mp hpc).1
  refine ⟨k + 1, hd.succ_lt hc, ?_⟩
  rw [← getElem?_codeOf hd hc hf hs] at hpc
  exact List.mem_of_getElem? hpc

theorem offsets_pairwise (hb : b.Increasing) (n : Nat) :
    ((g.codeOf b n).map Instruction.offset).Pairwise (· < ·) := by
  unfold codeOf
  rw [List.pairwise_map]
  split
  · exact List.Pairwise.sublist ((List.take_sublist _ _).trans (List.drop_sublist _ _)) hb
  · exact List.Pairwise.nil

/-- The offsets of a block lie between its first and its last one. -/
theorem offset_between (hb : b.Increasing) {n : Nat} {i j : Instruction} {rest : List Instruction}
    (hcode : g.codeOf b n = j :: rest) (hi : i ∈ g.codeOf b n) :
    j.offset ≤ i.offset ∧ i.offset ≤ ((j :: rest).getLastD j).offset := by
  have hp := offsets_pairwise (g := g) hb n
  rw [hcode, List.pairwise_map] at hp
  rw [hcode] at hi
  constructor
  · rcases List.mem_cons.mp hi with rfl | hi
    · exact Nat.le_refl _
    · exact Nat.le_of_lt ((List.pairwise_cons.mp hp).1 i hi)
  · rw [List.getLastD_eq_getLast?, List.getLast?_eq_some_getLast (List.cons_ne_nil j rest)]
    rw [← List.dropLast_append_getLast (List.cons_ne_nil j rest)] at hp hi
    rcases List.mem_append.mp hi with hi | hi
    · exact Nat.le_of_lt ((List.pairwise_append.mp hp).2.2 i hi _ List.mem_cons_self)
    · exact Nat.le_of_eq (congrArg Instruction.offset (List.mem_singleton.mp hi))

/-- **No log refuses the range of a block**, which is the one that a visit of the block forgets. -/
theorem forget?_codeOf (hb : b.Increasing) {n : Nat} {i : Instruction} {rest : List Instruction}
    (hcode : g.codeOf b n = i :: rest) {α : Type} (log : ObservationLog α) :
    log.forget? i.offset ((i :: rest).getLastD i).offset =
      some (log.forget i.offset ((i :: rest).getLastD i).offset) :=
  log.forget?_of_le (offset_between hb hcode (hcode ▸ List.mem_cons_self)).2

/-- Blocks do not overlap. -/
theorem block_unique {k' : Nat} {c' : CodeBlock} (hc : b.blocks[k]? = some c)
    (hc' : b.blocks[k']? = some c') {pc : Nat} (hf : c.first ≤ pc) (hs : pc < c.stop)
    (hf' : c'.first ≤ pc) (hs' : pc < c'.stop) : k = k' := by
  have hk := (Body.leaders_of_block hc).1
  have hk' := (Body.leaders_of_block hc').1
  rcases Nat.lt_trichotomy c.first c'.first with h | h | h
  · exact absurd (List.mem_of_getElem? hk')
      (Body.not_mem_leaders_of_inside hc h (Nat.lt_of_le_of_lt hf' hs))
  · rw [← h] at hk'
    exact Body.leaders_inj hk hk'
  · exact absurd (List.mem_of_getElem? hk)
      (Body.not_mem_leaders_of_inside hc' h (Nat.lt_of_le_of_lt hf hs'))

/-- The offsets of an instruction of one block lie outside the range of another. -/
theorem offset_not_between (hd : Drawn b g) (hb : b.Increasing) {n n' : Nat} (hne : n ≠ n')
    {x i : Instruction} {rest : List Instruction} (hx : x ∈ g.codeOf b n)
    (hcode : g.codeOf b n' = i :: rest) :
    ¬ (i.offset ≤ x.offset ∧ x.offset ≤ ((i :: rest).getLastD i).offset) := by
  rintro ⟨h₁, h₂⟩
  have hi : i ∈ g.codeOf b n' := hcode ▸ List.mem_cons_self
  have hlast : (i :: rest).getLastD i ∈ g.codeOf b n' := by
    rw [hcode, List.getLastD_eq_getLast?, List.getLast?_eq_some_getLast (List.cons_ne_nil i rest)]
    exact List.getLast_mem _
  obtain ⟨k, c, pc, rfl, hc, hf, hs, hpc⟩ := index_of_mem_codeOf hd hx
  obtain ⟨k₁, c₁, pc₁, rfl, hc₁, hf₁, hs₁, hpc₁⟩ := index_of_mem_codeOf hd hi
  obtain ⟨k₂, c₂, pc₂, hk₂, hc₂, hf₂, hs₂, hpc₂⟩ := index_of_mem_codeOf hd hlast
  obtain rfl := Nat.succ.inj hk₂
  obtain rfl := Option.some.inj (hc₁.symm.trans hc₂)
  have hlo : pc₁ ≤ pc := Nat.le_of_not_lt fun h => Nat.lt_irrefl _
    (Nat.lt_of_lt_of_le (hb.lt hpc hpc₁ h) h₁)
  have hhi : pc ≤ pc₂ := Nat.le_of_not_lt fun h => Nat.lt_irrefl _
    (Nat.lt_of_lt_of_le (hb.lt hpc₂ hpc h) h₂)
  exact hne (congrArg (· + 1) (block_unique hc hc₁ hf hs (by omega) (by omega)))

end FlowGraph

end ReflectionFlow

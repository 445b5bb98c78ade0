/-
  File:      ReflectionFlow/Proofs/Scan/Soundness.lean
  Subject:   What the analysis reports about scalar code holds in every run.

  A run of the machine is followed instruction by instruction inside a block and by an edge of
  the graph from block to block.  When the iteration has ended, every block has been visited
  with the input it has now, and what it returned then has not been forgotten since, because
  the offsets of different blocks do not overlap.

  * `Scanner.follow`            the steps of a list of instructions; `Scanner.transfer_eq`
  * `Scanner.Finished`          what is known of all blocks when the iteration has ended
  * `Tracked`                   the state of the analysis where a run has got to
  * `tracked_step`, `tracked_runs`
  * `analyze_describes_runs`    reported values and states describe what runs return and reach
-/
import ReflectionFlow.Proofs.Scan.Description
import ReflectionFlow.Proofs.Scan.Outcome

namespace ReflectionFlow

/-! ## 1. Visits -/

/-- All instructions belong to the scalar fragment. -/
def Body.Scalar (b : Body) : Prop := ∀ i ∈ b.instructions, i.opcode.scalar?.isSome = true

namespace Scanner

variable {sc : Scanner} {block : Nat} {code : List Instruction} {t : Trace}

/-- The trace after instructions that ask the session nothing. -/
def follow (sc : Scanner) (block : Nat) (code : List Instruction) (t : Trace) : Trace :=
  code.foldl (fun t i => sc.stepLocal block i t i.opcode.role) t

theorem step_eq {i : Instruction} (hi : i.opcode.scalar?.isSome = true) (t : Trace) :
    sc.step block i t = pure (.ok (sc.stepLocal block i t i.opcode.role)) := by
  obtain ⟨a, ha⟩ := Option.isSome_iff_exists.mp hi
  unfold step
  rw [(Opcode.scalar?_agrees ha).1]
  cases a <;> rfl

theorem run_steps (hcode : ∀ i ∈ code, i.opcode.scalar?.isSome = true) (t : Trace)
    (session : Session) :
    (sc.steps block code t).run session = (.ok (sc.follow block code t), session) := by
  induction code generalizing t with
  | nil => rfl
  | cons i rest ih =>
      unfold steps
      rw [step_eq (hcode i List.mem_cons_self), Act.run_bind, Act.run_pure]
      exact ih (fun j hj => hcode j (List.mem_cons_of_mem _ hj)) _

theorem follow_take_succ {j : Nat} {i : Instruction} (hi : code[j]? = some i) (t : Trace) :
    sc.follow block (code.take (j + 1)) t =
      sc.stepLocal block i (sc.follow block (code.take j) t) i.opcode.role := by
  unfold follow
  rw [List.take_add_one, hi, List.foldl_append]
  rfl

theorem direct_follow (hsc : sc.ByValue) (hcode : ∀ i ∈ code, i.opcode.scalar?.isSome = true)
    (h : t.state.Direct) : (sc.follow block code t).state.Direct := by
  induction code generalizing t with
  | nil => exact h
  | cons i rest ih =>
      obtain ⟨a, ha⟩ := Option.isSome_iff_exists.mp (hcode i List.mem_cons_self)
      refine ih (fun j hj => hcode j (List.mem_cons_of_mem _ hj)) ?_
      show (sc.stepLocal block i t i.opcode.role).state.Direct
      rw [(Opcode.scalar?_agrees ha).1]
      exact direct_step hsc block a h

/-- What is returned on the way, each set at the offset of its instruction. -/
theorem returned_follow (block : Nat) (hret : sc.method.sig.ret.isVoid = false)
    (hcode : ∀ i ∈ code, i.opcode.scalar?.isSome = true) (t : Trace) :
    ∃ l, (sc.follow block code t).returned = t.returned ++ l ∧
      (l.map Prod.fst).Sublist (code.map Instruction.offset) := by
  induction code generalizing t with
  | nil => exact ⟨[], (List.append_nil _).symm, List.Sublist.refl _⟩
  | cons i rest ih =>
      obtain ⟨a, ha⟩ := Option.isSome_iff_exists.mp (hcode i List.mem_cons_self)
      obtain ⟨l, hl, hsub⟩ := ih (fun j hj => hcode j (List.mem_cons_of_mem _ hj))
        (sc.stepLocal block i t a.role)
      show ∃ l, (sc.follow block rest (sc.stepLocal block i t i.opcode.role)).returned = _ ∧ _
      rw [(Opcode.scalar?_agrees ha).1, hl, sc.returned_step hret block a i t]
      by_cases hr : a = .ret
      · rw [if_pos hr, List.append_assoc]
        exact ⟨_, rfl, hsub.cons_cons i.offset⟩
      · rw [if_neg hr, List.append_nil]
        exact ⟨l, rfl, hsub.cons i.offset⟩

theorem within_returned_follow (hsc : sc.ByValue) (hret : sc.method.sig.ret.isVoid = false)
    (hcode : ∀ i ∈ code, i.opcode.scalar?.isSome = true) (h : t.state.Direct)
    (hr : ∀ e ∈ t.returned, e.2.Within Value.Direct) :
    ∀ e ∈ (sc.follow block code t).returned, e.2.Within Value.Direct := by
  induction code generalizing t with
  | nil => exact hr
  | cons i rest ih =>
      obtain ⟨a, ha⟩ := Option.isSome_iff_exists.mp (hcode i List.mem_cons_self)
      show ∀ e ∈ (sc.follow block rest (sc.stepLocal block i t i.opcode.role)).returned, _
      rw [(Opcode.scalar?_agrees ha).1]
      refine ih (fun j hj => hcode j (List.mem_cons_of_mem _ hj)) (direct_step hsc block a h) ?_
      rw [sc.returned_step hret block a i t]
      intro e he
      rcases List.mem_append.mp he with he | he
      · exact hr e he
      · split at he
        · rw [List.mem_singleton.mp he, popValue_eq h]
          exact (Trace.direct_pop h i.offset).1
        · cases he

end Scanner

/-- What is kept after a visit of a block with the given instructions. -/
def Progress.revisited (p : Progress) (code : List Instruction) (t : Trace) : Progress :=
  match code with
  | [] => p
  | i :: rest => (p.forget i.offset ((i :: rest).getLastD i).offset).file t

namespace Progress

theorem mem_foldl_insert {l : List (Nat × ValueSet)} {m : Assoc Nat ValueSet} {e : Nat × ValueSet}
    (h : e ∈ l.foldl (fun m e => m.insert e.1 e.2) m) : e ∈ m ∨ e ∈ l := by
  induction l generalizing m with
  | nil => exact Or.inl h
  | cons f l ih =>
      rcases ih h with h | h
      · rcases Assoc.mem_of_mem_insert h with rfl | h
        · exact Or.inr List.mem_cons_self
        · exact Or.inl h
      · exact Or.inr (List.mem_cons_of_mem _ h)

theorem mem_foldl_insert_of_not_mem {l : List (Nat × ValueSet)} {m : Assoc Nat ValueSet}
    {e : Nat × ValueSet} (h : e ∈ m) (hne : e.1 ∉ l.map Prod.fst) :
    e ∈ l.foldl (fun m e => m.insert e.1 e.2) m := by
  induction l generalizing m with
  | nil => exact h
  | cons f l ih =>
      rw [List.map_cons, List.mem_cons, not_or] at hne
      exact ih (Assoc.mem_insert_of_ne h hne.1) hne.2

theorem mem_foldl_insert_self {l : List (Nat × ValueSet)} (hl : (l.map Prod.fst).Nodup)
    {m : Assoc Nat ValueSet} {e : Nat × ValueSet} (h : e ∈ l) :
    e ∈ l.foldl (fun m e => m.insert e.1 e.2) m := by
  induction l generalizing m with
  | nil => cases h
  | cons f l ih =>
      rw [List.map_cons, List.nodup_cons] at hl
      rw [List.foldl_cons]
      rcases List.mem_cons.mp h with rfl | h
      · exact mem_foldl_insert_of_not_mem (Assoc.mem_insert_self m e.1 e.2) hl.1
      · exact ih hl.2 h

end Progress

/-! ## 2. The iteration -/

theorem State.Direct.entered {x : State} (h : x.Direct) : x.entered.Direct := by
  obtain ⟨v, k⟩ := x
  cases k with
  | top => exact ⟨h.vars, fun _ hw => absurd hw List.not_mem_nil⟩
  | slots l => exact h

theorem State.describes_entered {m : MethodDef} {entry : Nat → Datum} {x : State} {f : Frame} :
    x.entered.Describes m entry f ↔ x.Describes m entry f := by
  obtain ⟨v, k⟩ := x
  cases k with
  | top => exact ⟨fun h => ⟨h.locals, h.args, h.stack⟩, fun h => ⟨h.locals, h.args, h.stack⟩⟩
  | slots l => exact Iff.rfl

namespace Scanner

variable {sc : Scanner} {g : FlowGraph} {body : Body}

/-- The trace of a visit. -/
def visit (sc : Scanner) (g : FlowGraph) (body : Body) (block : Nat) (input : State) : Trace :=
  sc.follow block (g.codeOf body block) { state := input.entered }

theorem transfer_eq (hb : body.Scalar) (block : Nat) (input : State) (p : Progress) :
    sc.transfer g body block input p = (.ok (sc.visit g body block input).state,
      p.revisited (g.codeOf body block) (sc.visit g body block input)) := by
  have hcode : ∀ i ∈ g.codeOf body block, i.opcode.scalar?.isSome = true := fun i hi =>
    hb i (FlowGraph.mem_of_mem_codeOf hi)
  unfold transfer visit Progress.revisited
  generalize g.codeOf body block = code at hcode
  cases code with
  | nil => rfl
  | cons i rest => simp only [run_steps hcode]

/-- What a visit leaves behind, and later visits of other blocks do not touch. -/
def Visits (sc : Scanner) (g : FlowGraph) (body : Body) (n : Nat) (x y : State) (p : Progress) :
    Prop :=
  y = (sc.visit g body n x).state ∧ ∀ e ∈ (sc.visit g body n x).returned, e ∈ p.returns

theorem offset_of_returned (hret : sc.method.sig.ret.isVoid = false) (hb : body.Scalar) {n : Nat}
    {x : State} :
    ((sc.visit g body n x).returned.map Prod.fst).Sublist
      ((g.codeOf body n).map Instruction.offset) := by
  obtain ⟨l, hl, hsub⟩ := sc.returned_follow n hret
    (fun i hi => hb i (FlowGraph.mem_of_mem_codeOf hi)) { state := x.entered }
  unfold visit
  rw [hl]
  exact hsub

theorem lasting (hret : sc.method.sig.ret.isVoid = false) (hb : body.Scalar)
    (hinc : body.Increasing) (hd : FlowGraph.Drawn body g) :
    Lasting (sc.analysis g body) (fun _ => True) (sc.Visits g body) where
  observe _ _ _ _ _ _ _ := trivial
  made n x y p p' _ ht := by
    obtain ⟨hy, rfl⟩ := Prod.mk.inj ((transfer_eq hb n x p).symm.trans ht)
    refine ⟨(Except.ok.inj hy).symm, fun e he => ?_⟩
    have hsub := offset_of_returned (g := g) hret hb (n := n) (x := x)
    have hnd : ((sc.visit g body n x).returned.map Prod.fst).Nodup :=
      (List.Pairwise.sublist hsub (FlowGraph.offsets_pairwise hinc n)).imp Nat.ne_of_lt
    unfold Progress.revisited
    split
    · next hnil =>
      rw [hnil, List.map_nil, List.sublist_nil, List.map_eq_nil_iff] at hsub
      rw [hsub] at he
      cases he
    · exact Progress.mem_foldl_insert_self hnd he
  kept n c x y z w p p' hne hr ht := by
    obtain ⟨_, rfl⟩ := Prod.mk.inj ((transfer_eq hb c z p).symm.trans ht)
    refine ⟨hr.1, fun e he => ?_⟩
    have hmem := hr.2 e he
    -- the offset belongs to an instruction of the block, so the other block does not touch it
    obtain ⟨i, hi, hoff⟩ : ∃ i ∈ g.codeOf body n, i.offset = e.1 := by
      have := (offset_of_returned (g := g) hret hb).subset (List.mem_map_of_mem he)
      exact List.mem_map.mp this
    unfold Progress.revisited
    split
    · exact hmem
    · next j rest hcode =>
      have hout := FlowGraph.offset_not_between hd hinc hne hi hcode
      refine Progress.mem_foldl_insert_of_not_mem (List.mem_filter.mpr ⟨hmem, ?_⟩) fun hin => ?_
      · rw [hoff] at hout
        rw [Bool.not_eq_true', Bool.eq_false_iff, ne_eq, Bool.and_eq_true, decide_eq_true_eq,
          decide_eq_true_eq]
        exact hout
      · obtain ⟨i', hi', hoff'⟩ := List.mem_map.mp ((offset_of_returned (g := g) hret hb).subset hin)
        obtain ⟨k, b, pc, rfl, hk, hf, hs, hpc⟩ := FlowGraph.index_of_mem_codeOf hd hi
        obtain ⟨k', b', pc', rfl, hk', hf', hs', hpc'⟩ := FlowGraph.index_of_mem_codeOf hd hi'
        obtain rfl := hinc.index_eq hpc hpc' (hoff.trans hoff'.symm)
        exact hne (congrArg (· + 1) (FlowGraph.block_unique hk hk' hf hs hf' hs'))

theorem toNat_of_wordIndex? {j : Nat} {n : UInt16} (h : wordIndex? j = some n) : n.toNat = j := by
  unfold wordIndex? at h
  split at h
  · next hj =>
    obtain rfl := Option.some.inj h
    exact UInt16.toNat_ofNat_of_lt hj
  · cases h

theorem toNat_clampIndex {j : Nat} (hj : j < UInt16.size) : (clampIndex j).toNat = j := by
  unfold clampIndex wordIndex?
  rw [if_pos hj]
  exact UInt16.toNat_ofNat_of_lt hj

theorem eq_parameterValue {p : Nat} {v : Value}
    (h : ((List.range sc.params.length).map sc.parameterValue)[p]? = some v) :
    v = sc.parameterValue p := by
  rw [List.getElem?_map] at h
  obtain ⟨q, hq, rfl⟩ := Option.map_eq_some_iff.mp h
  obtain ⟨_, rfl⟩ := List.getElem?_eq_some_iff.mp hq
  rw [List.getElem_range]

/-- The values of the arguments on entry stand for the arguments. -/
theorem stands_of_mem_entryArguments (entry : Nat → Datum) {e : VarKey × Value}
    (he : e ∈ sc.entryArguments) :
    ∃ n, e.1 = .arg n ∧ e.2.Direct ∧ e.2.Stands sc.method entry (entry n.toNat) := by
  unfold entryArguments at he
  obtain ⟨⟨v, j⟩, hv, hm⟩ := List.mem_filterMap.mp he
  obtain ⟨n, hn, rfl⟩ := Option.map_eq_some_iff.mp hm
  have hv := List.mem_zipIdx_iff_getElem?.mp hv
  have hlt : j < UInt16.size := by
    rw [← toNat_of_wordIndex? hn]
    exact n.toNat_lt
  refine ⟨n, rfl, ?_⟩
  rw [toNat_of_wordIndex? hn]
  by_cases ht : sc.method.hasThis = true
  · rw [if_pos ht] at hv
    cases j with
    | zero =>
        obtain rfl := Option.some.inj hv
        exact ⟨rfl, rfl, ht, rfl⟩
    | succ p =>
        obtain rfl : v = sc.parameterValue p := eq_parameterValue hv
        refine ⟨rfl, rfl, ?_⟩
        rw [toNat_clampIndex (by omega), ht]
        rfl
  · rw [if_neg ht] at hv
    obtain rfl : v = sc.parameterValue j := eq_parameterValue hv
    refine ⟨rfl, rfl, ?_⟩
    rw [toNat_clampIndex hlt, Bool.eq_false_iff.mpr ht]
    rfl

theorem describes_entryState (entry : Nat → Datum) (locals : UInt16 → Datum) :
    sc.entryState.Describes sc.method entry (.start entry locals) := by
  have h : sc.entryState.vars.Over (SetOf.Within Value.Direct) ∧
      (∀ n, (sc.entryState.vars.get (.loc n)).Describes sc.method entry (locals n)) ∧
      ∀ n, (sc.entryState.vars.get (.arg n)).Describes sc.method entry (entry n.toNat) := by
    refine List.foldlRecOn (motive := fun v : Variables => v.Over (SetOf.Within Value.Direct) ∧
      (∀ n, (v.get (.loc n)).Describes sc.method entry (locals n)) ∧
      ∀ n, (v.get (.arg n)).Describes sc.method entry (entry n.toNat)) _ _
      ⟨Variables.over_ofDefault within_unknown, fun n => describes_unknown _,
        fun n => describes_unknown _⟩ ?_
    rintro v ⟨hv, hl, ha⟩ ⟨key, w⟩ he
    obtain ⟨n, rfl, hd, hw⟩ := sc.stands_of_mem_entryArguments entry he
    refine ⟨hv.set _ (SetOf.within_single hd), fun j => ?_, fun j => ?_⟩
    · rw [Variables.get_set hv.keyed, if_neg (by simp)]
      exact hl j
    · rw [Variables.get_set hv.keyed]
      by_cases hj : j = n
      · subst hj
        rw [if_pos rfl]
        exact describes_single hw
      · rw [if_neg fun h => hj (VarKey.arg.inj h)]
        exact ha j
  exact ⟨h.2.1, h.2.2, fun i x hx => by cases hx⟩

theorem direct_boundary : ∀ e ∈ (sc.analysis g body).boundary, e.2.Direct := by
  refine over_boundary within_unknown fun e he => SetOf.within_single ?_
  obtain ⟨_, _, hdirect, _⟩ := sc.stands_of_mem_entryArguments (fun _ => .null) he
  exact hdirect

/-- States stay free of addresses, and so do returned values. -/
theorem direct_invariant (hsc : sc.ByValue) (hret : sc.method.sig.ret.isVoid = false)
    (hb : body.Scalar) :
    Invariant g (sc.analysis g body) (fun _ => State.Direct) (fun _ => State.Direct)
      (fun p => ∀ e ∈ p.returns, e.2.Within Value.Direct) where
  toAdmissible := (State.meetOrder Value.Direct rfl).admissible direct_boundary
  transfer n _ x y p p' hx _ _ ht := by
    obtain ⟨hy, _⟩ := Prod.mk.inj ((transfer_eq hb n x p).symm.trans ht)
    obtain rfl := Except.ok.inj hy
    exact direct_follow hsc (fun i hi => hb i (FlowGraph.mem_of_mem_codeOf hi)) hx.entered
  observe n x y p p' hx hp ht := by
    obtain ⟨_, rfl⟩ := Prod.mk.inj ((transfer_eq hb n x p).symm.trans ht)
    have hr : ∀ e ∈ (sc.visit g body n x).returned, e.2.Within Value.Direct :=
      within_returned_follow hsc hret (fun i hi => hb i (FlowGraph.mem_of_mem_codeOf hi)) hx.entered
        fun _ h => absurd h List.not_mem_nil
    intro e he
    unfold Progress.revisited at he
    split at he
    · exact hp e he
    · rcases Progress.mem_foldl_insert he with he | he
      · exact hp e (List.mem_filter.mp he).1
      · exact hr e he

/-- **What is known of all blocks when the iteration has ended.** -/
structure Finished (sc : Scanner) (g : FlowGraph) (body : Body) (inputs outputs : List State)
    (p : Progress) : Prop where
  direct : AllOutputs State.Direct outputs
  returns : ∀ e ∈ p.returns, e.2.Within Value.Direct
  visited : ∀ n < g.blockCount, ((sc.analysis g body).inputAt g outputs n).isTop = false →
    inputs[n]? = some ((sc.analysis g body).inputAt g outputs n) ∧
    ∃ y, outputs[n]? = some y ∧
      sc.Visits g body n ((sc.analysis g body).inputAt g outputs n) y p

theorem finished_of_solve (hsc : sc.ByValue) (hret : sc.method.sig.ret.isVoid = false)
    (hb : body.Scalar) (hinc : body.Increasing) (hd : FlowGraph.Drawn body g) {budget : Nat}
    {session : Session} {solution : Solution State} {p : Progress}
    (h : solve g (sc.analysis g body) budget { session := session } = (.ok solution, p)) :
    sc.Finished g body solution.inputs solution.outputs p := by
  obtain ⟨it, hr, hq, hin, hout, hobs⟩ := Reachable.of_solve h
  have hk := (direct_invariant hsc hret hb).reachable (fun _ he => absurd he List.not_mem_nil) hr
  rw [← hin, ← hout, ← hobs]
  refine ⟨hk.outputs, hk.observed, fun n hn hnt => ?_⟩
  rcases hr.settled (lasting hret hb hinc hd) trivial n hn (hq ▸ List.not_mem_nil) with ht | ⟨y, h₁, h₂, h₃⟩
  · exact absurd (hnt.symm.trans ht) (by decide)
  · exact ⟨h₁, y, h₂, h₃⟩

/-- A frame that is described when a block is entered is described by the input of the block. -/
theorem Finished.arrives {inputs outputs : List State} {p : Progress} {m : MethodDef}
    {entry : Nat → Datum} (hfin : sc.Finished g body inputs outputs p) {n : Nat}
    (hn : n < g.blockCount) {f : Frame} {y : State} (hy : y.Describes m entry f)
    (hle : ((sc.analysis g body).inputAt g outputs n).Covers y) :
    ∃ x z, inputs[n]? = some x ∧ x.Direct ∧ x.Describes m entry f ∧ outputs[n]? = some z ∧
      sc.Visits g body n x z p := by
  have hx : ((sc.analysis g body).inputAt g outputs n).Direct :=
    ((State.meetOrder Value.Direct rfl).admissible direct_boundary).inputAt hfin.direct n
  have hdesc := hy.of_covers hx.canonical hle
  obtain ⟨hin, z, hz, hv⟩ := hfin.visited n hn hdesc.not_isTop
  exact ⟨_, z, hin, hx, hdesc, hz, hv⟩

/-- The same for a block that is entered along an edge. -/
theorem Finished.follows_edge {inputs outputs : List State} {p : Progress} {m : MethodDef}
    {entry : Nat → Datum} (hfin : sc.Finished g body inputs outputs p) {n n' : Nat}
    (hn : n' < g.blockCount) (hedge : n' ∈ g.graph.successors n) {f : Frame} {y : State}
    (hy : outputs[n]? = some y) (hd : y.Describes m entry f) :
    ∃ x z, inputs[n']? = some x ∧ x.Direct ∧ x.Describes m entry f ∧ outputs[n']? = some z ∧
      sc.Visits g body n' x z p := by
  refine hfin.arrives hn hd ?_
  have hle := (State.meetOrder Value.Direct rfl).inputAt_le_output (a := sc.analysis g body)
    direct_boundary hfin.direct hedge
  rw [hy] at hle
  exact hle

end Scanner

/-! ## 3. Runs -/

section Runs

variable {sc : Scanner} {g : FlowGraph} {body : Body} {inputs outputs : List State} {p : Progress}
  {entry : Nat → Datum}

/-- **Where a run has got to, the analysis has been**: in the block of the next instruction, the
    state before it describes the frame. -/
def Tracked (sc : Scanner) (g : FlowGraph) (body : Body) (inputs outputs : List State)
    (p : Progress) (entry : Nat → Datum) (pc : Nat) (f : Frame) : Prop :=
  ∃ (k : Nat) (c : CodeBlock) (x z : State), body.blocks[k]? = some c ∧ c.first ≤ pc ∧ pc < c.stop ∧
    inputs[k + 1]? = some x ∧ outputs[k + 1]? = some z ∧ sc.Visits g body (k + 1) x z p ∧ x.Direct ∧
    (sc.follow (k + 1) ((g.codeOf body (k + 1)).take (pc - c.first))
      { state := x.entered }).state.Describes sc.method entry f

theorem direct_take (hsc : sc.ByValue) (hb : body.Scalar) (n j : Nat) {x : State}
    (hx : x.Direct) :
    (sc.follow n ((g.codeOf body n).take j) { state := x.entered }).state.Direct :=
  Scanner.direct_follow hsc
    (fun i hi => hb i (FlowGraph.mem_of_mem_codeOf (List.mem_of_mem_take hi))) hx.entered

theorem lt_blockCount (hd : FlowGraph.Drawn body g) {k : Nat} {c : CodeBlock}
    (hc : body.blocks[k]? = some c) : k + 1 < g.blockCount := by
  have := (List.getElem?_eq_some_iff.mp hc).1
  rw [hd.blockCount_eq]
  omega

/-- A run that enters a block along an edge is tracked there. -/
theorem tracked_of_edge (hd : FlowGraph.Drawn body g) (hfin : sc.Finished g body inputs outputs p)
    {n k : Nat} {c : CodeBlock} (hc : body.blocks[k]? = some c)
    (hedge : k + 1 ∈ g.graph.successors n) {f : Frame} {y : State} (hy : outputs[n]? = some y)
    (hdesc : y.Describes sc.method entry f) :
    Tracked sc g body inputs outputs p entry c.first f := by
  obtain ⟨x, z, hx, hdir, hxf, hz, hv⟩ :=
    hfin.follows_edge (lt_blockCount hd hc) hedge hy hdesc
  refine ⟨k, c, x, z, hc, Nat.le_refl _, Body.first_lt_stop hc, hx, hz, hv, hdir, ?_⟩
  rw [Nat.sub_self, List.take_zero]
  exact State.describes_entered.mpr hxf

theorem tracked_start (hd : FlowGraph.Drawn body g) (hfin : sc.Finished g body inputs outputs p)
    (hne : body.instructions ≠ []) (locals : UInt16 → Datum) :
    Tracked sc g body inputs outputs p entry 0 (.start entry locals) := by
  -- the entry holds no code, so its output is its input
  have h0 : 0 < g.blockCount := by rw [hd.blockCount_eq]; omega
  have hle := (State.meetOrder Value.Direct rfl).inputAt_le_boundary (a := sc.analysis g body)
    (g := g) Scanner.direct_boundary hfin.direct (e := (0, sc.entryState)) List.mem_cons_self
  obtain ⟨x, z, _, _, hxf, hz, hv, _⟩ :=
    hfin.arrives h0 (sc.describes_entryState entry locals) hle
  have hcode : g.codeOf body 0 = [] := by
    unfold FlowGraph.codeOf FlowGraph.block? Digraph.node?
    rw [hd.nodes]
    rfl
  have hz0 : z = x.entered := by
    rw [hv]
    unfold Scanner.visit
    rw [hcode]
    rfl
  have hlead : 0 ∈ body.leaders :=
    Body.mem_leaders.mpr ⟨List.length_pos_iff.mpr hne, rfl⟩
  obtain ⟨k, c, hc, hfirst⟩ := Body.exists_block_of_leader hlead
  have hk : k = 0 := by
    have hlk := (Body.leaders_of_block hc).1
    rw [hfirst] at hlk
    rcases Nat.eq_zero_or_pos k with hk | hk
    · exact hk
    · obtain ⟨y, hy⟩ : ∃ y, body.leaders[0]? = some y :=
        ⟨_, List.getElem?_eq_getElem (Nat.lt_trans hk (List.getElem?_eq_some_iff.mp hlk).1)⟩
      exact absurd (Body.leaders_lt hy hlk hk) (Nat.not_lt_zero y)
  subst hk
  rw [← hfirst]
  exact tracked_of_edge hd hfin hc hd.entry hz (hz0 ▸ State.describes_entered.mpr hxf)

/-- At the last instruction of a block the trace of the visit is complete. -/
theorem visit_eq (hd : FlowGraph.Drawn body g) {k : Nat} {c : CodeBlock}
    (hc : body.blocks[k]? = some c) {pc : Nat} (hf : c.first ≤ pc) (hs : pc + 1 = c.stop)
    {i : Instruction} (hi : body.instructions[pc]? = some i) (x : State) :
    sc.visit g body (k + 1) x = sc.stepLocal (k + 1) i
      (sc.follow (k + 1) ((g.codeOf body (k + 1)).take (pc - c.first)) { state := x.entered })
      i.opcode.role := by
  have hget : (g.codeOf body (k + 1))[pc - c.first]? = some i := by
    rw [FlowGraph.getElem?_codeOf hd hc hf (by omega), hi]
  unfold Scanner.visit
  rw [← Scanner.follow_take_succ hget, List.take_of_length_le]
  rw [FlowGraph.length_codeOf hd hc]
  omega

/-- **A step of the machine is tracked.** -/
theorem tracked_step (hd : FlowGraph.Drawn body g) (hfin : sc.Finished g body inputs outputs p)
    (hsc : sc.ByValue) (hb : body.Scalar) (hinc : body.Increasing) {pc pc' : Nat} {f f' : Frame}
    (h : Tracked sc g body inputs outputs p entry pc f) (hstep : Steps body pc f pc' f')
    (hlt : pc' < body.instructions.length) :
    Tracked sc g body inputs outputs p entry pc' f' := by
  obtain ⟨k, c, x, z, hc, hfirst, hstop, hx, hz, hv, hdir, hdesc⟩ := h
  have hdir' := direct_take (g := g) hsc hb (k + 1) (pc - c.first) hdir
  -- the instruction that is executed, and the state after it
  obtain ⟨i, a, hi, ha, hact⟩ : ∃ i a, body.instructions[pc]? = some i ∧
      i.opcode.scalar? = some a ∧ Acts i a f f' := by
    cases hstep with
    | next i a _ hi ha _ hact => exact ⟨i, a, hi, ha, hact⟩
    | jump i _ a _ _ hi ha _ _ _ hact => exact ⟨i, a, hi, ha, hact⟩
  obtain ⟨hrole, hfalls, hjumps, hends⟩ := Opcode.scalar?_agrees ha
  have hafter := sc.describes_step hsc (k + 1) hact hdir' hdesc
  rw [← hrole] at hafter
  by_cases hin : pc + 1 < c.stop
  · -- inside a block control can only run on
    have hj := (hends (Body.inner_sequential hc hfirst hin hi)).1
    cases hstep with
    | jump i' _ a' _ _ hi' ha' hj' _ _ _ =>
        obtain rfl := Option.some.inj (hi.symm.trans hi')
        obtain rfl := Option.some.inj (ha.symm.trans ha')
        exact absurd (hj.symm.trans hj') (by decide)
    | next i' _ _ hi' _ _ _ =>
        refine ⟨k, c, x, z, hc, by omega, hin, hx, hz, hv, hdir, ?_⟩
        have hget : (g.codeOf body (k + 1))[pc - c.first]? = some i := by
          rw [FlowGraph.getElem?_codeOf hd hc hfirst hstop, hi]
        rw [Nat.succ_sub hfirst, Scanner.follow_take_succ hget]
        exact hafter
  · have hlast : pc + 1 = c.stop := by omega
    rw [← visit_eq hd hc hfirst hlast hi, ← hv.1] at hafter
    have hl : body.instructions[c.stop - 1]? = some i := by rw [← hlast]; exact hi
    cases hstep with
    | next i' a' _ hi' ha' hf' _ =>
        obtain rfl := Option.some.inj (hi.symm.trans hi')
        obtain rfl := Option.some.inj (ha.symm.trans ha')
        obtain ⟨k', c', hc', hfirst', hedge⟩ :=
          hd.edge_of_falls hinc hc hl (hfalls.trans hf') (hlast ▸ hlt)
        rw [hlast, ← hfirst']
        exact tracked_of_edge hd hfin hc' hedge hz hafter
    | jump i' t a' _ _ hi' ha' hj' ht hm _ =>
        obtain rfl := Option.some.inj (hi.symm.trans hi')
        obtain rfl := Option.some.inj (ha.symm.trans ha')
        obtain ⟨k', c', hc', hfirst', hedge⟩ :=
          hd.edge_of_jumps hinc hc hl (hjumps.trans hj') ht hm
        rw [← hfirst']
        exact tracked_of_edge hd hfin hc' hedge hz hafter

/-- **Every run is tracked**, as long as it stays inside the code. -/
theorem tracked_runs (hd : FlowGraph.Drawn body g) (hfin : sc.Finished g body inputs outputs p)
    (hsc : sc.ByValue) (hb : body.Scalar) (hinc : body.Increasing)
    (hne : body.instructions ≠ []) {locals : UInt16 → Datum} {pc : Nat} {f : Frame}
    (h : Runs body (.start entry locals) pc f) (hlt : pc < body.instructions.length) :
    Tracked sc g body inputs outputs p entry pc f := by
  induction h with
  | start => exact tracked_start hd hfin hne locals
  | step pc pc' f f' h hs ih =>
      have hpc : pc < body.instructions.length := by
        cases hs with
        | next i _ _ hi => exact (List.getElem?_eq_some_iff.mp hi).1
        | jump i _ _ _ _ hi => exact (List.getElem?_eq_some_iff.mp hi).1
      exact tracked_step hd hfin hsc hb hinc (ih hpc) hs hlt

/-- Where a run is at the start of a block, the input of the block describes its frame. -/
theorem Tracked.describes_input (hd : FlowGraph.Drawn body g) {pc : Nat} {f : Frame}
    (h : Tracked sc g body inputs outputs p entry pc f) {n : Nat} {c : CodeBlock}
    (hn : g.block? n = some (.code c)) (hpc : c.first = pc) :
    ∃ x, inputs[n]? = some x ∧ x.Describes sc.method entry f := by
  obtain ⟨k, c', x, z, hc', hfirst, hstop, hx, _, _, _, hdesc⟩ := h
  obtain ⟨j, rfl, hj⟩ := hd.block_of_block? hn
  have hlt := Body.first_lt_stop hj
  obtain rfl := FlowGraph.block_unique hj hc' (Nat.le_of_eq hpc) (hpc ▸ hlt) hfirst hstop
  obtain rfl := Option.some.inj (hj.symm.trans hc')
  refine ⟨x, hx, State.describes_entered.mp ?_⟩
  rw [hpc, Nat.sub_self, List.take_zero] at hdesc
  exact hdesc

/-- What a run returns is described by what the analysis has filed for the instruction. -/
theorem Tracked.describes_return (hd : FlowGraph.Drawn body g) (hsc : sc.ByValue)
    (hret : sc.method.sig.ret.isVoid = false) (hb : body.Scalar) {pc : Nat} {f : Frame}
    (h : Tracked sc g body inputs outputs p entry pc f) {v : Datum} (hv : Returns body pc f v) :
    ∃ e ∈ p.returns, e.2.Describes sc.method entry v := by
  obtain ⟨k, c, x, z, hc, hfirst, hstop, _, _, hvisit, hdir, hdesc⟩ := h
  obtain ⟨i, r, hi, ha, hr⟩ := hv
  obtain ⟨l, a, stack⟩ := f
  obtain rfl : stack = v :: r := hr
  obtain ⟨hrole, _, _, hends⟩ := Opcode.scalar?_agrees ha
  have hlast : pc + 1 = c.stop := by
    rcases Nat.lt_or_eq_of_le (Nat.succ_le_of_lt hstop) with hin | hlast
    · exact absurd rfl (hends (Body.inner_sequential hc hfirst hin hi)).2
    · exact hlast
  have hdir' := direct_take (g := g) hsc hb (k + 1) (pc - c.first) hdir
  have hret' := hvisit.2
  rw [visit_eq hd hc hfirst hlast hi, hrole, sc.returned_step hret, if_pos rfl,
    Scanner.popValue_eq hdir'] at hret'
  refine ⟨_, hret' _ (List.mem_append_right _ List.mem_cons_self), ?_⟩
  exact (Trace.describes_pop hdesc i.offset).1

theorem describes_returned (hfin : sc.Finished g body inputs outputs p) {m : MethodDef}
    {v : Datum} {e : Nat × ValueSet} (he : e ∈ p.returns) (hv : e.2.Describes m entry v) :
    p.returned.Describes m entry v := by
  have hcan : ∀ s ∈ p.returns.map Prod.snd, s.Canonical := by
    intro s hs
    obtain ⟨e, he, rfl⟩ := List.mem_map.mp hs
    exact (hfin.returns e he).toCanonical
  refine hv.of_covers (SetOf.canonical_empty.foldl_merge hcan) fun w hw => ?_
  exact SetOf.admits_foldl_merge.mpr (Or.inr ⟨e.2, List.mem_map_of_mem he, hw⟩)

end Runs

theorem isByRef_substitute (t : TypeSig) : (t.substitute [] []).isByRef = t.isByRef := by
  cases t <;> rfl

/-- **What is reported about scalar code holds in every run.**  When the analysis of a method
    converges, then for all arguments, all local variables and all ways that branches can go, what
    a run returns is described by what the report says is returned, and whenever a run enters a
    block, its frame is described by the state that the report has for the block. -/
theorem analyze_describes_runs {s : Store} {config : Config} {session : Session} {token : Token}
    {m : MethodDef} {body : Body} {report : MethodReport} (hm : s.methodDef? token = some m)
    (hbody : s.body? m.token = some body) (hret : m.sig.ret.isVoid = false)
    (hparams : ∀ t ∈ m.sig.params, t.isByRef = false) (hinc : body.Increasing)
    (hb : body.Scalar) (h : ((s.analyze config token).run session).1 = .ok report)
    (hc : report.hasConverged = true) :
    ∃ g solution, FlowGraph.ofBody body = .ok g ∧ report.states = some solution ∧
      ∀ (entry : Nat → Datum) (locals : UInt16 → Datum) (pc : Nat) (f : Frame),
        Runs body (.start entry locals) pc f →
        (∀ v, Returns body pc f v → report.returns.Describes m entry v) ∧
        (∀ (n : Nat) (c : CodeBlock), g.block? n = some (.code c) → c.first = pc →
          ∃ x, solution.inputs[n]? = some x ∧ x.Describes m entry f) := by
  obtain ⟨g, solution, p, hg, hsolve, hreturns, hstates⟩ :=
    Store.iterated_of_hasConverged hm hbody h hc
  obtain ⟨hne, _, hd⟩ := FlowGraph.ofBody_inv hg
  have hsc : (s.scannerOf config session m).ByValue := by
    intro t ht
    obtain ⟨u, hu, rfl⟩ := List.mem_map.mp ht
    exact (isByRef_substitute u).trans (hparams u hu)
  have hfin := Scanner.finished_of_solve hsc hret hb hinc hd hsolve
  refine ⟨g, solution, hg, hstates, fun entry locals pc f hrun => ⟨fun v hv => ?_, fun n c hn hpc => ?_⟩⟩
  · have hlt : pc < body.instructions.length := by
      obtain ⟨i, _, hi, _⟩ := hv
      exact (List.getElem?_eq_some_iff.mp hi).1
    obtain ⟨e, he, hev⟩ :=
      (tracked_runs hd hfin hsc hb hinc hne hrun hlt).describes_return hd hsc hret hb hv
    rw [hreturns]
    exact describes_returned hfin he hev
  · have hlt : pc < body.instructions.length := by
      obtain ⟨k, _, hk⟩ := hd.block_of_block? hn
      exact hpc ▸ Body.first_lt_length hk
    exact (tracked_runs hd hfin hsc hb hinc hne hrun hlt).describes_input hd hn hpc

namespace Choice

/-- An instance method with one parameter. -/
def method : MethodDef where
  token := ⟨0x06000001⟩
  declaring := ⟨0x02000001⟩
  name := "choose"
  flags := 0x6
  sig := ⟨true, false, 0, .prim .object, [.prim .object]⟩
  paramNames := ["value"]

/-- Returns the argument, or seven if the instance is null. -/
def body : Body where
  maxStack := 1
  initLocals := true
  locals := [.prim .object]
  instructions :=
    [⟨0, .ldarg1, .empty⟩, ⟨1, .stloc0, .empty⟩, ⟨2, .ldarg0, .empty⟩, ⟨3, .brtrueS, .target 7⟩,
     ⟨5, .ldcI47, .empty⟩, ⟨6, .stloc0, .empty⟩, ⟨7, .ldloc0, .empty⟩, ⟨8, .ret, .empty⟩]
  clauses := []

/-- A program with this method alone. -/
def store : Store := { methods := [(method.token, method)], bodies := [(method.token, body)] }

theorem returns_argument (entry : Nat → Datum) (locals : UInt16 → Datum) :
    ∃ f, Runs body (.start entry locals) 7 f ∧ Returns body 7 f (entry 1) := by
  have h₀ : Runs body (.start entry locals) 0 (.start entry locals) := .start
  have h₁ := h₀.step _ _ _ _ (.next _ _ _ rfl rfl rfl (.loadArgument _ 1 rfl))
  have h₂ := h₁.step _ _ _ _ (.next _ _ _ rfl rfl rfl (.storeLocal _ _ _ _ 0 rfl))
  have h₃ := h₂.step _ _ _ _ (.next _ _ _ rfl rfl rfl (.loadArgument _ 0 rfl))
  have h₄ := h₃.step _ _ _ _
    (.jump _ _ _ 6 _ rfl rfl rfl rfl List.mem_cons_self (.branch _ _ [_] _ _))
  have h₅ := h₄.step _ _ _ _ (.next _ _ _ rfl rfl rfl (.loadLocal _ 0 rfl))
  exact ⟨_, h₅, _, _, rfl, rfl, rfl⟩

theorem returns_seven (entry : Nat → Datum) (locals : UInt16 → Datum) :
    ∃ f, Runs body (.start entry locals) 7 f ∧ Returns body 7 f (.int 7) := by
  have h₀ : Runs body (.start entry locals) 0 (.start entry locals) := .start
  have h₁ := h₀.step _ _ _ _ (.next _ _ _ rfl rfl rfl (.loadArgument _ 1 rfl))
  have h₂ := h₁.step _ _ _ _ (.next _ _ _ rfl rfl rfl (.storeLocal _ _ _ _ 0 rfl))
  have h₃ := h₂.step _ _ _ _ (.next _ _ _ rfl rfl rfl (.loadArgument _ 0 rfl))
  have h₄ := h₃.step _ _ _ _ (.next _ _ _ rfl rfl rfl (.branch _ _ [_] _ _))
  have h₅ := h₄.step _ _ _ _ (.next _ _ _ rfl rfl rfl (.pushInt _ 7 rfl))
  have h₆ := h₅.step _ _ _ _ (.next _ _ _ rfl rfl rfl (.storeLocal _ _ _ _ 0 rfl))
  have h₇ := h₆.step _ _ _ _ (.next _ _ _ rfl rfl rfl (.loadLocal _ 0 rfl))
  exact ⟨_, h₇, _, _, rfl, rfl, rfl⟩

end Choice

/-- Both values that the method can return are described by its report. -/
theorem choice_describes_runs : ∃ report,
    ((Choice.store.analyze {} Choice.method.token).run {}).1 = .ok report ∧
    ∀ entry, report.returns.Describes Choice.method entry (entry 1) ∧
      report.returns.Describes Choice.method entry (.int 7) := by
  have hok : (((Choice.store.analyze {} Choice.method.token).run {}).1.toOption.map
      MethodReport.hasConverged) = some true := by decide +kernel
  cases h : ((Choice.store.analyze {} Choice.method.token).run {}).1 with
  | error f => rw [h] at hok; cases hok
  | ok report =>
      rw [h] at hok
      have hc : report.hasConverged = true := Option.some.inj hok
      have hinc : Choice.body.Increasing := by unfold Body.Increasing; decide
      have hb : Choice.body.Scalar := by unfold Body.Scalar; decide
      obtain ⟨g, solution, hg, hs, hall⟩ := analyze_describes_runs (m := Choice.method) rfl
        rfl rfl (by decide) hinc hb h hc
      refine ⟨report, rfl, fun entry => ⟨?_, ?_⟩⟩
      · obtain ⟨f, hr, hv⟩ := Choice.returns_argument entry fun _ => .null
        exact (hall entry _ _ f hr).1 _ hv
      · obtain ⟨f, hr, hv⟩ := Choice.returns_seven entry fun _ => .null
        exact (hall entry _ _ f hr).1 _ hv

end ReflectionFlow

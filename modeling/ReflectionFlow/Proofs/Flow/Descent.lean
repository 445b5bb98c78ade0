/-
  File:      ReflectionFlow/Proofs/Flow/Descent.lean
  Subject:   Monotone analyses: the states of a run only go down, and where they stop.

  The order in which blocks are visited is open throughout.  States need to be ordered only on
  a set of states that meet and transfer do not leave; the order of a lattice with the laws of
  meet is one instance.

  * `MeetOrder`, `MonotoneOn`   an order under which meet and transfer are monotone
  * `Descending`                inputs lie above what flows in now, outputs belong to inputs
  * `Reachable.descending`      every run is descending
  * `Visited.output_le`         a changed output is below the one before
  * `solve_greatest`            an answer is the greatest solution, and every run ends in it
-/
import Mathlib.Data.List.Forall2
import ReflectionFlow.Proofs.Flow.Solution

namespace ReflectionFlow

open MeetLattice

variable {L σ ε : Type} [MeetLattice L]

/-! ## 1. Orders -/

/-- **An order on the states that satisfy `P`**, under which meet is monotone and the top state
    is the greatest. -/
structure MeetOrder (P : L → Prop) (le : L → L → Prop) : Prop where
  top : P top
  meet : ∀ x y, P x → P y → P (meet x y)
  isTop_top : isTop (MeetLattice.top : L) = true
  refl : ∀ x, P x → le x x
  trans : ∀ x y z, P x → P y → P z → le x y → le y z → le x z
  le_top : ∀ x, P x → le x MeetLattice.top
  mono : ∀ x x' y y', P x → P x' → P y → P y' → le x x' → le y y' →
    le (MeetLattice.meet x y) (MeetLattice.meet x' y')
  meet_left : ∀ x y, P x → P y → le (MeetLattice.meet x y) x
  meet_right : ∀ x y, P x → P y → le (MeetLattice.meet x y) y
  isTop : ∀ x y, P x → P y → le x y → isTop x = true → isTop y = true

/-- A transfer function that does not leave the states that satisfy `P` and is monotone there. -/
structure MonotoneOn (P : L → Prop) (le : L → L → Prop) (f : Nat → L → L) : Prop where
  closed : ∀ b x, P x → P (f b x)
  mono : ∀ b x y, P x → P y → isTop y = false → le x y → le (f b x) (f b y)

/-- An order of states is one also on those that satisfy a further condition. -/
theorem MeetOrder.restrict {P : L → Prop} {le : L → L → Prop} (hO : MeetOrder P le) {R : L → Prop}
    (htop : R MeetLattice.top) (hmeet : ∀ x y, R x → R y → R (MeetLattice.meet x y)) :
    MeetOrder (fun x => P x ∧ R x) le where
  top := ⟨hO.top, htop⟩
  meet x y hx hy := ⟨hO.meet x y hx.1 hy.1, hmeet x y hx.2 hy.2⟩
  isTop_top := hO.isTop_top
  refl x hx := hO.refl x hx.1
  trans x y z hx hy hz := hO.trans x y z hx.1 hy.1 hz.1
  le_top x hx := hO.le_top x hx.1
  mono x x' y y' hx hx' hy hy' := hO.mono x x' y y' hx.1 hx'.1 hy.1 hy'.1
  meet_left x y hx hy := hO.meet_left x y hx.1 hy.1
  meet_right x y hx hy := hO.meet_right x y hx.1 hy.1
  isTop x y hx hy := hO.isTop x y hx.1 hy.1

theorem LawfulMeet.meetOrder [LawfulMeet L] : MeetOrder (fun _ : L => True) Below where
  top := trivial
  meet _ _ _ _ := trivial
  isTop_top := isTop_top
  refl x _ := Below.refl x
  trans _ _ _ _ _ _ h₁ h₂ := h₁.trans h₂
  le_top x _ := Below.top x
  mono x _ y _ _ _ _ _ h₁ h₂ :=
    ((meet_below_left x y).trans h₁).meet ((meet_below_right x y).trans h₂)
  meet_left x y _ _ := meet_below_left x y
  meet_right x y _ _ := meet_below_right x y
  isTop _ _ _ _ h hx := h.isTop hx

section Order

variable {P : L → Prop} {le : L → L → Prop} {g : FlowGraph} {a : Analysis L σ ε}

/-- The outputs of all blocks satisfy a condition. -/
def AllOutputs (P : L → Prop) (outputs : List L) : Prop :=
  ∀ (b : Nat) (x : L), outputs[b]? = some x → P x

theorem AllOutputs.getD (hO : MeetOrder P le) {outputs : List L} (h : AllOutputs P outputs)
    (p : Nat) : P (outputs[p]?.getD top) := by
  cases hx : outputs[p]? with
  | none => exact hO.top
  | some x => exact h p x hx

theorem MeetOrder.admissible (hO : MeetOrder P le) (hb : ∀ e ∈ a.boundary, P e.2) :
    Admissible g a (fun _ => P) (fun _ => P) where
  topIn _ := hO.top
  topOut _ := hO.top
  meet _ := hO.meet
  boundary := hb
  edge _ _ _ hx := hx

/-- Lower outputs give lower inputs. -/
theorem MeetOrder.inputAt_le (hO : MeetOrder P le) (hb : ∀ e ∈ a.boundary, P e.2)
    {outputs outputs' : List L} (h : AllOutputs P outputs) (h' : AllOutputs P outputs')
    (hle : ∀ p : Nat, le (outputs'[p]?.getD MeetLattice.top) (outputs[p]?.getD MeetLattice.top)) (b : Nat) :
    le (a.inputAt g outputs' b) (a.inputAt g outputs b) := by
  unfold Analysis.inputAt
  have step : ∀ (l : List Nat) (x' x : L), P x' → P x → le x' x →
      le (l.foldl (fun x p => MeetLattice.meet x (outputs'[p]?.getD MeetLattice.top)) x')
        (l.foldl (fun x p => MeetLattice.meet x (outputs[p]?.getD MeetLattice.top)) x) := by
    intro l
    induction l with
    | nil => exact fun _ _ _ _ hx => hx
    | cons p l ih =>
        intro x' x hx' hx hxx
        exact ih _ _ (hO.meet _ _ hx' (h'.getD hO p)) (hO.meet _ _ hx (h.getD hO p))
          (hO.mono _ _ _ _ hx' hx (h'.getD hO p) (h.getD hO p) hxx (hle p))
  have hP := (hO.admissible (g := g) hb).boundaryAt b
  exact step _ _ _ hP hP (hO.refl _ hP)

theorem MeetOrder.foldl_meet_le (hO : MeetOrder P le) {α : Type} {F : α → L} {l : List α}
    (hF : ∀ p ∈ l, P (F p)) {x : L} (hx : P x) :
    le (l.foldl (fun x p => MeetLattice.meet x (F p)) x) x ∧
      ∀ p ∈ l, le (l.foldl (fun x p => MeetLattice.meet x (F p)) x) (F p) := by
  induction l generalizing x with
  | nil => exact ⟨hO.refl x hx, fun _ h => absurd h List.not_mem_nil⟩
  | cons q l ih =>
      have hFq := hF q List.mem_cons_self
      have hFl : ∀ p ∈ l, P (F p) := fun p hp => hF p (List.mem_cons_of_mem _ hp)
      have hq := hO.meet x (F q) hx hFq
      obtain ⟨h₁, h₂⟩ := ih hFl hq
      have hP : P (l.foldl (fun x p => MeetLattice.meet x (F p)) (MeetLattice.meet x (F q))) :=
        List.foldlRecOn (motive := P) l _ hq fun y hy p hp => hO.meet y (F p) hy (hFl p hp)
      refine ⟨hO.trans _ _ _ hP hq hx h₁ (hO.meet_left x (F q) hx hFq), fun p hp => ?_⟩
      rcases List.mem_cons.mp hp with rfl | hp
      · exact hO.trans _ _ _ hP hq hFq h₁ (hO.meet_right x (F p) hx hFq)
      · exact h₂ p hp

/-- The input of a block is below the outputs of its predecessors. -/
theorem MeetOrder.inputAt_le_output (hO : MeetOrder P le) (hb : ∀ e ∈ a.boundary, P e.2)
    {outputs : List L} (h : AllOutputs P outputs) {b p : Nat} (hp : b ∈ g.graph.successors p) :
    le (a.inputAt g outputs b) (outputs[p]?.getD MeetLattice.top) := by
  have hP := (hO.admissible (g := g) hb).boundaryAt b
  exact (hO.foldl_meet_le (fun q _ => h.getD hO q) hP).2 p (mem_predecessors_iff_mem_successors.mpr hp)

/-- The input of a block is below its boundary states. -/
theorem MeetOrder.inputAt_le_boundary (hO : MeetOrder P le) (hb : ∀ e ∈ a.boundary, P e.2)
    {outputs : List L} (h : AllOutputs P outputs) {e : Nat × L} (he : e ∈ a.boundary) :
    le (a.inputAt g outputs e.1) e.2 := by
  have hP := (hO.admissible (g := g) hb).boundaryAt e.1
  have hin := (hO.admissible (g := g) hb).inputAt h e.1
  refine hO.trans _ _ _ hin hP (hb e he) (hO.foldl_meet_le (fun q _ => h.getD hO q) hP).1 ?_
  have hmem : e.2 ∈ a.statesAt e.1 :=
    List.mem_map_of_mem (List.mem_filter.mpr ⟨he, beq_self_eq_true _⟩)
  have hall : ∀ x ∈ a.statesAt e.1, P x := by
    intro x hx
    obtain ⟨f, hf, rfl⟩ := List.mem_map.mp hx
    exact hb f (List.mem_filter.mp hf).1
  rw [a.boundaryAt_eq]
  cases hs : a.statesAt e.1 with
  | nil => rw [hs] at hmem; cases hmem
  | cons x rest =>
      rw [hs] at hmem hall
      obtain ⟨h₁, h₂⟩ := hO.foldl_meet_le (F := id)
        (fun y hy => hall y (List.mem_cons_of_mem _ hy)) (hall x List.mem_cons_self)
      rcases List.mem_cons.mp hmem with heq | hmem
      · rw [heq]
        exact h₁
      · exact h₂ _ hmem

end Order

/-! ## 2. Descending runs -/

/-- **Inputs lie above what flows in now, and outputs belong to inputs.** -/
structure Descending (g : FlowGraph) (a : Analysis L σ ε) (f : Nat → L → L)
    (le : L → L → Prop) (it : Iteration L σ) : Prop where
  input : ∀ (b : Nat) (x : L), it.inputs[b]? = some x → le (a.inputAt g it.outputs b) x
  output : ∀ (b : Nat) (x : L), it.inputs[b]? = some x → it.outputs[b]? = some (outputOf f b x)

section Descent

variable {P : L → Prop} {le : L → L → Prop} {g : FlowGraph} {a : Analysis L σ ε}
  {Obs : σ → Prop} {f : Nat → L → L}

theorem MeetOrder.outputOf_le (hO : MeetOrder P le) (hf : MonotoneOn P le f) {b : Nat} {x y : L}
    (hx : P x) (hy : P y) (hle : le x y) :
    le (f b x) (outputOf f b y) := by
  unfold outputOf
  by_cases ht : MeetLattice.isTop y = true
  · rw [if_pos ht]
    exact hO.le_top _ (hf.closed b x hx)
  · rw [if_neg ht]
    exact hf.mono b x y hx hy (by simpa using ht) hle

/-- The states that satisfy `P` are an invariant of the run. -/
theorem MeetOrder.invariant (hO : MeetOrder P le) (hf : MonotoneOn P le f) (ha : a.Follows Obs f)
    (hb : ∀ e ∈ a.boundary, P e.2) : Invariant g a (fun _ => P) (fun _ => P) Obs where
  toAdmissible := hO.admissible hb
  transfer b _ x y s s' hx _ ho ht := by
    rw [(ha b x y s s' ho ht).1]
    exact hf.closed b x hx
  observe b x y s s' _ ho ht := (ha b x y s s' ho ht).2

/-- **A changed output is below the one before.** -/
theorem Visited.output_le (hO : MeetOrder P le) (hf : MonotoneOn P le f) (ha : a.Follows Obs f)
    (hb : ∀ e ∈ a.boundary, P e.2) {it : Iteration L σ} {block : Nat} {output : L} {s : σ}
    (hk : Kept (fun _ => P) (fun _ => P) Obs it) (hd : Descending g a f le it)
    (ht : a.transfer block (a.inputAt g it.outputs block) it.observed = (.ok output, s))
    (hlt : block < it.inputs.length) :
    ∃ y, it.outputs[block]? = some y ∧ P y ∧ P output ∧ le output y := by
  obtain ⟨x, hx⟩ : ∃ x, it.inputs[block]? = some x := ⟨_, List.getElem?_eq_getElem hlt⟩
  have hPin := (hO.admissible (g := g) hb).inputAt hk.outputs block
  obtain ⟨rfl, _⟩ := ha _ _ _ _ _ hk.observed ht
  refine ⟨_, hd.output block x hx, hk.outputs _ _ (hd.output block x hx), hf.closed _ _ hPin, ?_⟩
  exact hO.outputOf_le hf hPin (hk.inputs block x hx) (hd.input block x hx)

theorem Descending.visited (hO : MeetOrder P le) (hf : MonotoneOn P le f) (ha : a.Follows Obs f)
    (hb : ∀ e ∈ a.boundary, P e.2) {it it' : Iteration L σ} {block : Nat}
    (hv : Visited g a it block it') (hk : Kept (fun _ => P) (fun _ => P) Obs it)
    (hlen : it.inputs.length = it.outputs.length)
    (hd : Descending g a f le it) : Descending g a f le it' := by
  have hPin := (hO.admissible (g := g) hb).inputAt hk.outputs block
  cases hv with
  | passed => exact ⟨hd.input, hd.output⟩
  | confirmed output s hin ht hout =>
      obtain ⟨rfl, _⟩ := ha _ _ _ _ _ hk.observed ht
      refine ⟨forall_getElem?_set hd.input fun _ => hO.refl _ hPin,
        forall_getElem?_set hd.output fun _ => ?_⟩
      rw [hout, outputOf, if_neg (by simp [hin])]
  | changed output s hin ht hout =>
      have hfx := (ha _ _ _ _ _ hk.observed ht).1
      by_cases hlt : block < it.inputs.length
      · obtain ⟨y, hy, hPy, hPo, hle⟩ := Visited.output_le hO hf ha hb hk hd ht hlt
        have hk' : AllOutputs P (it.outputs.set block output) :=
          forall_getElem?_set hk.outputs fun _ => hPo
        have hdown : ∀ b, le (a.inputAt g (it.outputs.set block output) b)
            (a.inputAt g it.outputs b) := by
          refine hO.inputAt_le hb hk.outputs hk' fun p => ?_
          by_cases hp : block = p
          · subst hp
            rw [List.getElem?_set_self (hlen ▸ hlt), hy]
            exact hle
          · rw [List.getElem?_set_ne hp]
            exact hO.refl _ (AllOutputs.getD hO hk.outputs p)
        constructor
        · refine forall_getElem?_set (fun b x hx => ?_) fun _ => hdown block
          exact hO.trans _ _ _ ((hO.admissible hb).inputAt hk' b) ((hO.admissible hb).inputAt hk.outputs b)
            (hk.inputs b x hx) (hdown b) (hd.input b x hx)
        · intro b x hx
          by_cases hp : block = b
          · subst hp
            rw [List.getElem?_set_self hlt] at hx
            obtain rfl := Option.some.inj hx
            rw [List.getElem?_set_self (hlen ▸ hlt), hfx, outputOf, if_neg (by simp [hin])]
          · rw [List.getElem?_set_ne hp] at hx ⊢
            exact hd.output b x hx
      · -- a number that is no block: nothing is recorded
        have hle := Nat.le_of_not_lt hlt
        rw [List.set_eq_of_length_le hle, List.set_eq_of_length_le (hlen ▸ hle)]
        exact ⟨hd.input, hd.output⟩

/-- **Every run of a monotone analysis descends.** -/
theorem Reachable.descending (hO : MeetOrder P le) (hf : MonotoneOn P le f)
    (ha : a.Follows Obs f) (hb : ∀ e ∈ a.boundary, P e.2) {observed : σ} (h0 : Obs observed)
    {it : Iteration L σ} (h : Reachable g a observed it) : Descending g a f le it := by
  have hI := hO.invariant (g := g) hf ha hb
  induction h with
  | start queue hall =>
      have hk := hI.reachable h0 (Reachable.start (a := a) queue hall)
      refine ⟨fun b x hx => ?_, fun b x hx => ?_⟩
      · have hPin := (hO.admissible (g := g) hb).inputAt hk.outputs b
        have hx' : (List.replicate g.blockCount (top : L))[b]? = some x := hx
        rw [List.getElem?_replicate] at hx'
        split at hx'
        · obtain rfl := Option.some.inj hx'
          exact hO.le_top _ hPin
        · cases hx'
      · have hx' : (List.replicate g.blockCount (top : L))[b]? = some x := hx
        show (List.replicate g.blockCount (top : L))[b]? = _
        rw [hx']
        rw [List.getElem?_replicate] at hx'
        split at hx'
        · obtain rfl := Option.some.inj hx'
          rw [outputOf, if_pos hO.isTop_top]
        · cases hx'
  | @visit it it' before after block h hq hv ih =>
      have hk := hI.reachable h0 h
      refine Descending.visited hO hf ha hb hv ⟨hk.inputs, hk.outputs, hk.observed⟩ ?_
        ⟨ih.input, ih.output⟩
      exact h.length.1.trans h.length.2.symm

end Descent

/-! ## 3. The greatest solution -/

section Greatest

variable [LawfulMeet L] {g : FlowGraph} {a : Analysis L σ ε} {f : Nat → L → L}

/-- **A solution stays below every run**: no visit takes an input or an output below it. -/
theorem Equations.invariant (ha : a.Computes f) (hf : ∀ b x y, Below x y → Below (f b x) (f b y))
    {inputs outputs : List L} (he : Equations g a f inputs outputs) :
    Invariant g a (fun b x => ∀ i, inputs[b]? = some i → Below i x)
      (fun b x => Below (outputs[b]?.getD top) x) (fun _ => True) where
  topIn _ i _ := Below.top i
  topOut _ := Below.top _
  meet _ _ _ hx hy i hi := (hx i hi).meet (hy i hi)
  boundary e hb i hi := by
    have hlt := (List.getElem?_eq_some_iff.mp hi).1
    rw [he.input e.1 (he.inputs_length ▸ hlt)] at hi
    obtain rfl := Option.some.inj hi
    refine meetAll_below (List.mem_append_left _ (List.mem_map_of_mem ?_))
    exact List.mem_filter.mpr ⟨hb, beq_self_eq_true _⟩
  edge e hedge x hx i hi := by
    have hlt := (List.getElem?_eq_some_iff.mp hi).1
    rw [he.input e.target (he.inputs_length ▸ hlt)] at hi
    obtain rfl := Option.some.inj hi
    have hp : e.source ∈ g.graph.predecessors e.target :=
      Digraph.mem_predecessors.mpr ⟨e, hedge, rfl, rfl⟩
    refine (meetAll_below ?_).trans hx
    exact List.mem_append_right _ (List.mem_map_of_mem hp)
  transfer b hb x y s s' hx hnt _ ht := by
    rw [(ha.follows b x y s s' trivial ht).1]
    obtain ⟨i, hi⟩ : ∃ i, inputs[b]? = some i :=
      ⟨_, List.getElem?_eq_getElem (he.inputs_length ▸ hb)⟩
    have hni : isTop i = false := by
      by_contra h
      rw [(hx i hi).isTop (by simpa using h)] at hnt
      cases hnt
    rw [he.output b hb i hi, Option.getD_some, outputOf, if_neg (by simp [hni])]
    exact hf b i x (hx i hi)
  observe _ _ _ _ _ _ _ _ := trivial

omit [LawfulMeet L] in
theorem forall₂_below {l r : List L} (hlen : l.length = r.length)
    (h : ∀ (b : Nat) (x y : L), l[b]? = some x → r[b]? = some y → Below x y) :
    List.Forall₂ Below l r := by
  refine List.forall₂_iff_get.mpr ⟨hlen, fun i h₁ h₂ => h i _ _ ?_ ?_⟩
  · exact List.getElem?_eq_getElem h₁
  · exact List.getElem?_eq_getElem h₂

theorem eq_of_forall₂_below {l r : List L} (h : List.Forall₂ Below l r)
    (h' : List.Forall₂ Below r l) : l = r := by
  induction h with
  | nil => rfl
  | cons hxy _ ih =>
      cases h' with
      | cons hyx h' => rw [hxy.antisymm hyx, ih h']

/-- Where a run ends, the equations hold, and every other solution is below. -/
theorem Reachable.greatest (ha : a.Computes f) (hf : ∀ b x y, Below x y → Below (f b x) (f b y))
    {s : σ} {it : Iteration L σ} (h : Reachable g a s it) (hq : it.queue = []) :
    Equations g a f it.inputs it.outputs ∧ ∀ inputs outputs, Equations g a f inputs outputs →
      List.Forall₂ Below inputs it.inputs ∧ List.Forall₂ Below outputs it.outputs := by
  constructor
  · have hmono : MonotoneOn (fun _ : L => True) Below f :=
      ⟨fun _ _ _ => trivial, fun b x y _ _ _ hxy => hf b x y hxy⟩
    have hd := h.descending LawfulMeet.meetOrder hmono ha.follows (fun _ _ => trivial) trivial
    refine h.equations ha hq fun b hb ht => ?_
    obtain ⟨x, hx⟩ : ∃ x, it.inputs[b]? = some x :=
      ⟨_, List.getElem?_eq_getElem (h.length.1 ▸ hb)⟩
    have hxt := (hd.input b x hx).isTop ht
    refine ⟨(LawfulMeet.isTop_iff x).mp hxt ▸ hx, ?_⟩
    rw [hd.output b x hx, outputOf, if_pos hxt]
  · intro inputs outputs he
    have hk := (he.invariant ha hf).reachable trivial h
    constructor
    · refine forall₂_below (he.inputs_length.trans h.length.1.symm) fun b x y hx hy => ?_
      exact hk.inputs b y hy x hx
    · refine forall₂_below (he.outputs_length.trans h.length.2.symm) fun b x y hx hy => ?_
      have := hk.outputs b y hy
      rwa [hx] at this

/-- **An answer is the greatest solution of the equations, and every order of visits ends in
    it**: for every graph, every lattice with the laws of meet and every monotone analysis. -/
theorem solve_greatest [DecidableEq L] (ha : a.Computes f)
    (hf : ∀ b x y, Below x y → Below (f b x) (f b y)) {budget : Nat} {s : σ}
    {solution : Solution L} (h : (solve g a budget s).1 = .ok solution) :
    Equations g a f solution.inputs solution.outputs ∧
    (∀ inputs outputs, Equations g a f inputs outputs →
      List.Forall₂ Below inputs solution.inputs ∧ List.Forall₂ Below outputs solution.outputs) ∧
    ∀ s' it, Reachable g a s' it → it.queue = [] →
      it.inputs = solution.inputs ∧ it.outputs = solution.outputs := by
  obtain ⟨it, hr, hq, hin, hout, _⟩ := Reachable.of_solve (Prod.ext h rfl)
  rw [← hin, ← hout]
  obtain ⟨heq, hgr⟩ := hr.greatest ha hf hq
  refine ⟨heq, hgr, fun s' it' hr' hq' => ?_⟩
  obtain ⟨heq', hgr'⟩ := hr'.greatest ha hf hq'
  exact ⟨eq_of_forall₂_below (hgr _ _ heq').1 (hgr' _ _ heq).1,
    eq_of_forall₂_below (hgr _ _ heq').2 (hgr' _ _ heq).2⟩

end Greatest

/-- The longest ways through a graph with a loop: no solution lies above the answer, and every
    order of visits finds it. -/
theorem loopGraph_greatest :
    (∀ inputs outputs, Equations PathLength.loopGraph (PathLength.analysis 4)
        (fun _ => PathLength.next 4) inputs outputs →
      List.Forall₂ Below inputs [⟨some 1⟩, ⟨some 4⟩, ⟨none⟩, ⟨some 4⟩] ∧
      List.Forall₂ Below outputs [⟨some 2⟩, ⟨some 4⟩, ⟨none⟩, ⟨some 4⟩]) ∧
    ∀ s' it, Reachable PathLength.loopGraph (PathLength.analysis 4) s' it → it.queue = [] →
      it.inputs = [⟨some 1⟩, ⟨some 4⟩, ⟨none⟩, ⟨some 4⟩] ∧
      it.outputs = [⟨some 2⟩, ⟨some 4⟩, ⟨none⟩, ⟨some 4⟩] := by
  have hf : ∀ (b : Nat) (x y : PathLength), Below x y → Below (x.next 4) (y.next 4) := by
    intro _ x y h
    rcases x with ⟨_ | m⟩ <;> rcases y with ⟨_ | n⟩
    · rfl
    · cases h
    · rfl
    · have hmn : max m n = m := Option.some.inj (congrArg PathLength.steps h)
      show (⟨some (max (min (m + 1) 4) (min (n + 1) 4))⟩ : PathLength) = ⟨some (min (m + 1) 4)⟩
      rw [show max (min (m + 1) 4) (min (n + 1) 4) = min (m + 1) 4 by omega]
  exact (solve_greatest (fun _ _ _ => rfl) hf PathLength.solve_loopGraph).2

end ReflectionFlow

/-
  File:      ReflectionFlow/Proofs/Flow/Solution.lean
  Subject:   What the iteration computes: the dataflow equations and their greatest solution.

  * `LawfulMeet`          the laws of meet, and that `isTop` holds of the top state alone
  * `MeetLaws`            the laws of meet alone
  * `Equations`           the input of a block is the meet of its boundary states and of the
                          outputs of its predecessors, and its output is the transfer of that
  * `solve_equations`     an answer of the iteration satisfies the equations, if the transfer
                          function does not lose what has reached a block
  * `PathLength`          a lattice to run both on: the longest way to a block, up to a cap
-/
import ReflectionFlow.Proofs.Flow.Worklist

namespace ReflectionFlow

open MeetLattice

/-! ## 1. Lattices -/

/-- **The laws of meet.** -/
class LawfulMeet (L : Type) [MeetLattice L] : Prop where
  meet_self : ∀ x : L, meet x x = x
  meet_comm : ∀ x y : L, meet x y = meet y x
  meet_assoc : ∀ x y z : L, meet x (meet y z) = meet (meet x y) z
  meet_top : ∀ x : L, meet x top = x
  isTop_iff : ∀ x : L, isTop x = true ↔ x = top

/-- The laws of meet without the test for the top state. -/
class MeetLaws (L : Type) [MeetLattice L] : Prop where
  meet_self : ∀ x : L, meet x x = x
  meet_comm : ∀ x y : L, meet x y = meet y x
  meet_assoc : ∀ x y z : L, meet x (meet y z) = meet (meet x y) z
  meet_top : ∀ x : L, meet x top = x

instance {L : Type} [MeetLattice L] [LawfulMeet L] : MeetLaws L where
  meet_self := LawfulMeet.meet_self
  meet_comm := LawfulMeet.meet_comm
  meet_assoc := LawfulMeet.meet_assoc
  meet_top := LawfulMeet.meet_top

/-- The order of a lattice: lower states know less. -/
def Below {L : Type} [MeetLattice L] (x y : L) : Prop := meet x y = x

/-- The meet of all states of a list. -/
def meetAll {L : Type} [MeetLattice L] (l : List L) : L := l.foldr meet top

section Laws

variable {L : Type} [MeetLattice L] [MeetLaws L]

open MeetLaws

theorem top_meet (x : L) : meet top x = x := by rw [meet_comm, meet_top]

theorem Below.refl (x : L) : Below x x := meet_self x

theorem Below.trans {x y z : L} (h₁ : Below x y) (h₂ : Below y z) : Below x z := by
  unfold Below at *
  calc meet x z = meet (meet x y) z := by rw [h₁]
    _ = meet x (meet y z) := by rw [meet_assoc]
    _ = x := by rw [h₂, h₁]

theorem Below.antisymm {x y : L} (h₁ : Below x y) (h₂ : Below y x) : x = y := by
  unfold Below at *
  rw [← h₁, meet_comm, h₂]

theorem Below.top (x : L) : Below x top := meet_top x

theorem meet_below_left (x y : L) : Below (meet x y) x := by
  unfold Below
  rw [meet_comm, meet_assoc, meet_self]

theorem meet_below_right (x y : L) : Below (meet x y) y := by
  rw [meet_comm]
  exact meet_below_left y x

theorem Below.meet {x y z : L} (h₁ : Below z x) (h₂ : Below z y) : Below z (meet x y) := by
  unfold Below at *
  rw [meet_assoc, h₁, h₂]

theorem meetAll_append (l r : List L) : meetAll (l ++ r) = MeetLattice.meet (meetAll l) (meetAll r) := by
  unfold meetAll
  induction l with
  | nil => exact (top_meet _).symm
  | cons x l ih => rw [List.cons_append, List.foldr_cons, ih, List.foldr_cons, meet_assoc]

theorem meetAll_below {l : List L} {x : L} (hx : x ∈ l) : Below (meetAll l) x := by
  unfold meetAll
  induction l with
  | nil => cases hx
  | cons y l ih =>
      rw [List.foldr_cons]
      rcases List.mem_cons.mp hx with rfl | hx
      · exact meet_below_left _ _
      · exact (meet_below_right _ _).trans (ih hx)

theorem foldl_meet (l : List L) (x : L) : l.foldl meet x = MeetLattice.meet x (meetAll l) := by
  unfold meetAll
  induction l generalizing x with
  | nil => exact (meet_top x).symm
  | cons y l ih => rw [List.foldl_cons, ih, List.foldr_cons, meet_assoc]

end Laws

theorem isTop_top {L : Type} [MeetLattice L] [LawfulMeet L] : isTop (top : L) = true :=
  (LawfulMeet.isTop_iff _).mpr rfl

theorem Below.isTop {L : Type} [MeetLattice L] [LawfulMeet L] {x y : L} (h : Below x y)
    (hx : MeetLattice.isTop x = true) : MeetLattice.isTop y = true := by
  rw [LawfulMeet.isTop_iff] at hx ⊢
  subst hx
  rw [← h, top_meet]

/-! ## 2. The longest way -/

/-- The number of blocks on the longest way to a point; none if no way leads there. -/
structure PathLength where
  steps : Option Nat
  deriving DecidableEq, Repr

namespace PathLength

instance : MeetLattice PathLength where
  top := ⟨none⟩
  meet x y := match x.steps, y.steps with
    | none, _ => y
    | some _, none => x
    | some m, some n => ⟨some (max m n)⟩
  isTop x := x.steps.isNone

instance : LawfulMeet PathLength where
  meet_self x := by
    rcases x with ⟨_ | m⟩
    · rfl
    · exact congrArg (fun n => (⟨some n⟩ : PathLength)) (Nat.max_self m)
  meet_comm x y := by
    rcases x with ⟨_ | m⟩ <;> rcases y with ⟨_ | n⟩
    · rfl
    · rfl
    · rfl
    · exact congrArg (fun n => (⟨some n⟩ : PathLength)) (Nat.max_comm m n)
  meet_assoc x y z := by
    rcases x with ⟨_ | m⟩ <;> rcases y with ⟨_ | n⟩ <;> rcases z with ⟨_ | k⟩ <;> try rfl
    exact congrArg (fun n => (⟨some n⟩ : PathLength)) (Nat.max_assoc m n k).symm
  meet_top x := by rcases x with ⟨_ | m⟩ <;> rfl
  isTop_iff x := by rcases x with ⟨_ | m⟩ <;> simp [isTop, top]

/-- One block more, up to a cap. -/
def next (cap : Nat) (x : PathLength) : PathLength := ⟨x.steps.map fun n => min (n + 1) cap⟩

/-- Counts blocks from the entry; the last boundary state belongs to no block. -/
def analysis (cap : Nat) : Analysis PathLength Unit Empty where
  boundary := [(0, ⟨some 0⟩), (0, ⟨some 1⟩), (9, ⟨some 0⟩)]
  transfer _ x s := (.ok (x.next cap), s)

/-- A graph with a loop from a block to itself and a block that no edge leads to. -/
def loopGraph : FlowGraph where
  graph :=
    { nodes := [.entry, .code ⟨none, 0, 0, 1⟩, .code ⟨none, 1, 1, 2⟩, .exit]
      edges := [⟨0, 1, .entry⟩, ⟨1, 1, .conditionalTrue⟩, ⟨1, 3, .conditionalFalse⟩, ⟨2, 3, .exit⟩] }
  handlers := []
  starts := [(0, 1), (1, 2)]

/-- The longest ways through the graph, with every block visited until nothing changes. -/
theorem solve_loopGraph : (solve loopGraph (analysis 4) 20 ()).1 =
    .ok ⟨[⟨some 1⟩, ⟨some 4⟩, ⟨none⟩, ⟨some 4⟩], [⟨some 2⟩, ⟨some 4⟩, ⟨none⟩, ⟨some 4⟩], 7⟩ := rfl

end PathLength

/-! ## 3. The equations -/

section Equations

variable {L σ ε : Type} [MeetLattice L]

/-- The transfer function never fails and depends on block and input alone. -/
def Analysis.Computes (a : Analysis L σ ε) (f : Nat → L → L) : Prop :=
  ∀ b x s, (a.transfer b x s).1 = .ok (f b x)

/-- While the observations satisfy a condition, the transfer function depends on block and input
    alone, as far as it gives a state. -/
def Analysis.Follows (a : Analysis L σ ε) (Obs : σ → Prop) (f : Nat → L → L) : Prop :=
  ∀ b x y s s', Obs s → a.transfer b x s = (.ok y, s') → y = f b x ∧ Obs s'

/-- What leaves a block that is entered in a given state. -/
def outputOf (f : Nat → L → L) (b : Nat) (x : L) : L := if isTop x then top else f b x

/-- **The dataflow equations** of an analysis with transfer function `f`. -/
structure Equations (g : FlowGraph) (a : Analysis L σ ε) (f : Nat → L → L)
    (inputs outputs : List L) : Prop where
  inputs_length : inputs.length = g.blockCount
  outputs_length : outputs.length = g.blockCount
  input : ∀ b < g.blockCount, inputs[b]? = some (meetAll (a.statesAt b ++
    (g.graph.predecessors b).map fun p => outputs[p]?.getD top))
  output : ∀ b < g.blockCount, ∀ x, inputs[b]? = some x → outputs[b]? = some (outputOf f b x)

variable {g : FlowGraph} {a : Analysis L σ ε} {f : Nat → L → L}

theorem boundaryAt_getD [LawfulMeet L] (a : Analysis L σ ε) (b : Nat) :
    (a.boundaryAt b).getD top = meetAll (a.statesAt b) := by
  rw [a.boundaryAt_eq]
  cases a.statesAt b with
  | nil => rfl
  | cons x rest => exact foldl_meet rest x

/-- The input that a visit computes is the meet of everything that flows into the block. -/
theorem inputAt_eq_meetAll [LawfulMeet L] (a : Analysis L σ ε) (g : FlowGraph) (outputs : List L)
    (b : Nat) : a.inputAt g outputs b = meetAll (a.statesAt b ++
      (g.graph.predecessors b).map fun p => outputs[p]?.getD top) := by
  unfold Analysis.inputAt
  rw [meetAll_append, ← foldl_meet, List.foldl_map, boundaryAt_getD]

omit [MeetLattice L] in
theorem Analysis.Computes.follows (ha : a.Computes f) : a.Follows (fun _ => True) f := by
  intro b x y s s' _ ht
  have h := ha b x s
  rw [ht] at h
  exact ⟨Except.ok.inj h, trivial⟩

omit [MeetLattice L] in
theorem Analysis.Follows.lasting {Obs : σ → Prop} (ha : a.Follows Obs f) :
    Lasting a Obs fun b x y _ => y = f b x where
  observe _ _ _ _ _ ho ht := (ha _ _ _ _ _ ho ht).2
  made _ _ _ _ _ ho ht := (ha _ _ _ _ _ ho ht).1
  kept _ _ _ _ _ _ _ _ _ hr _ := hr

/-- When no block waits, the equations hold as soon as a block that nothing reaches any more has
    kept the top state. -/
theorem Reachable.equations [LawfulMeet L] (ha : a.Computes f) {s : σ} {it : Iteration L σ}
    (h : Reachable g a s it) (hq : it.queue = [])
    (htop : ∀ b < g.blockCount, isTop (a.inputAt g it.outputs b) = true →
      it.inputs[b]? = some top ∧ it.outputs[b]? = some top) :
    Equations g a f it.inputs it.outputs := by
  have hb : ∀ b < g.blockCount, it.inputs[b]? = some (a.inputAt g it.outputs b) ∧
      it.outputs[b]? = some (outputOf f b (a.inputAt g it.outputs b)) := by
    intro b hb
    unfold outputOf
    rcases h.settled ha.follows.lasting trivial b hb (hq ▸ List.not_mem_nil) with ht | ⟨y, hin, hout, rfl⟩
    · obtain ⟨h₁, h₂⟩ := htop b hb ht
      rw [if_pos ht, (LawfulMeet.isTop_iff _).mp ht]
      exact ⟨h₁, h₂⟩
    · by_cases ht : isTop (a.inputAt g it.outputs b) = true
      · obtain ⟨h₁, h₂⟩ := htop b hb ht
        rw [if_pos ht, (LawfulMeet.isTop_iff _).mp ht]
        exact ⟨h₁, h₂⟩
      · rw [if_neg ht]
        exact ⟨hin, hout⟩
  refine ⟨h.length.1, h.length.2, fun b hlt => ?_, fun b hlt x hx => ?_⟩
  · rw [← inputAt_eq_meetAll]
    exact (hb b hlt).1
  · obtain ⟨hin, hout⟩ := hb b hlt
    rw [hx] at hin
    obtain rfl := Option.some.inj hin
    exact hout

end Equations

/-! ## 4. Transfer functions that keep what has reached a block -/

section Reached

variable {L σ ε : Type} [MeetLattice L] [LawfulMeet L] {g : FlowGraph} {a : Analysis L σ ε}
  {f : Nat → L → L}

theorem isTop_of_mem_predecessors {outputs : List L} {b p : Nat}
    (hp : p ∈ g.graph.predecessors b) (h : isTop (a.inputAt g outputs b) = true) :
    isTop (outputs[p]?.getD top) = true := by
  rw [inputAt_eq_meetAll] at h
  refine (meetAll_below ?_).isTop h
  exact List.mem_append_right _ (List.mem_map_of_mem hp)

/-- A block that nothing reaches has the top state on both sides.  A visit cannot change that:
    the block visited gets an output that is not top, so its successors are reached. -/
theorem Reachable.top_of_unreached (ha : a.Computes f)
    (hf : ∀ b x, x ≠ top → f b x ≠ top) {s : σ} {it : Iteration L σ} (h : Reachable g a s it) :
    ∀ b < g.blockCount, isTop (a.inputAt g it.outputs b) = true →
      it.inputs[b]? = some top ∧ it.outputs[b]? = some top := by
  induction h with
  | start queue hall =>
      intro b hb _
      have : (List.replicate g.blockCount (top : L))[b]? = some top := by
        rw [List.getElem?_replicate, if_pos hb]
      exact ⟨this, this⟩
  | @visit it it' before after block h hq hv ih =>
      intro b hb ht
      cases hv with
      | passed => exact ih b hb ht
      | confirmed output s' hin htr hout =>
          have hne : block ≠ b := by
            rintro rfl
            exact absurd (ht.symm.trans hin) (by decide)
          obtain ⟨h₁, h₂⟩ := ih b hb ht
          exact ⟨(List.getElem?_set_ne hne).trans h₁, h₂⟩
      | changed output s' hin htr hout =>
          have hne' : output ≠ top := by
            rw [(ha.follows _ _ _ _ _ trivial htr).1]
            refine hf _ _ fun e => ?_
            rw [(LawfulMeet.isTop_iff _).mpr e] at hin
            cases hin
          have heq : a.inputAt g (it.outputs.set block output) b = a.inputAt g it.outputs b := by
            by_cases hlt : block < it.outputs.length
            · refine a.inputAt_set g _ (fun hp => hne' ?_) output
              have hto := isTop_of_mem_predecessors hp ht
              rw [List.getElem?_set_self hlt] at hto
              exact (LawfulMeet.isTop_iff _).mp hto
            · rw [List.set_eq_of_length_le (Nat.le_of_not_lt hlt)]
          rw [heq] at ht
          have hne : block ≠ b := by
            rintro rfl
            exact absurd (ht.symm.trans hin) (by decide)
          obtain ⟨h₁, h₂⟩ := ih b hb ht
          exact ⟨(List.getElem?_set_ne hne).trans h₁, (List.getElem?_set_ne hne).trans h₂⟩

/-- **An answer satisfies the dataflow equations**: for every graph, every lattice with the laws
    of meet, every list of boundary states and every transfer function that does not turn a
    reached point into one that is not. -/
theorem solve_equations [DecidableEq L] (ha : a.Computes f)
    (hf : ∀ b x, x ≠ top → f b x ≠ top) {budget : Nat} {s : σ} {solution : Solution L}
    (h : (solve g a budget s).1 = .ok solution) :
    Equations g a f solution.inputs solution.outputs := by
  obtain ⟨it, hr, hq, hin, hout, _⟩ := Reachable.of_solve (Prod.ext h rfl)
  rw [← hin, ← hout]
  exact hr.equations ha hq (hr.top_of_unreached ha hf)

end Reached

/-- The longest ways through a graph with a loop satisfy their equations. -/
theorem loopGraph_equations :
    Equations PathLength.loopGraph (PathLength.analysis 4) (fun _ => PathLength.next 4)
      [⟨some 1⟩, ⟨some 4⟩, ⟨none⟩, ⟨some 4⟩] [⟨some 2⟩, ⟨some 4⟩, ⟨none⟩, ⟨some 4⟩] := by
  have hf : ∀ (b : Nat) (x : PathLength), x ≠ top → x.next 4 ≠ top := by
    intro _ x hx
    rcases x with ⟨_ | n⟩
    · exact absurd rfl hx
    · exact fun h => by cases h
  exact solve_equations (fun _ _ _ => rfl) hf PathLength.solve_loopGraph

end ReflectionFlow

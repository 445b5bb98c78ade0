/-
  File:      ReflectionFlow/Proofs/Flow/Height.lean
  Subject:   How many visits a monotone analysis needs at most.

  Every block waits once at the start.  After that a block waits only because the output of one of its
  predecessors has changed, and under a monotone transfer function an output changes only to a lower
  state.  So every visit but the first ones can be charged to an edge and to one step of a descending
  chain, and no edge pays more often than there are steps between the top state and the bottom.

  Neither the range of the states nor the test for the top state matters here, only the four laws of
  meet and the length of descending chains.

  * `DescendsTo`, `HeightAtMost` chains of strict descents from the top state
  * `Above`                      outputs that lie above what their blocks would give now
  * `Charged`                    visits and waiting blocks are paid for by descents
  * `FlowGraph.Joined.length_firstQueue_le`   no block waits twice at the start
  * `solve_within_height`
-/
import ReflectionFlow.Proofs.Flow.Budget
import ReflectionFlow.Proofs.Flow.Convergence
import ReflectionFlow.Proofs.Flow.Representation
import ReflectionFlow.Proofs.Graph.Walk

namespace ReflectionFlow

open MeetLattice

variable {L σ ε : Type} [MeetLattice L]

/-! ## 1. Meet and descents -/

/-- **So many strict descents lead from the top state to a state.** -/
inductive DescendsTo : Nat → L → Prop where
  | top : DescendsTo 0 top
  | step {n : Nat} {x y : L} (h : DescendsTo n x) (hle : Below y x) (hne : y ≠ x) :
      DescendsTo (n + 1) y

/-- No chain of strict descents from the top state has more steps. -/
def HeightAtMost (L : Type) [MeetLattice L] (h : Nat) : Prop :=
  ∀ (n : Nat) (x : L), DescendsTo n x → n ≤ h

/-- Lower outputs give lower inputs. -/
theorem Analysis.inputAt_below [MeetLaws L] (a : Analysis L σ ε) (g : FlowGraph)
    {outputs outputs' : List L}
    (h : ∀ p : Nat, Below (outputs'[p]?.getD top) (outputs[p]?.getD top)) (b : Nat) :
    Below (a.inputAt g outputs' b) (a.inputAt g outputs b) := by
  unfold Analysis.inputAt
  suffices hfold : ∀ (l : List Nat) (x' x : L), Below x' x →
      Below (l.foldl (fun x p => meet x (outputs'[p]?.getD top)) x')
        (l.foldl (fun x p => meet x (outputs[p]?.getD top)) x) from
    hfold _ _ _ (Below.refl _)
  intro l
  induction l with
  | nil => exact fun _ _ hle => hle
  | cons p l ih =>
      intro x' x hle
      refine ih _ _ (Below.meet ?_ ?_)
      · exact (meet_below_left _ _).trans hle
      · exact (meet_below_right _ _).trans (h p)

/-! ## 2. The first queue -/

/-- Every edge joins two blocks. -/
def FlowGraph.Joined (g : FlowGraph) : Prop :=
  ∀ e ∈ g.graph.edges, e.source < g.blockCount ∧ e.target < g.blockCount

/-- As it is in the graph of a body. -/
theorem FlowGraph.ofBody_joined {b : Body} {g : FlowGraph} (h : ofBody b = .ok g) : g.Joined :=
  (ofBody_inv h).2.2.bounded

theorem nodup_enqueue {queue : List Nat} (h : queue.Nodup) (blocks : List Nat) :
    (enqueue queue blocks).Nodup := by
  unfold enqueue
  refine List.foldlRecOn (motive := List.Nodup) _ _ h fun queue hq b _ => ?_
  split
  · exact hq
  · next hb =>
    have hnew : b ∉ queue := fun hm => hb (List.contains_iff_mem.mpr hm)
    exact List.nodup_append.mpr ⟨hq, List.nodup_singleton b, fun x hx y hy => by
      rw [List.mem_singleton.mp hy]
      exact fun heq => hnew (heq ▸ hx)⟩

theorem FlowGraph.Joined.successors_lt {g : FlowGraph} (hg : g.Joined) {u v : Nat}
    (hv : v ∈ g.graph.successors u) : v < g.blockCount := by
  obtain ⟨e, he, _, rfl⟩ := Digraph.mem_successors.mp hv
  exact (hg e he).2

/-- At the start only blocks wait, -/
theorem FlowGraph.Joined.firstQueue_lt {g : FlowGraph} (hg : g.Joined) :
    ∀ b ∈ firstQueue g, b < g.blockCount := by
  intro b hb
  rcases mem_enqueue.mp hb with hb | hb
  · exact Digraph.forall_mem_reversePostorder (P := (· < g.blockCount))
      (fun _ _ _ hv => hg.successors_lt hv) id b hb
  · exact List.mem_range.mp hb

/-- **and each of them once.** -/
theorem FlowGraph.Joined.length_firstQueue_le {g : FlowGraph} (hg : g.Joined) :
    (firstQueue g).length ≤ g.blockCount := by
  have hnodup : (firstQueue g).Nodup := nodup_enqueue (g.graph.nodup_reversePostorder _) _
  have hsub : firstQueue g ⊆ List.range g.blockCount := fun b hb =>
    List.mem_range.mpr (hg.firstQueue_lt b hb)
  have hle := (List.subperm_of_subset hnodup hsub).length_le
  rwa [List.length_range] at hle

/-! ## 3. One visit -/

/-- **Outputs lie above what their blocks would give now.** -/
def Above (g : FlowGraph) (a : Analysis L σ ε) (f : Nat → L → L) (outputs : List L) : Prop :=
  ∀ (b : Nat) (y : L), outputs[b]? = some y → Below (f b (a.inputAt g outputs b)) y

/-- What each block has descended, added up over the edges that leave it. -/
def descents (edges : List (Edge EdgeKind)) (depth : Nat → Nat) : Nat :=
  (edges.map fun e => depth e.source).sum

/-- **Visits and waiting blocks are paid for**: by one for each block, and by one for each edge and
    each step that the output of its source has descended. -/
def Charged (g : FlowGraph) (it : Iteration L σ) : Prop :=
  ∃ depth : Nat → Nat, (∀ (b : Nat) (y : L), it.outputs[b]? = some y → DescendsTo (depth b) y) ∧
    it.visits + it.queue.length ≤ g.blockCount + descents g.graph.edges depth

/-- One step of a block pays for one waiting block on each edge that leaves it. -/
theorem descents_update (edges : List (Edge EdgeKind)) (depth : Nat → Nat) (block : Nat) :
    descents edges (Function.update depth block (depth block + 1)) =
      descents edges depth + (edges.filter (·.source == block)).length := by
  unfold descents
  induction edges with
  | nil => rfl
  | cons e edges ih =>
      rw [List.map_cons, List.map_cons, List.sum_cons, List.sum_cons, List.filter_cons, ih]
      by_cases he : e.source = block
      · rw [if_pos (beq_iff_eq.mpr he), List.length_cons, he, Function.update_self]
        omega
      · rw [if_neg (by simpa using he), Function.update_of_ne he]
        omega

theorem descents_le {edges : List (Edge EdgeKind)} {depth : Nat → Nat} {h : Nat}
    (hdepth : ∀ e ∈ edges, depth e.source ≤ h) : descents edges depth ≤ h * edges.length := by
  unfold descents
  induction edges with
  | nil => exact Nat.zero_le _
  | cons e edges ih =>
      obtain ⟨hfirst, hrest⟩ := List.forall_mem_cons.mp hdepth
      rw [List.map_cons, List.sum_cons, List.length_cons, Nat.mul_succ]
      have := ih hrest
      omega

/-- **What is kept between visits.** -/
structure Economical (g : FlowGraph) (a : Analysis L σ ε) (f : Nat → L → L) (it : Iteration L σ) :
    Prop where
  length : it.outputs.length = g.blockCount
  blocks : ∀ b ∈ it.queue, b < g.blockCount
  above : Above g a f it.outputs
  charged : Charged g it

omit [MeetLattice L] in
theorem Analysis.Computes.succeeds {a : Analysis L σ ε} {f : Nat → L → L} (ha : a.Computes f) :
    a.Succeeds (fun _ => True) f := fun b x s _ =>
  ⟨(a.transfer b x s).2, Prod.ext (ha b x s) rfl, trivial⟩

section Visits

variable [MeetLaws L] {g : FlowGraph} {a : Analysis L σ ε} {f : Nat → L → L}
  (hg : g.Joined) (ha : a.Computes f) (hf : ∀ b x y, Below x y → Below (f b x) (f b y))

include hf in
/-- A lower output of one block leaves all outputs above what their blocks would give. -/
theorem Above.set {outputs : List L} (h : Above g a f outputs) {block : Nat}
    (hlt : block < outputs.length) :
    Above g a f (outputs.set block (f block (a.inputAt g outputs block))) := by
  have hdown : ∀ p : Nat,
      Below ((outputs.set block (f block (a.inputAt g outputs block)))[p]?.getD top)
        (outputs[p]?.getD top) := by
    intro p
    by_cases hp : block = p
    · subst hp
      rw [List.getElem?_set_self hlt, List.getElem?_eq_getElem hlt]
      exact h block _ (List.getElem?_eq_getElem hlt)
    · rw [List.getElem?_set_ne hp]
      exact Below.refl _
  intro b y hy
  have hinput := hf b _ _ (a.inputAt_below g hdown b)
  by_cases hb : block = b
  · subst hb
    rw [List.getElem?_set_self hlt] at hy
    obtain rfl := Option.some.inj hy
    exact hinput
  · rw [List.getElem?_set_ne hb] at hy
    exact hinput.trans (h b y hy)

include hg ha hf in
/-- **A visit is paid for**, whatever it does. -/
theorem Economical.visited {it it' : Iteration L σ} {block : Nat} {rest : List Nat}
    (h : Economical g a f it) (hq : it.queue = block :: rest)
    (hv : Visited g a { it with queue := rest } block it') : Economical g a f it' := by
  obtain ⟨depth, hdepth, hpaid⟩ := h.charged
  have hlen : it.queue.length = rest.length + 1 := by rw [hq, List.length_cons]
  obtain ⟨hblock, hrest⟩ := List.forall_mem_cons.mp (hq ▸ h.blocks)
  cases hv with
  | passed =>
      refine ⟨h.length, hrest, h.above, depth, hdepth, ?_⟩
      show it.visits + 1 + rest.length ≤ _
      omega
  | confirmed =>
      refine ⟨h.length, hrest, h.above, depth, hdepth, ?_⟩
      show it.visits + 1 + rest.length ≤ _
      omega
  | changed output s hin ht hout =>
      obtain rfl := (ha.follows _ _ _ _ _ trivial ht).1
      have hlt : block < it.outputs.length := h.length ▸ hblock
      have hold : it.outputs[block]? = some it.outputs[block] := List.getElem?_eq_getElem hlt
      refine ⟨by rw [List.length_set]; exact h.length, fun b hb => ?_, h.above.set hf hlt,
        Function.update depth block (depth block + 1), fun b y hy => ?_, ?_⟩
      · exact (mem_enqueue.mp hb).elim (hrest b) hg.successors_lt
      · by_cases hb : block = b
        · -- the new output is one step further down
          subst hb
          rw [List.getElem?_set_self hlt] at hy
          obtain rfl := Option.some.inj hy
          rw [Function.update_self]
          refine (hdepth block _ hold).step (h.above block _ hold) fun heq => hout ?_
          rw [heq]
          exact hold
        · rw [List.getElem?_set_ne hb] at hy
          rw [Function.update_of_ne (Ne.symm hb)]
          exact hdepth b y hy
      · have henq := length_enqueue_le rest (g.graph.successors block)
        have hsucc : (g.graph.successors block).length =
            (g.graph.edges.filter (·.source == block)).length := List.length_map _
        rw [descents_update]
        show it.visits + 1 + (enqueue rest (g.graph.successors block)).length ≤ _
        omega

/-! ## 4. Runs -/

omit [MeetLaws L] in
include hg in
/-- **No run can spend more than this.** -/
theorem Economical.visits_le {it : Iteration L σ} (h : Economical g a f it) {height : Nat}
    (hheight : HeightAtMost L height) :
    it.visits + it.queue.length ≤ g.blockCount + height * g.graph.edgeCount := by
  obtain ⟨depth, hdepth, hpaid⟩ := h.charged
  have hle : descents g.graph.edges depth ≤ height * g.graph.edges.length := by
    refine descents_le fun e he => ?_
    have hlt : e.source < it.outputs.length := h.length ▸ (hg e he).1
    exact hheight _ _ (hdepth e.source _ (List.getElem?_eq_getElem hlt))
  unfold Digraph.edgeCount
  omega

include hg in
/-- At the start every block waits once, and no output has descended. -/
theorem economical_start (a : Analysis L σ ε) (f : Nat → L → L) (observed : σ) :
    Economical g a f (Iteration.start g observed : Iteration L σ) := by
  have htop : ∀ (b : Nat) (y : L), (List.replicate g.blockCount (top : L))[b]? = some y → y = top :=
    fun b y hy => List.eq_of_mem_replicate (List.mem_of_getElem? hy)
  refine ⟨List.length_replicate, hg.firstQueue_lt, fun b y hy => ?_, fun _ => 0,
    fun b y hy => ?_, ?_⟩
  · rw [htop b y hy]
    exact Below.top _
  · rw [htop b y hy]
    exact .top
  · have hqueue : (firstQueue g).length ≤ g.blockCount := hg.length_firstQueue_le
    show 0 + (firstQueue g).length ≤ _
    omega

include hg ha hf in
theorem Economical.iterate [DecidableEq L] {height : Nat} (hheight : HeightAtMost L height)
    (budget : Nat) {fuel : Nat} {it : Iteration L σ} (h : Economical g a f it)
    (hfuel : g.blockCount + height * g.graph.edgeCount ≤ it.visits + fuel) :
    ∃ solution, (iterate g a budget fuel it).1 = .ok solution ∧
      solution.visits ≤ g.blockCount + height * g.graph.edgeCount := by
  have hle := h.visits_le hg hheight
  induction fuel generalizing it with
  | zero =>
      have hq : it.queue = [] := List.length_eq_zero_iff.mp (by omega)
      rw [iterate_idle hq]
      exact ⟨_, rfl, by show it.visits ≤ _; omega⟩
  | succ fuel ih =>
      cases hq : it.queue with
      | nil =>
          rw [iterate_idle hq]
          exact ⟨_, rfl, by show it.visits ≤ _; omega⟩
      | cons block rest =>
          obtain ⟨it', s, hvisit, _⟩ :=
            visit_succeeds (g := g) ha.succeeds { it with queue := rest } trivial block
          have h' := h.visited hg ha hf hq (Visited.of_visit hvisit)
          have hone := visits_visit hvisit
          dsimp only at hone
          rw [iterate_next hq hvisit]
          exact ih h' (by omega) (h'.visits_le hg hheight)

end Visits

/-- **A monotone analysis ends within one visit for each block, and one for each edge and each step
    that a state can descend**: for every graph, every meet with the four laws under which no chain
    of descents is longer, and every transfer function that does not fail. -/
theorem solve_within_height [MeetLaws L] [DecidableEq L] {g : FlowGraph} (hg : g.Joined)
    {a : Analysis L σ ε} {f : Nat → L → L} (ha : a.Computes f)
    (hf : ∀ b x y, Below x y → Below (f b x) (f b y)) {height : Nat}
    (hheight : HeightAtMost L height) {budget : Nat}
    (hbudget : g.blockCount + height * g.graph.edgeCount ≤ budget) (observed : σ) :
    ∃ solution, (solve g a budget observed).1 = .ok solution ∧
      solution.visits ≤ g.blockCount + height * g.graph.edgeCount := by
  refine (economical_start hg a f observed).iterate hg ha hf hheight budget ?_
  show _ ≤ 0 + budget
  omega

/-- The number of blocks on the longest way to a point, up to three; zero if no way leads there. -/
structure CappedLength where
  steps : Fin 4
  deriving DecidableEq, Repr

namespace CappedLength

instance : MeetLattice CappedLength where
  top := ⟨0⟩
  meet x y := ⟨max x.steps y.steps⟩
  isTop x := x.steps == 0

instance : MeetLaws CappedLength where
  meet_self x := congrArg mk (max_self x.steps)
  meet_comm x y := congrArg mk (max_comm x.steps y.steps)
  meet_assoc x y z := congrArg mk (max_assoc x.steps y.steps z.steps).symm
  meet_top x := congrArg mk (max_eq_left (Fin.zero_le x.steps))

theorem below_iff {x y : CappedLength} : Below x y ↔ y.steps ≤ x.steps := by
  unfold Below
  rw [show (meet x y = x) = (mk (max x.steps y.steps) = mk x.steps) from rfl, mk.injEq, max_eq_left_iff]

theorem heightAtMost : HeightAtMost CappedLength 3 := by
  have hsteps : ∀ (n : Nat) (x : CappedLength), DescendsTo n x → n ≤ x.steps.val := by
    intro n x h
    induction h with
    | top => exact Nat.le_refl 0
    | @step n x y _ hle hne ih =>
        have hlt : x.steps < y.steps :=
          lt_of_le_of_ne (below_iff.mp hle) fun heq => hne (congrArg mk heq.symm)
        exact Nat.lt_of_le_of_lt ih hlt
  intro n x h
  exact Nat.le_trans (hsteps n x h) (Nat.le_of_lt_succ x.steps.isLt)

/-- One block more. -/
def next (x : CappedLength) : CappedLength := ⟨⟨min (x.steps + 1) 3, by omega⟩⟩

/-- Counts blocks from the entry. -/
def analysis : Analysis CappedLength Unit Empty where
  boundary := [(0, ⟨1⟩)]
  transfer _ x s := (.ok x.next, s)

end CappedLength

/-- The longest ways through a body with two nested loops, for which twenty-three visits are enough. -/
theorem forked_within_height : ∃ g, FlowGraph.ofBody FlowGraph.forked = .ok g ∧ g.Joined ∧
    HeightAtMost CappedLength 3 ∧ g.blockCount + 3 * g.graph.edgeCount = 23 ∧
    ∃ solution, (solve g CappedLength.analysis 23 ()).1 = .ok solution ∧ solution.visits ≤ 23 := by
  have hgraph : FlowGraph.ofBody FlowGraph.forked = .ok FlowGraph.forkedGraph := by decide +kernel
  have hjoined := FlowGraph.ofBody_joined hgraph
  have hmono : ∀ (_ : Nat) (x y : CappedLength), Below x y → Below x.next y.next := by
    intro _ x y h
    rw [CappedLength.below_iff] at h ⊢
    have hle : y.steps.val ≤ x.steps.val := h
    show min (y.steps.val + 1) 3 ≤ min (x.steps.val + 1) 3
    omega
  exact ⟨_, hgraph, hjoined, CappedLength.heightAtMost, rfl,
    solve_within_height hjoined (fun _ _ _ => rfl) hmono CappedLength.heightAtMost (Nat.le_refl 23) ()⟩

end ReflectionFlow

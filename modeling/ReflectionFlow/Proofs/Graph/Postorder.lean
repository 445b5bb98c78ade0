/-
  File:      ReflectionFlow/Proofs/Graph/Postorder.lean
  Subject:   Reverse postorder lists what a start reaches, and sources before targets unless there is
             a way back.

  A node is open from the moment it is met until it is finished, and every open node reaches the
  node that is walked to.  So when a node is finished, a successor of it is finished already, or it
  is open and leads back.  The depth bound of a walk is never used up: each call meets a node of its
  own.

  The same order comes out of a search that keeps the open nodes on a stack, each with the number of
  edges that were followed, and that ends after one round for each node and each edge it has met.

  * `Digraph.Reaches`                        a way along edges
  * `Digraph.Walk.Settled`                   what a walk leaves behind
  * `Digraph.Search`, `search_walk`          the search with a stack, round by round
  * `Digraph.DepthFirst`, `built_depthFirst`
-/
import Mathlib.Algebra.GroupWithZero.Nat
import Mathlib.Data.Finset.Card
import Mathlib.Data.Finset.Range
import Mathlib.Logic.Function.Iterate
import Mathlib.Logic.Relation
import ReflectionFlow.Proofs.Graph.Building
import ReflectionFlow.Proofs.Graph.Walk

namespace ReflectionFlow

namespace Digraph

variable {ν ε : Type} {g : Digraph ν ε} {w w' w'' : Walk}

/-! ## 1. Ways and depths -/

/-- There is a way along edges, of any length. -/
def Reaches (g : Digraph ν ε) : Nat → Nat → Prop :=
  Relation.ReflTransGen fun u v => v ∈ g.successors u

theorem Joined.successors_lt (hg : g.Joined) {u v : Nat} (hv : v ∈ g.successors u) :
    v < g.nodeCount := by
  obtain ⟨e, he, _, rfl⟩ := mem_successors.mp hv
  exact (hg e he).2

/-- The nodes that a walk has not met. -/
def unmet (g : Digraph ν ε) (met : List Nat) : Finset Nat :=
  (Finset.range g.nodeCount).filter (· ∉ met)

theorem mem_unmet {met : List Nat} {n : Nat} : n ∈ g.unmet met ↔ n < g.nodeCount ∧ n ∉ met := by
  unfold unmet
  rw [Finset.mem_filter, Finset.mem_range]

theorem card_unmet_mono {met met' : List Nat} (h : met ⊆ met') :
    (g.unmet met').card ≤ (g.unmet met).card := by
  refine Finset.card_le_card fun n hn => ?_
  obtain ⟨hlt, hnot⟩ := mem_unmet.mp hn
  exact mem_unmet.mpr ⟨hlt, fun hm => hnot (h hm)⟩

/-- Meeting a node leaves one node less. -/
theorem card_unmet_cons {met : List Nat} {n depth : Nat} (hlt : n < g.nodeCount) (hn : n ∉ met)
    (hdepth : (g.unmet met).card ≤ depth + 1) : (g.unmet (n :: met)).card ≤ depth := by
  have hsub : g.unmet (n :: met) ⊂ g.unmet met := by
    refine Finset.ssubset_iff_subset_ne.mpr ⟨fun v hv => ?_, fun heq => ?_⟩
    · obtain ⟨hv, hnot⟩ := mem_unmet.mp hv
      exact mem_unmet.mpr ⟨hv, fun hm => hnot (List.mem_cons_of_mem n hm)⟩
    · have hmem : n ∈ g.unmet (n :: met) := heq ▸ mem_unmet.mpr ⟨hlt, hn⟩
      exact (mem_unmet.mp hmem).2 List.mem_cons_self
  have := Finset.card_lt_card hsub
  omega

/-! ## 2. What a walk leaves behind -/

/-- **Finished nodes are settled**: their successors are met, and those without a way back come
    later in the list. -/
structure Walk.Settled (g : Digraph ν ε) (w : Walk) : Prop where
  closed : ∀ u ∈ w.finished, ∀ v ∈ g.successors u, v ∈ w.met
  ordered : ∀ u ∈ w.finished, ∀ v ∈ g.successors u, ¬ g.Reaches v u → [u, v].Sublist w.finished

/-- **No node is left open that was not open before.** -/
structure Walk.Completes (w w' : Walk) : Prop where
  met : w.met ⊆ w'.met
  finished : w.finished ⊆ w'.finished
  done : ∀ v ∈ w'.met, v ∈ w.met ∨ v ∈ w'.finished

theorem Walk.Completes.refl (w : Walk) : w.Completes w :=
  ⟨List.Subset.refl _, List.Subset.refl _, fun _ hv => .inl hv⟩

theorem Walk.Completes.trans (h : w.Completes w') (h' : w'.Completes w'') : w.Completes w'' := by
  refine ⟨List.Subset.trans h.met h'.met, List.Subset.trans h.finished h'.finished, fun v hv => ?_⟩
  rcases h'.done v hv with hv | hv
  · exact (h.done v hv).imp id fun hv => h'.finished hv
  · exact .inr hv

/-- The nodes that are open now were open before. -/
theorem Walk.Completes.open_of_open (h : w.Completes w') {v : Nat} (hv : v ∈ w'.met)
    (hopen : v ∉ w'.finished) : v ∈ w.met ∧ v ∉ w.finished :=
  ⟨(h.done v hv).resolve_right hopen, fun hf => hopen (h.finished hf)⟩

/-- Walks to all new nodes of a list meet them all. -/
theorem walkEach_meets {P : Walk → Prop} {depth : Nat} {nodes : List Nat}
    (h : ∀ v ∈ nodes, ∀ w, P w → v ∉ w.met →
      P (g.walk depth v w) ∧ w.met ⊆ (g.walk depth v w).met ∧ v ∈ (g.walk depth v w).met)
    (hw : P w) : P (g.walkEach depth nodes w) ∧ w.met ⊆ (g.walkEach depth nodes w).met ∧
      ∀ v ∈ nodes, v ∈ (g.walkEach depth nodes w).met := by
  induction nodes generalizing w with
  | nil => exact ⟨hw, List.Subset.refl _, fun _ hv => absurd hv List.not_mem_nil⟩
  | cons v nodes ih =>
      have hrest := fun w hw => ih (w := w) (fun v hv => h v (List.mem_cons_of_mem _ hv)) hw
      by_cases hv : v ∈ w.met
      · have hstep : g.walkEach depth (v :: nodes) w = g.walkEach depth nodes w := by
          simp [walkEach, hv]
        obtain ⟨hP, hsub, hall⟩ := hrest w hw
        rw [hstep]
        exact ⟨hP, hsub, List.forall_mem_cons.mpr ⟨hsub hv, hall⟩⟩
      · have hstep : g.walkEach depth (v :: nodes) w = g.walkEach depth nodes (g.walk depth v w) := by
          simp [walkEach, hv]
        obtain ⟨hPv, hsubv, hmem⟩ := h v List.mem_cons_self w hw hv
        obtain ⟨hP, hsub, hall⟩ := hrest _ hPv
        rw [hstep]
        exact ⟨hP, List.Subset.trans hsubv hsub, List.forall_mem_cons.mpr ⟨hsub hmem, hall⟩⟩

/-- The walk after a node is met, and after it is finished. -/
def Walk.enter (w : Walk) (n : Nat) : Walk := { w with met := n :: w.met }

def Walk.leave (w : Walk) (n : Nat) : Walk := { w with finished := n :: w.finished }

theorem walk_succ_eq (g : Digraph ν ε) (depth n : Nat) (w : Walk) :
    g.walk (depth + 1) n w = (g.walkEach depth (g.successors n) (w.enter n)).leave n := rfl

theorem Walk.Settled.enter (h : w.Settled g) (n : Nat) : (w.enter n).Settled g :=
  ⟨fun u hu v hv => List.mem_cons_of_mem n (h.closed u hu v hv), h.ordered⟩

/-- **A node can be finished when its successors are met and the open nodes reach it**: a successor
    that is still open leads back. -/
theorem Walk.Settled.leave (h : w.Settled g) {n : Nat} (hmet : ∀ v ∈ g.successors n, v ∈ w.met)
    (hopen : ∀ v ∈ w.met, v ∉ w.finished → g.Reaches v n) : (w.leave n).Settled g := by
  refine ⟨List.forall_mem_cons.mpr ⟨hmet, h.closed⟩, List.forall_mem_cons.mpr ⟨?_, ?_⟩⟩
  · intro v hv hnot
    have hfinished : v ∈ w.finished := by
      by_contra hv'
      exact hnot (hopen v (hmet v hv) hv')
    exact List.Sublist.cons_cons n (List.singleton_sublist.mpr hfinished)
  · intro u hu v hv hnot
    exact (h.ordered u hu v hv hnot).cons n

/-- The node that was entered is finished, and all else as before. -/
theorem Walk.Completes.leave {n : Nat} (h : (w.enter n).Completes w') :
    w.Completes (w'.leave n) := by
  refine ⟨fun v hv => h.met (List.mem_cons_of_mem n hv),
    fun v hv => List.mem_cons_of_mem n (h.finished hv), fun v hv => ?_⟩
  rcases h.done v hv with hv | hv
  · rcases List.mem_cons.mp hv with rfl | hv
    · exact .inr List.mem_cons_self
    · exact .inl hv
  · exact .inr (List.mem_cons_of_mem n hv)

/-- **A walk to a new node settles all it finishes and leaves nothing open**, if there is depth for
    all nodes that are not met and every open node reaches the node. -/
theorem Walk.Settled.walk (hg : g.Joined) {depth n : Nat} (hw : w.Settled g) (hlt : n < g.nodeCount)
    (hn : n ∉ w.met) (hdepth : (g.unmet w.met).card ≤ depth)
    (hopen : ∀ v ∈ w.met, v ∉ w.finished → g.Reaches v n) :
    (g.walk depth n w).Settled g ∧ w.Completes (g.walk depth n w) ∧ n ∈ (g.walk depth n w).met := by
  induction depth generalizing n w with
  | zero =>
      have hmem : n ∈ g.unmet w.met := mem_unmet.mpr ⟨hlt, hn⟩
      rw [Finset.card_eq_zero.mp (Nat.le_zero.mp hdepth)] at hmem
      cases hmem
  | succ depth ih =>
      have hopen' : ∀ v ∈ (w.enter n).met, v ∉ (w.enter n).finished → g.Reaches v n :=
        List.forall_mem_cons.mpr ⟨fun _ => .refl, hopen⟩
      -- all successors are walked to: what is open then is the node and what was open before it
      have heach : ((g.walkEach depth (g.successors n) (w.enter n)).Settled g ∧
          (w.enter n).Completes (g.walkEach depth (g.successors n) (w.enter n))) ∧
          (w.enter n).met ⊆ (g.walkEach depth (g.successors n) (w.enter n)).met ∧
          ∀ v ∈ g.successors n, v ∈ (g.walkEach depth (g.successors n) (w.enter n)).met := by
        refine walkEach_meets (P := fun u => u.Settled g ∧ (w.enter n).Completes u) ?_
          ⟨hw.enter n, .refl _⟩
        intro v hv u hu hnew
        have hdepth' : (g.unmet u.met).card ≤ depth :=
          (card_unmet_mono hu.2.met).trans (card_unmet_cons hlt hn hdepth)
        have hreach : ∀ a ∈ u.met, a ∉ u.finished → g.Reaches a v := by
          intro a ha hnot
          obtain ⟨ha, hnot⟩ := hu.2.open_of_open ha hnot
          exact (hopen' a ha hnot).tail hv
        obtain ⟨hs, hc, hm⟩ := ih hu.1 (hg.successors_lt hv) hnew hdepth' hreach
        exact ⟨⟨hs, hu.2.trans hc⟩, hc.met, hm⟩
      rw [walk_succ_eq]
      generalize g.walkEach depth (g.successors n) (w.enter n) = inner at heach
      obtain ⟨⟨hsettled, hcompletes⟩, hsub, hall⟩ := heach
      refine ⟨hsettled.leave hall fun v hv hnot => ?_, hcompletes.leave, hsub List.mem_cons_self⟩
      obtain ⟨hv, hnot⟩ := hcompletes.open_of_open hv hnot
      exact hopen' v hv hnot

/-! ## 3. The search with a stack -/

/-- A search under way. -/
structure Search where
  met : List Nat
  /-- The open nodes, the innermost first, each with the number of its edges that were followed. -/
  stack : List (Nat × Nat)
  /-- The finished nodes, the last one first. -/
  finished : List Nat

namespace Search

/-- A search that is about to follow the first edge of a node. -/
def start (n : Nat) : Search := ⟨[n], [(n, 0)], []⟩

/-- One round: the next edge of the innermost open node is followed, or the node is finished. -/
def round (g : Digraph ν ε) (s : Search) : Search :=
  match s.stack with
  | [] => s
  | (n, k) :: rest =>
    match (g.successors n)[k]? with
    | none => { s with stack := rest, finished := n :: s.finished }
    | some v =>
      if s.met.contains v then { s with stack := (n, k + 1) :: rest }
      else { s with met := v :: s.met, stack := (v, 0) :: (n, k + 1) :: rest }

end Search

/-- One round for each node of a list and one for each edge that leaves it. -/
def roundsFor (g : Digraph ν ε) (nodes : List Nat) : Nat :=
  (nodes.map fun n => (g.successors n).length + 1).sum

namespace Search

/-- The rounds that a search has made: those of its finished nodes, and one for each edge of an open
    node that was followed. -/
def made (g : Digraph ν ε) (s : Search) : Nat := g.roundsFor s.finished + (s.stack.map Prod.snd).sum

/-- **The search comes from one state to another**, and each round counts. -/
def Comes (g : Digraph ν ε) (s s' : Search) : Prop :=
  ∃ rounds, (round g)^[rounds] s = s' ∧ s.made g + rounds = s'.made g

theorem Comes.refl (s : Search) : Comes g s s := ⟨0, rfl, rfl⟩

theorem Comes.trans {s s' s'' : Search} (h : Comes g s s') (h' : Comes g s' s'') :
    Comes g s s'' := by
  obtain ⟨r, hr, hmade⟩ := h
  obtain ⟨r', hr', hmade'⟩ := h'
  refine ⟨r' + r, ?_, by omega⟩
  rw [Function.iterate_add_apply, hr, hr']

theorem Comes.of_round {s s' : Search} (h : round g s = s') (hmade : s.made g + 1 = s'.made g) :
    Comes g s s' :=
  ⟨1, h, hmade⟩

end Search

/-- A walk with the nodes that it leaves open. -/
def Walk.onStack (w : Walk) (stack : List (Nat × Nat)) : Search := ⟨w.met, stack, w.finished⟩

section Rounds

variable {n v k : Nat} {rest : List (Nat × Nat)}

/-- An edge to a node that is met. -/
theorem Walk.comes_on (hk : (g.successors n)[k]? = some v) (hv : v ∈ w.met) :
    Search.Comes g (w.onStack ((n, k) :: rest)) (w.onStack ((n, k + 1) :: rest)) := by
  refine .of_round ?_ ?_
  · simp [Search.round, Walk.onStack, hk, hv]
  · simp [Search.made, Walk.onStack]
    omega

/-- An edge to a new node. -/
theorem Walk.comes_enter (hk : (g.successors n)[k]? = some v) (hv : v ∉ w.met) :
    Search.Comes g (w.onStack ((n, k) :: rest))
      ((w.enter v).onStack ((v, 0) :: (n, k + 1) :: rest)) := by
  refine .of_round ?_ ?_
  · simp [Search.round, Walk.onStack, Walk.enter, hk, hv]
  · simp [Search.made, Walk.onStack, Walk.enter]
    omega

/-- A node all of whose edges were followed. -/
theorem Walk.comes_leave (hk : k = (g.successors n).length) :
    Search.Comes g (w.onStack ((n, k) :: rest)) ((w.leave n).onStack rest) := by
  refine .of_round ?_ ?_
  · simp [Search.round, Walk.onStack, Walk.leave, hk]
  · simp [Search.made, Walk.onStack, Walk.leave, roundsFor, hk]
    omega

end Rounds

theorem met_subset_walk (g : Digraph ν ε) (depth n : Nat) (w : Walk) :
    w.met ⊆ (g.walk depth n w).met := by
  induction depth generalizing n w with
  | zero => exact List.Subset.refl _
  | succ depth ih =>
      rw [walk_succ_eq]
      exact walkEach_keeps (P := fun u => w.met ⊆ u.met)
        (fun v _ u hu _ => List.Subset.trans hu (ih v u)) (List.subset_cons_self n _)

/-- **The edges of an open node**, from any of them on, if the search does what walks to new nodes
    do. -/
theorem search_walkEach {depth n k : Nat} {met nodes : List Nat} {rest : List (Nat × Nat)}
    (hwalk : ∀ v ∈ g.successors n, ∀ u : Walk, met ⊆ u.met → v ∉ u.met → ∀ rest,
      Search.Comes g ((u.enter v).onStack ((v, 0) :: rest)) ((g.walk depth v u).onStack rest))
    (hnodes : (g.successors n).drop k = nodes) (hw : met ⊆ w.met) :
    Search.Comes g (w.onStack ((n, k) :: rest))
      ((g.walkEach depth nodes w).onStack ((n, k + nodes.length) :: rest)) := by
  induction nodes generalizing k w with
  | nil => exact .refl _
  | cons v nodes ih =>
      have hk : (g.successors n)[k]? = some v := by
        rw [← List.head?_drop, hnodes]
        rfl
      have hrest : (g.successors n).drop (k + 1) = nodes := by
        rw [← List.drop_drop, hnodes]
        rfl
      have hlength : k + (v :: nodes).length = k + 1 + nodes.length := by
        rw [List.length_cons]
        omega
      rw [hlength]
      by_cases hv : v ∈ w.met
      · have heach : g.walkEach depth (v :: nodes) w = g.walkEach depth nodes w := by
          simp [walkEach, hv]
        rw [heach]
        exact (Walk.comes_on hk hv).trans (ih hrest hw)
      · have heach : g.walkEach depth (v :: nodes) w =
            g.walkEach depth nodes (g.walk depth v w) := by
          simp [walkEach, hv]
        rw [heach]
        have hsub := List.Subset.trans hw (met_subset_walk g depth v w)
        exact (Walk.comes_enter hk hv).trans
          ((hwalk v (List.mem_of_getElem? hk) w hw hv _).trans (ih hrest hsub))

/-- **The search does what walks do**: from a node that was met just now it comes to the end of the
    walk to this node, with the stack as it was below the node. -/
theorem search_walk (hg : g.Joined) {depth n : Nat} (hlt : n < g.nodeCount) (hn : n ∉ w.met)
    (hdepth : (g.unmet w.met).card ≤ depth) (rest : List (Nat × Nat)) :
    Search.Comes g ((w.enter n).onStack ((n, 0) :: rest)) ((g.walk depth n w).onStack rest) := by
  induction depth generalizing n w rest with
  | zero =>
      have hmem : n ∈ g.unmet w.met := mem_unmet.mpr ⟨hlt, hn⟩
      rw [Finset.card_eq_zero.mp (Nat.le_zero.mp hdepth)] at hmem
      cases hmem
  | succ depth ih =>
      have hwalk : ∀ v ∈ g.successors n, ∀ u : Walk, (w.enter n).met ⊆ u.met → v ∉ u.met → ∀ rest,
          Search.Comes g ((u.enter v).onStack ((v, 0) :: rest)) ((g.walk depth v u).onStack rest) := by
        intro v hv u hsub hnew rest
        have hdepth' : (g.unmet u.met).card ≤ depth :=
          (card_unmet_mono hsub).trans (card_unmet_cons hlt hn hdepth)
        exact ih (hg.successors_lt hv) hnew hdepth' rest
      rw [walk_succ_eq]
      exact (search_walkEach hwalk (List.drop_zero ..) (List.Subset.refl _)).trans
        (Walk.comes_leave (Nat.zero_add _))

/-! ## 4. The order -/

section Order

variable {start : Nat}

theorem reversePostorder_eq (hlt : start < g.nodeCount) :
    g.reversePostorder start = (g.walk g.nodeCount start {}).finished := if_pos hlt

theorem card_unmet_nil (g : Digraph ν ε) : (g.unmet []).card ≤ g.nodeCount := by
  refine (Finset.card_filter_le _ _).trans ?_
  rw [Finset.card_range]

/-- **What the whole walk meets is finished and settled**: nothing was open before it. -/
theorem Joined.settled_reversePostorder (hg : g.Joined) (hlt : start < g.nodeCount) :
    Walk.Settled g ⟨g.reversePostorder start, g.reversePostorder start⟩ ∧
      start ∈ g.reversePostorder start := by
  have hempty : ({} : Walk).Settled g :=
    ⟨fun u hu => absurd hu List.not_mem_nil, fun u hu => absurd hu List.not_mem_nil⟩
  obtain ⟨hsettled, hcompletes, hstart⟩ := hempty.walk hg hlt List.not_mem_nil g.card_unmet_nil
    fun v hv => absurd hv List.not_mem_nil
  have hdone : ∀ v ∈ (g.walk g.nodeCount start {}).met,
      v ∈ (g.walk g.nodeCount start {}).finished := fun v hv =>
    (hcompletes.done v hv).resolve_left List.not_mem_nil
  rw [reversePostorder_eq hlt]
  exact ⟨⟨fun u hu v hv => hdone v (hsettled.closed u hu v hv), hsettled.ordered⟩,
    hdone start hstart⟩

theorem Joined.mem_reversePostorder (hg : g.Joined) (hlt : start < g.nodeCount) {v : Nat} :
    v ∈ g.reversePostorder start ↔ g.Reaches start v := by
  constructor
  · exact forall_mem_reversePostorder (P := g.Reaches start) (fun u hu v hv => hu.tail hv)
      (fun _ => .refl) v
  · obtain ⟨hsettled, hstart⟩ := hg.settled_reversePostorder hlt
    intro hv
    induction hv with
    | refl => exact hstart
    | tail _ hedge ih => exact hsettled.closed _ ih _ hedge

theorem head?_reversePostorder (hlt : start < g.nodeCount) :
    (g.reversePostorder start).head? = some start := by
  obtain ⟨depth, hcount⟩ := Nat.exists_eq_add_one.mpr (Nat.zero_lt_of_lt hlt)
  rw [reversePostorder_eq hlt, hcount, walk_succ_eq]
  rfl

/-- **The search ends with reverse postorder.** -/
theorem Joined.search_reversePostorder (hg : g.Joined) (hlt : start < g.nodeCount) :
    ∃ met, (Search.round g)^[g.roundsFor (g.reversePostorder start)] (Search.start start) =
      ⟨met, [], g.reversePostorder start⟩ := by
  obtain ⟨rounds, hend, hmade⟩ :=
    search_walk (w := {}) hg hlt List.not_mem_nil g.card_unmet_nil []
  have hrounds : rounds = g.roundsFor (g.reversePostorder start) := by
    simpa [Search.made, Walk.onStack, Walk.enter, roundsFor, reversePostorder_eq hlt] using hmade
  rw [← hrounds, reversePostorder_eq hlt]
  exact ⟨_, hend⟩

end Order

/-- **A depth-first order of what a start reaches.** -/
structure DepthFirst (g : Digraph ν ε) (start : Nat) (order : List Nat) : Prop where
  nodup : order.Nodup
  /-- A start that is no node reaches nothing. -/
  empty : g.nodeCount ≤ start → order = []
  mem : start < g.nodeCount → ∀ v, v ∈ order ↔ g.Reaches start v
  head : start < g.nodeCount → order.head? = some start
  /-- The source of an edge comes before the target, unless the target leads back to it. -/
  before : ∀ u ∈ order, ∀ v ∈ order, v ∈ g.successors u → ¬ g.Reaches v u → [u, v].Sublist order
  /-- The search ends with this order, after a round for each node and each edge it has met. -/
  search : start < g.nodeCount →
    ∃ met, (Search.round g)^[g.roundsFor order] (Search.start start) = ⟨met, [], order⟩

/-- **In every graph that calls build, from every start, reverse postorder is a depth-first order of
    what the start reaches.** -/
theorem built_depthFirst (calls : List (Call ν ε)) (start : Nat) :
    (built calls).DepthFirst start ((built calls).reversePostorder start) := by
  have hg := joined_built calls
  have hnil : (built calls).nodeCount ≤ start → (built calls).reversePostorder start = [] :=
    fun hle => if_neg (Nat.not_lt_of_le hle)
  constructor
  case nodup => exact nodup_reversePostorder _ start
  case empty => exact hnil
  case mem => exact fun hlt _ => hg.mem_reversePostorder hlt
  case head => exact head?_reversePostorder
  case before =>
      intro u hu v _ hedge hnot
      rcases Nat.lt_or_ge start (built calls).nodeCount with hlt | hle
      · exact (hg.settled_reversePostorder hlt).1.ordered u hu v hedge hnot
      · rw [hnil hle] at hu
        cases hu
  case search => exact hg.search_reversePostorder

/-- A cycle behind the start, with a loop in it, and a node that is not reached. -/
example : (built [.node (), .node (), .node (), .node (), .edge 0 1 (), .edge 1 2 (), .edge 2 2 (),
    .edge 2 1 (), .edge 3 1 ()]).reversePostorder 0 = [0, 1, 2] := by decide

end Digraph

end ReflectionFlow

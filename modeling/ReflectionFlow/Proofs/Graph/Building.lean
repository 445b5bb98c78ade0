/-
  File:      ReflectionFlow/Proofs/Graph/Building.lean
  Subject:   What a graph holds after any sequence of calls that build it.

  A call adds a node or asks for an edge.  Which calls for edges are accepted is a matter of the
  calls alone: both ends have to be nodes by then, and no earlier call may have asked for an edge
  between the same two nodes with success.  The graph lists the accepted edges in the order of the
  calls, forwards and backwards, and every other call for an edge leaves it as it was.

  The same calls can be answered from tables: the edges in one table and, for each node, the places
  of the edges that leave it and of those that enter it.  The tables stay in step with the graph.

  * `Digraph.Call`, `Digraph.Answer`, `Digraph.built`     calls, and the graph they build
  * `Digraph.acceptedAt?`, `Digraph.accepted`             the accepted edges, by the rule alone
  * `Digraph.Joined`                                      every edge joins two nodes
  * `Digraph.Tables`, `Digraph.Tables.Mirrors`            edges by tables of places
  * `Digraph.Records`, `Digraph.built_records`
-/
import Mathlib.Data.List.Basic
import Mathlib.Data.List.Induction
import ReflectionFlow.Graph.Digraph

namespace ReflectionFlow

/-- Do two edges lead from the same node to the same node? -/
def Edge.sameEnds {ε : Type} (e e' : Edge ε) : Bool := e.source == e'.source && e.target == e'.target

theorem Edge.sameEnds_iff {ε : Type} {e e' : Edge ε} :
    e.sameEnds e' = true ↔ e.source = e'.source ∧ e.target = e'.target := by
  simp [Edge.sameEnds]

namespace Digraph

variable {ν ε : Type}

/-! ## 1. Calls -/

/-- A call that builds a graph. -/
inductive Call (ν ε : Type) where
  | node (payload : ν)
  | edge (source target : Nat) (data : ε)
  deriving DecidableEq, Repr

/-- What a call answers. -/
inductive Answer where
  /-- The number of the new node. -/
  | node (number : Nat)
  /-- Was the edge new? -/
  | edge (isNew : Bool)
  | fault (f : GraphFault)
  deriving DecidableEq, Repr

/-- The graph after a call, and the answer; a fault leaves the graph to the caller as it was. -/
def call (g : Digraph ν ε) : Call ν ε → Digraph ν ε × Answer
  | .node payload => (g.addNode payload, .node g.nodeCount)
  | .edge source target data =>
    match g.addEdge source target data with
    | .ok (g', isNew) => (g', .edge isNew)
    | .error f => (g, .fault f)

/-- The graph that calls build. -/
def built (calls : List (Call ν ε)) : Digraph ν ε := calls.foldl (fun g c => (g.call c).1) empty

theorem built_concat (calls : List (Call ν ε)) (c : Call ν ε) :
    built (calls ++ [c]) = ((built calls).call c).1 := by
  unfold built
  rw [List.foldl_append]
  rfl

/-- **What a call for an edge does**: one end is no node, or the edge is there, or it is added. -/
theorem call_edge_cases (g : Digraph ν ε) (u v : Nat) (d : ε) :
    (g.nodeCount ≤ u ∧ g.call (.edge u v d) = (g, .fault ⟨.source, u, g.nodeCount⟩)) ∨
    (u < g.nodeCount ∧ g.nodeCount ≤ v ∧
      g.call (.edge u v d) = (g, .fault ⟨.target, v, g.nodeCount⟩)) ∨
    (u < g.nodeCount ∧ v < g.nodeCount ∧ g.hasEdge u v = true ∧
      g.call (.edge u v d) = (g, .edge false)) ∨
    (u < g.nodeCount ∧ v < g.nodeCount ∧ g.hasEdge u v = false ∧
      g.call (.edge u v d) = ({ g with edges := g.edges ++ [⟨u, v, d⟩] }, .edge true)) := by
  simp only [call, addEdge]
  by_cases hu : g.nodeCount ≤ u
  · simp [hu]
  by_cases hv : g.nodeCount ≤ v
  · simp [hu, hv]
    omega
  cases he : g.hasEdge u v <;> simp [hu, hv] <;> omega

/-! ## 2. The accepted edges -/

/-- The payload that a call adds. -/
def Call.payload? : Call ν ε → Option ν
  | .node payload => some payload
  | .edge .. => none

/-- How many nodes calls add. -/
def nodesIn (calls : List (Call ν ε)) : Nat := (calls.filterMap Call.payload?).length

/-- The edge that the call at a place asks for, if both ends are nodes by then. -/
def askedAt? (calls : List (Call ν ε)) (k : Nat) : Option (Edge ε) :=
  match calls[k]? with
  | some (.edge u v d) =>
    if u < nodesIn (calls.take k) ∧ v < nodesIn (calls.take k) then some ⟨u, v, d⟩ else none
  | _ => none

/-- The edge that is accepted at a place: no earlier call asked for an edge with the same ends. -/
def acceptedAt? (calls : List (Call ν ε)) (k : Nat) : Option (Edge ε) :=
  (askedAt? calls k).filter fun e =>
    (List.range k).all fun j => (askedAt? calls j).all fun e' => !e'.sameEnds e

/-- The accepted edges, in the order of the calls. -/
def accepted (calls : List (Call ν ε)) : List (Edge ε) :=
  (List.range calls.length).filterMap (acceptedAt? calls)

section Accepted

variable {calls : List (Call ν ε)} {c : Call ν ε} {k : Nat}

theorem askedAt?_append (hk : k < calls.length) (more : List (Call ν ε)) :
    askedAt? (calls ++ more) k = askedAt? calls k := by
  unfold askedAt?
  rw [List.getElem?_append_left hk, List.take_append_of_le_length (Nat.le_of_lt hk)]

theorem acceptedAt?_append (hk : k < calls.length) (more : List (Call ν ε)) :
    acceptedAt? (calls ++ more) k = acceptedAt? calls k := by
  unfold acceptedAt?
  rw [askedAt?_append hk]
  congr 1
  funext e
  have hall : ∀ j ∈ List.range k, askedAt? (calls ++ more) j = askedAt? calls j := fun j hj =>
    askedAt?_append (Nat.lt_trans (List.mem_range.mp hj) hk) more
  rw [Bool.eq_iff_iff, List.all_eq_true, List.all_eq_true]
  exact forall₂_congr fun j hj => by rw [hall j hj]

theorem accepted_concat (calls : List (Call ν ε)) (c : Call ν ε) :
    accepted (calls ++ [c]) =
      accepted calls ++ (acceptedAt? (calls ++ [c]) calls.length).toList := by
  have hold : (List.range calls.length).filterMap (acceptedAt? (calls ++ [c])) = accepted calls :=
    List.filterMap_congr fun k hk => acceptedAt?_append (List.mem_range.mp hk) [c]
  unfold accepted
  rw [List.length_append, List.length_singleton, List.range_succ, List.filterMap_append]
  rw [show (List.range calls.length).filterMap (acceptedAt? (calls ++ [c])) = _ from hold]
  cases h : acceptedAt? (calls ++ [c]) calls.length with
  | none => simp [h, accepted]
  | some e => simp [h, accepted]

theorem askedAt?_concat_edge (calls : List (Call ν ε)) (u v : Nat) (d : ε) :
    askedAt? (calls ++ [.edge u v d]) calls.length =
      if u < nodesIn calls ∧ v < nodesIn calls then some ⟨u, v, d⟩ else none := by
  unfold askedAt?
  rw [List.getElem?_concat_length, List.take_left]

theorem askedAt?_of_acceptedAt? {e : Edge ε} (h : acceptedAt? calls k = some e) :
    askedAt? calls k = some e :=
  (Option.filter_eq_some_iff.mp h).1

theorem lt_length_of_askedAt? {e : Edge ε} (h : askedAt? calls k = some e) : k < calls.length := by
  unfold askedAt? at h
  by_contra hk
  rw [List.getElem?_eq_none (Nat.le_of_not_lt hk)] at h
  cases h

theorem mem_accepted {e : Edge ε} : e ∈ accepted calls ↔ ∃ k, acceptedAt? calls k = some e := by
  unfold accepted
  rw [List.mem_filterMap]
  constructor
  · rintro ⟨k, _, h⟩
    exact ⟨k, h⟩
  · rintro ⟨k, h⟩
    exact ⟨k, List.mem_range.mpr (lt_length_of_askedAt? (askedAt?_of_acceptedAt? h)), h⟩

theorem acceptedAt?_eq_some_iff {e : Edge ε} : acceptedAt? calls k = some e ↔
    askedAt? calls k = some e ∧
      ∀ j < k, ∀ e', askedAt? calls j = some e' → e'.sameEnds e = false := by
  unfold acceptedAt?
  rw [Option.filter_eq_some_iff, List.all_eq_true]
  refine and_congr_right fun _ => ?_
  simp only [List.mem_range, Option.all_eq_true, Bool.not_eq_true']

/-- **Of the calls that ask for an edge between two nodes, the first is accepted.** -/
theorem exists_accepted_of_asked {e : Edge ε} (h : askedAt? calls k = some e) :
    ∃ e' ∈ accepted calls, e'.sameEnds e = true := by
  induction k using Nat.strongRecOn generalizing e with
  | _ k ih =>
      by_cases hfirst : ∀ j < k, ∀ e', askedAt? calls j = some e' → e'.sameEnds e = false
      · have hacc : acceptedAt? calls k = some e := acceptedAt?_eq_some_iff.mpr ⟨h, hfirst⟩
        exact ⟨e, mem_accepted.mpr ⟨k, hacc⟩, Edge.sameEnds_iff.mpr ⟨rfl, rfl⟩⟩
      · push Not at hfirst
        obtain ⟨j, hj, e', hask, hsame⟩ := hfirst
        obtain ⟨e'', hmem, hsame'⟩ := ih j hj hask
        have h₁ := Edge.sameEnds_iff.mp hsame'
        have h₂ := Edge.sameEnds_iff.mp (Bool.of_not_eq_false hsame)
        exact ⟨e'', hmem, Edge.sameEnds_iff.mpr ⟨h₁.1.trans h₂.1, h₁.2.trans h₂.2⟩⟩

/-- No earlier call asked for an edge exactly if no accepted edge has its ends. -/
theorem forall_asked_iff {e : Edge ε} :
    (∀ k e', askedAt? calls k = some e' → e'.sameEnds e = false) ↔
      ¬ ∃ e' ∈ accepted calls, e'.sameEnds e = true := by
  constructor
  · rintro hall ⟨e', he', hsame⟩
    obtain ⟨k, hacc⟩ := mem_accepted.mp he'
    exact Bool.eq_false_iff.mp (hall k e' (askedAt?_of_acceptedAt? hacc)) hsame
  · intro hnone k e' hask
    rw [Bool.eq_false_iff]
    intro hsame
    obtain ⟨e'', he'', hends⟩ := exists_accepted_of_asked hask
    have h₁ := Edge.sameEnds_iff.mp hends
    have h₂ := Edge.sameEnds_iff.mp hsame
    exact hnone ⟨e'', he'', Edge.sameEnds_iff.mpr ⟨h₁.1.trans h₂.1, h₁.2.trans h₂.2⟩⟩

/-- **A call for an edge is accepted if both ends are nodes and no accepted edge has these ends.** -/
theorem acceptedAt?_concat_edge (calls : List (Call ν ε)) (u v : Nat) (d : ε) (e : Edge ε) :
    acceptedAt? (calls ++ [.edge u v d]) calls.length = some e ↔
      e = ⟨u, v, d⟩ ∧ u < nodesIn calls ∧ v < nodesIn calls ∧
        ¬ ∃ e' ∈ accepted calls, e'.sameEnds e = true := by
  have hearlier : (∀ j < calls.length, ∀ e', askedAt? (calls ++ [.edge u v d]) j = some e' →
      e'.sameEnds e = false) ↔ ∀ k e', askedAt? calls k = some e' → e'.sameEnds e = false := by
    constructor
    · intro h k e' hask
      have hk := lt_length_of_askedAt? hask
      exact h k hk e' ((askedAt?_append hk _).trans hask)
    · intro h j hj e' hask
      exact h j e' ((askedAt?_append hj _).symm.trans hask)
  rw [acceptedAt?_eq_some_iff, askedAt?_concat_edge, hearlier, forall_asked_iff,
    Option.ite_none_right_eq_some, Option.some.injEq, eq_comm (a := e)]
  tauto

end Accepted

/-! ## 3. The graph holds the accepted edges -/

theorem hasEdge_iff {g : Digraph ν ε} {u v : Nat} :
    g.hasEdge u v = true ↔ ∃ e ∈ g.edges, e.source = u ∧ e.target = v := by
  simp [hasEdge]

/-- **The nodes and edges of a graph are those of the calls that built it.** -/
structure Holds (calls : List (Call ν ε)) (g : Digraph ν ε) : Prop where
  nodes : g.nodes = calls.filterMap Call.payload?
  edges : g.edges = accepted calls

section Holds

variable {calls : List (Call ν ε)} {g : Digraph ν ε}

theorem Holds.nodeCount_eq (h : Holds calls g) : g.nodeCount = nodesIn calls :=
  congrArg List.length h.nodes

theorem Holds.acceptedAt?_iff (h : Holds calls g) (u v : Nat) (d : ε) (e : Edge ε) :
    acceptedAt? (calls ++ [.edge u v d]) calls.length = some e ↔
      e = ⟨u, v, d⟩ ∧ u < g.nodeCount ∧ v < g.nodeCount ∧ g.hasEdge u v = false := by
  rw [acceptedAt?_concat_edge, ← h.nodeCount_eq, ← h.edges]
  refine and_congr_right fun he => and_congr_right fun _ => and_congr_right fun _ => ?_
  rw [← Bool.not_eq_true, hasEdge_iff, he]
  simp only [Edge.sameEnds_iff]

/-- A call that is not accepted adds nothing. -/
theorem accepted_concat_of_none {c : Call ν ε}
    (hc : ∀ e, acceptedAt? (calls ++ [c]) calls.length ≠ some e) :
    accepted (calls ++ [c]) = accepted calls := by
  rw [accepted_concat, Option.eq_none_iff_forall_ne_some.mpr hc]
  simp

/-- **One call.** -/
theorem Holds.call (h : Holds calls g) (c : Call ν ε) : Holds (calls ++ [c]) (g.call c).1 := by
  cases c with
  | node payload =>
      have hnone : ∀ e, acceptedAt? (calls ++ [.node payload]) calls.length ≠ some e := by
        simp [acceptedAt?, askedAt?]
      refine ⟨?_, h.edges.trans (accepted_concat_of_none hnone).symm⟩
      show g.nodes ++ [payload] = _
      rw [h.nodes]
      simp [Call.payload?]
  | edge u v d =>
      have hnodes : g.nodes = (calls ++ [Call.edge u v d]).filterMap Call.payload? := by
        rw [h.nodes]
        simp [Call.payload?]
      have hsame : (∀ e, acceptedAt? (calls ++ [.edge u v d]) calls.length ≠ some e) →
          Holds (calls ++ [.edge u v d]) g :=
        fun hnone => ⟨hnodes, h.edges.trans (accepted_concat_of_none hnone).symm⟩
      rcases g.call_edge_cases u v d with ⟨hu, hc⟩ | ⟨_, hv, hc⟩ | ⟨_, _, he, hc⟩ | ⟨hu, hv, he, hc⟩
      · rw [hc]
        refine hsame fun e hacc => ?_
        have := ((h.acceptedAt?_iff u v d e).mp hacc).2.1
        omega
      · rw [hc]
        refine hsame fun e hacc => ?_
        have := ((h.acceptedAt?_iff u v d e).mp hacc).2.2.1
        omega
      · rw [hc]
        refine hsame fun e hacc => ?_
        have := ((h.acceptedAt?_iff u v d e).mp hacc).2.2.2
        rw [he] at this
        cases this
      · have hacc := (h.acceptedAt?_iff u v d ⟨u, v, d⟩).mpr ⟨rfl, hu, hv, he⟩
        rw [hc]
        refine ⟨hnodes, ?_⟩
        show g.edges ++ [⟨u, v, d⟩] = _
        rw [accepted_concat, hacc, h.edges]
        rfl

end Holds

/-- What every call keeps holds of every graph that calls build. -/
theorem built_keeps {P : List (Call ν ε) → Digraph ν ε → Prop} (hempty : P [] empty)
    (hcall : ∀ calls g c, P calls g → P (calls ++ [c]) (g.call c).1) (calls : List (Call ν ε)) :
    P calls (built calls) := by
  induction calls using List.reverseRecOn with
  | nil => exact hempty
  | append_singleton calls c ih =>
      rw [built_concat]
      exact hcall calls (built calls) c ih

/-- **Every sequence of calls.** -/
theorem holds_built (calls : List (Call ν ε)) : Holds calls (built calls) :=
  built_keeps ⟨rfl, rfl⟩ (fun _ _ c h => h.call c) calls

/-- Every edge joins two nodes. -/
def Joined (g : Digraph ν ε) : Prop :=
  ∀ e ∈ g.edges, e.source < g.nodeCount ∧ e.target < g.nodeCount

theorem nodeCount_addNode (g : Digraph ν ε) (payload : ν) :
    (g.addNode payload).nodeCount = g.nodeCount + 1 := by
  simp [nodeCount, addNode]

theorem Joined.call {g : Digraph ν ε} (h : g.Joined) (c : Call ν ε) : (g.call c).1.Joined := by
  cases c with
  | node payload =>
      intro e he
      have hends := h e he
      show e.source < (g.addNode payload).nodeCount ∧ e.target < (g.addNode payload).nodeCount
      rw [nodeCount_addNode]
      omega
  | edge u v d =>
      rcases g.call_edge_cases u v d with ⟨_, hc⟩ | ⟨_, _, hc⟩ | ⟨_, _, _, hc⟩ | ⟨hu, hv, _, hc⟩
      · rw [hc]
        exact h
      · rw [hc]
        exact h
      · rw [hc]
        exact h
      · rw [hc]
        intro e he
        rcases List.mem_append.mp he with he | he
        · exact h e he
        · rw [List.mem_singleton.mp he]
          exact ⟨hu, hv⟩

theorem joined_built (calls : List (Call ν ε)) : (built calls).Joined :=
  built_keeps (P := fun _ g => g.Joined) (fun _ he => absurd he List.not_mem_nil)
    (fun _ _ c h => h.call c) calls

/-! ## 4. Edges by tables -/

/-- A graph that keeps its edges in one table and, for each node, the places of the edges that
    leave it and of those that enter it. -/
structure Tables (ν ε : Type) where
  nodes : List ν := []
  edges : List (Edge ε) := []
  leaving : List (List Nat) := []
  entering : List (List Nat) := []

namespace Tables

/-- The edges whose places stand in a row of a table. -/
def row (t : Tables ν ε) (table : List (List Nat)) (n : Nat) : List (Edge ε) :=
  (table[n]?.getD []).filterMap fun k => t.edges[k]?

/-- The nodes that a node has edges to, by its row. -/
def successors (t : Tables ν ε) (n : Nat) : List Nat := (t.row t.leaving n).map Edge.target

/-- The nodes that have edges to a node, by its row. -/
def predecessors (t : Tables ν ε) (n : Nat) : List Nat := (t.row t.entering n).map Edge.source

/-- The tables after a call, and the answer.  A new edge goes to the end of all tables; nothing
    else but the row of its source is searched. -/
def call (t : Tables ν ε) : Call ν ε → Tables ν ε × Answer
  | .node payload =>
    ({ t with
        nodes := t.nodes ++ [payload]
        leaving := t.leaving ++ [[]]
        entering := t.entering ++ [[]] }, .node t.nodes.length)
  | .edge u v d =>
    if t.nodes.length ≤ u then (t, .fault ⟨.source, u, t.nodes.length⟩)
    else if t.nodes.length ≤ v then (t, .fault ⟨.target, v, t.nodes.length⟩)
    else if (t.successors u).contains v then (t, .edge false)
    else
      ({ t with
          edges := t.edges ++ [⟨u, v, d⟩]
          leaving := t.leaving.modify u (· ++ [t.edges.length])
          entering := t.entering.modify v (· ++ [t.edges.length]) }, .edge true)

/-- The tables that calls build. -/
def built (calls : List (Call ν ε)) : Tables ν ε := calls.foldl (fun t c => (t.call c).1) {}

end Tables

/-- The places of the edges that satisfy a condition. -/
def places (p : Edge ε → Bool) (edges : List (Edge ε)) : List Nat :=
  (edges.zipIdx.filter fun e => p e.1).map Prod.snd

theorem places_concat (p : Edge ε → Bool) (edges : List (Edge ε)) (e : Edge ε) :
    places p (edges ++ [e]) = places p edges ++ if p e then [edges.length] else [] := by
  unfold places
  rw [List.zipIdx_append, List.filter_append, List.map_append]
  cases h : p e <;> simp [h]

/-- The edges at these places. -/
theorem filterMap_places (p : Edge ε → Bool) (edges : List (Edge ε)) :
    (places p edges).filterMap (fun k => edges[k]?) = edges.filter p := by
  have hget : ∀ e ∈ edges.zipIdx.filter (fun e => p e.1), edges[e.2]? = some e.1 := fun e he =>
    List.mem_zipIdx_iff_getElem?.mp (List.mem_of_mem_filter he)
  calc (places p edges).filterMap (fun k => edges[k]?)
      = (edges.zipIdx.filter fun e => p e.1).filterMap (fun e => edges[e.2]?) := List.filterMap_map
    _ = (edges.zipIdx.filter fun e => p e.1).filterMap (fun e => some e.1) :=
        List.filterMap_congr hget
    _ = (edges.zipIdx.filter (p ∘ Prod.fst)).map Prod.fst := by rw [List.filterMap_eq_map']; rfl
    _ = (edges.zipIdx.map Prod.fst).filter p := List.filter_map.symm
    _ = edges.filter p := by rw [List.zipIdx_map_fst]

namespace Tables

/-- A table of one row for each node, in which the row of a node lists the places of the edges that
    have the node at one end. -/
def Lists (table : List (List Nat)) (side : Edge ε → Nat) (g : Digraph ν ε) : Prop :=
  table = (List.range g.nodeCount).map fun n => places (fun e => side e == n) g.edges

/-- **The tables are those of a graph.** -/
structure Mirrors (t : Tables ν ε) (g : Digraph ν ε) : Prop where
  nodes : t.nodes = g.nodes
  edges : t.edges = g.edges
  leaving : Lists t.leaving Edge.source g
  entering : Lists t.entering Edge.target g

variable {t : Tables ν ε} {g : Digraph ν ε}

/-- A row of such a table gives the edges at the node, in order. -/
theorem Mirrors.row_eq (h : t.Mirrors g) {table : List (List Nat)} {side : Edge ε → Nat}
    (htable : Lists table side g) (hbound : ∀ e ∈ g.edges, side e < g.nodeCount) (n : Nat) :
    t.row table n = g.edges.filter fun e => side e == n := by
  unfold row
  rw [htable, h.edges, List.getElem?_map]
  by_cases hn : n < g.nodeCount
  · rw [List.getElem?_range hn]
    exact filterMap_places (fun e => side e == n) g.edges
  · rw [List.getElem?_eq_none (by simpa using hn)]
    refine (List.filter_eq_nil_iff.mpr fun e he => ?_).symm
    have := hbound e he
    simp only [beq_iff_eq]
    omega

theorem Mirrors.successors_eq (h : t.Mirrors g) (hg : g.Joined) (n : Nat) :
    t.successors n = g.successors n :=
  congrArg (List.map Edge.target) (h.row_eq h.leaving (fun e he => (hg e he).1) n)

theorem Mirrors.predecessors_eq (h : t.Mirrors g) (hg : g.Joined) (n : Nat) :
    t.predecessors n = g.predecessors n :=
  congrArg (List.map Edge.source) (h.row_eq h.entering (fun e he => (hg e he).2) n)

/-- A new node gets an empty row. -/
theorem Lists.addNode {table : List (List Nat)} {side : Edge ε → Nat} (h : Lists table side g)
    (hbound : ∀ e ∈ g.edges, side e < g.nodeCount) (payload : ν) :
    Lists (table ++ [[]]) side (g.addNode payload) := by
  have hempty : places (fun e => side e == g.nodeCount) g.edges = [] := by
    unfold places
    rw [List.map_eq_nil_iff, List.filter_eq_nil_iff]
    intro e he
    have := hbound e.1 (List.fst_mem_of_mem_zipIdx he)
    simp only [beq_iff_eq]
    omega
  unfold Lists
  rw [nodeCount_addNode, List.range_succ, List.map_append, List.map_singleton]
  show table ++ [[]] = _ ++ [places (fun e => side e == g.nodeCount) g.edges]
  rw [hempty, h]
  rfl

/-- A new edge goes to the end of one row. -/
theorem Lists.addEdge {table : List (List Nat)} {side : Edge ε → Nat} (h : Lists table side g)
    (e : Edge ε) :
    Lists (table.modify (side e) (· ++ [g.edges.length])) side { g with edges := g.edges ++ [e] } := by
  show _ = (List.range g.nodeCount).map fun n => places (fun e => side e == n) (g.edges ++ [e])
  refine List.ext_getElem? fun n => ?_
  rw [List.getElem?_modify, h, List.getElem?_map, List.getElem?_map]
  by_cases hn : n < g.nodeCount
  · rw [List.getElem?_range hn]
    simp only [Option.map_some, places_concat]
    by_cases he : side e = n <;> simp [he]
  · rw [List.getElem?_eq_none (by simpa using hn)]
    rfl

/-- **One call**: the tables answer it as the graph does, and stay in step with it. -/
theorem Mirrors.call (h : t.Mirrors g) (hg : g.Joined) (c : Call ν ε) :
    (t.call c).2 = (g.call c).2 ∧ (t.call c).1.Mirrors (g.call c).1 := by
  have hcount : t.nodes.length = g.nodeCount := congrArg List.length h.nodes
  cases c with
  | node payload =>
      exact ⟨congrArg Answer.node hcount, congrArg (· ++ [payload]) h.nodes, h.edges,
        h.leaving.addNode (fun e he => (hg e he).1) payload,
        h.entering.addNode (fun e he => (hg e he).2) payload⟩
  | edge u v d =>
      have hknown : (t.successors u).contains v = g.hasEdge u v := by
        rw [h.successors_eq hg, Bool.eq_iff_iff, List.contains_iff_mem, mem_successors, hasEdge_iff]
      rcases g.call_edge_cases u v d with ⟨hu, hc⟩ | ⟨hu, hv, hc⟩ | ⟨hu, hv, he, hc⟩ | ⟨hu, hv, he, hc⟩
      · rw [hc]
        simp only [Tables.call, hcount, hu, if_true]
        exact ⟨trivial, h⟩
      · rw [hc]
        simp only [Tables.call, hcount, Nat.not_le_of_lt hu, hv, if_true, if_false]
        exact ⟨trivial, h⟩
      · rw [hc]
        simp only [Tables.call, hcount, hknown, he, Nat.not_le_of_lt hu, Nat.not_le_of_lt hv, if_true,
          if_false]
        exact ⟨trivial, h⟩
      · rw [hc]
        simp only [Tables.call, hcount, hknown, he, Nat.not_le_of_lt hu, Nat.not_le_of_lt hv, if_false,
          Bool.false_eq_true]
        refine ⟨trivial, h.nodes, congrArg (· ++ [⟨u, v, d⟩]) h.edges, ?_, ?_⟩
        · rw [h.edges]
          exact h.leaving.addEdge ⟨u, v, d⟩
        · rw [h.edges]
          exact h.entering.addEdge ⟨u, v, d⟩

/-- **Every sequence of calls.** -/
theorem mirrors_built (calls : List (Call ν ε)) :
    (Tables.built calls).Mirrors (Digraph.built calls) := by
  induction calls using List.reverseRecOn with
  | nil => exact ⟨rfl, rfl, rfl, rfl⟩
  | append_singleton calls c ih =>
      have hstep : Tables.built (calls ++ [c]) = ((Tables.built calls).call c).1 := by
        unfold Tables.built
        rw [List.foldl_append]
        rfl
      rw [hstep, built_concat]
      exact (ih.call (joined_built calls) c).2

end Tables

/-! ## 5. What a graph records -/

/-- No two accepted edges have the same ends. -/
theorem pairwise_accepted (calls : List (Call ν ε)) :
    (accepted calls).Pairwise fun e e' => e.sameEnds e' = false := by
  unfold accepted
  rw [List.pairwise_filterMap]
  refine List.pairwise_lt_range.imp fun {j k} hjk e he e' he' => ?_
  exact (acceptedAt?_eq_some_iff.mp he').2 j hjk e (askedAt?_of_acceptedAt? he)

/-- Edges with one end in common differ at the other. -/
theorem nodup_accepted_ends {calls : List (Call ν ε)} {here there : Edge ε → Nat}
    (hends : ∀ e e' : Edge ε, e.sameEnds e' = false → here e = here e' → there e ≠ there e')
    (n : Nat) : (((accepted calls).filter fun e => here e == n).map there).Nodup := by
  rw [List.Nodup, List.pairwise_map, List.pairwise_filter]
  refine (pairwise_accepted calls).imp fun {e e'} hdiff hn hn' => hends e e' hdiff ?_
  rw [beq_iff_eq] at hn hn'
  exact hn.trans hn'.symm

/-- **What a graph records of the calls that built it**, and what it answers to the next one. -/
structure Records (calls : List (Call ν ε)) (g : Digraph ν ε) : Prop where
  nodes : g.nodes = calls.filterMap Call.payload?
  edges : g.edges = accepted calls
  /-- Both directions list the accepted edges in the order of the calls, -/
  successors : ∀ u, g.successors u =
    ((accepted calls).filter fun e => e.source == u).map Edge.target
  predecessors : ∀ v, g.predecessors v =
    ((accepted calls).filter fun e => e.target == v).map Edge.source
  /-- without repetition, -/
  nodup_successors : ∀ u, (g.successors u).Nodup
  nodup_predecessors : ∀ v, (g.predecessors v).Nodup
  /-- and they agree with each other. -/
  converse : ∀ u v, v ∈ g.successors u ↔ u ∈ g.predecessors v
  /-- An edge carries the payload of the first call that asked for it. -/
  payload : ∀ u, ∀ e ∈ g.outgoing u, ∃ k, askedAt? calls k = some e ∧
    ∀ j < k, ∀ e', askedAt? calls j = some e' → e'.sameEnds e = false
  /-- Edges are accepted as the rule says, and a fault names the first end that is no node. -/
  answer : ∀ u v d, (g.call (.edge u v d)).2 =
    if nodesIn calls ≤ u then .fault ⟨.source, u, nodesIn calls⟩
    else if nodesIn calls ≤ v then .fault ⟨.target, v, nodesIn calls⟩
    else .edge (acceptedAt? (calls ++ [.edge u v d]) calls.length).isSome
  /-- An edge that is not accepted leaves the whole graph as it was. -/
  unchanged : ∀ u v d, (g.call (.edge u v d)).2 ≠ .edge true → (g.call (.edge u v d)).1 = g
  /-- Tables that are built by the same calls list the same nodes and give the same answers. -/
  tables : ∀ n, (Tables.built calls).successors n = g.successors n ∧
    (Tables.built calls).predecessors n = g.predecessors n
  tableAnswers : ∀ c, ((Tables.built calls).call c).2 = (g.call c).2

theorem Holds.answer_eq {calls : List (Call ν ε)} {g : Digraph ν ε} (h : Holds calls g) (u v : Nat)
    (d : ε) : (g.call (.edge u v d)).2 =
      if nodesIn calls ≤ u then .fault ⟨.source, u, nodesIn calls⟩
      else if nodesIn calls ≤ v then .fault ⟨.target, v, nodesIn calls⟩
      else .edge (acceptedAt? (calls ++ [.edge u v d]) calls.length).isSome := by
  have hiff := h.acceptedAt?_iff u v d
  rw [← h.nodeCount_eq]
  rcases g.call_edge_cases u v d with ⟨hu, hc⟩ | ⟨hu, hv, hc⟩ | ⟨hu, hv, he, hc⟩ | ⟨hu, hv, he, hc⟩
  · rw [hc, if_pos hu]
  · rw [hc, if_neg (Nat.not_le_of_lt hu), if_pos hv]
  · have hnone : acceptedAt? (calls ++ [.edge u v d]) calls.length = none := by
      refine Option.eq_none_iff_forall_ne_some.mpr fun e hacc => ?_
      have := ((hiff e).mp hacc).2.2.2
      rw [he] at this
      cases this
    rw [hc, if_neg (Nat.not_le_of_lt hu), if_neg (Nat.not_le_of_lt hv), hnone]
    rfl
  · rw [hc, if_neg (Nat.not_le_of_lt hu), if_neg (Nat.not_le_of_lt hv),
      (hiff ⟨u, v, d⟩).mpr ⟨rfl, hu, hv, he⟩]
    rfl

/-- **After every sequence of calls the graph records them.** -/
theorem built_records (calls : List (Call ν ε)) : Records calls (built calls) := by
  have h := holds_built calls
  have hg := joined_built calls
  have ht := Tables.mirrors_built calls
  have hsucc : ∀ u, (built calls).successors u =
      ((accepted calls).filter fun e => e.source == u).map Edge.target := by
    intro u
    unfold successors outgoing
    rw [h.edges]
  have hpred : ∀ v, (built calls).predecessors v =
      ((accepted calls).filter fun e => e.target == v).map Edge.source := by
    intro v
    unfold predecessors
    rw [h.edges]
  constructor
  case nodes => exact h.nodes
  case edges => exact h.edges
  case successors => exact hsucc
  case predecessors => exact hpred
  case nodup_successors =>
      intro u
      rw [hsucc]
      refine nodup_accepted_ends (fun e e' hdiff hs ht => ?_) u
      exact Bool.eq_false_iff.mp hdiff (Edge.sameEnds_iff.mpr ⟨hs, ht⟩)
  case nodup_predecessors =>
      intro v
      rw [hpred]
      refine nodup_accepted_ends (fun e e' hdiff ht hs => ?_) v
      exact Bool.eq_false_iff.mp hdiff (Edge.sameEnds_iff.mpr ⟨hs, ht⟩)
  case converse =>
      intro u v
      rw [mem_successors, mem_predecessors]
      exact exists_congr fun e => and_congr_right fun _ => and_comm
  case payload =>
      intro u e he
      have hmem : e ∈ accepted calls := h.edges ▸ List.mem_of_mem_filter he
      obtain ⟨k, hk⟩ := mem_accepted.mp hmem
      exact ⟨k, acceptedAt?_eq_some_iff.mp hk⟩
  case answer => exact h.answer_eq
  case unchanged =>
      intro u v d hnot
      rcases (built calls).call_edge_cases u v d with ⟨_, hc⟩ | ⟨_, _, hc⟩ | ⟨_, _, _, hc⟩ | ⟨_, _, _, hc⟩
      · rw [hc]
      · rw [hc]
      · rw [hc]
      · exact absurd (congrArg Prod.snd hc) hnot
  case tables => exact fun n => ⟨ht.successors_eq hg n, ht.predecessors_eq hg n⟩
  case tableAnswers => exact fun c => (ht.call hg c).1

/-- An edge that comes too early, one that comes twice, and a loop. -/
example : accepted [.node (), .edge 0 1 "early", .node (), .edge 0 1 "first", .edge 0 1 "second",
    .edge 1 1 "loop"] = [⟨0, 1, "first"⟩, ⟨1, 1, "loop"⟩] := by decide

end Digraph

end ReflectionFlow

/-
  File:      ReflectionFlow/Proofs/Graph/Walk.lean
  Subject:   A depth-first walk finishes no node twice.

  A walk is bounded by a depth, and at the bound it stops where it is.  What is shown here does not
  depend on the bound: a node is met before its successors are looked at, and only nodes that were
  not met are walked to.

  * `Digraph.Walk.Sound`         finished nodes are met, and each is finished once
  * `Digraph.Walk.Grows`         what a walk adds is new
  * `Digraph.nodup_reversePostorder`, `Digraph.forall_mem_reversePostorder`
-/
import Mathlib.Data.List.Basic
import ReflectionFlow.Graph.Digraph

namespace ReflectionFlow

namespace Digraph

variable {ν ε : Type} {g : Digraph ν ε} {w w' w'' : Walk}

/-! ## 1. What a walk keeps -/

/-- **Finished nodes are met, and each is finished once.** -/
structure Walk.Sound (w : Walk) : Prop where
  nodup : w.finished.Nodup
  met : w.finished ⊆ w.met

/-- **What a walk adds is new**: nodes stay met, and a node that is finished later was not met
    before. -/
structure Walk.Grows (w w' : Walk) : Prop where
  met : w.met ⊆ w'.met
  fresh : ∀ v ∈ w'.finished, v ∈ w.finished ∨ v ∉ w.met

theorem Walk.Grows.refl (w : Walk) : w.Grows w := ⟨List.Subset.refl _, fun _ hv => .inl hv⟩

theorem Walk.Grows.trans (h : w.Grows w') (h' : w'.Grows w'') : w.Grows w'' := by
  refine ⟨List.Subset.trans h.met h'.met, fun v hv => ?_⟩
  rcases h'.fresh v hv with hv | hv
  · exact h.fresh v hv
  · exact .inr fun hm => hv (h.met hm)

/-- Walks to the nodes of a list that are not met. -/
def walkEach (g : Digraph ν ε) (depth : Nat) (nodes : List Nat) (w : Walk) : Walk :=
  nodes.foldl (fun w v => if w.met.contains v then w else g.walk depth v w) w

theorem walk_succ (g : Digraph ν ε) (depth n : Nat) (w : Walk) : g.walk (depth + 1) n w =
    let inner := g.walkEach depth (g.successors n) { w with met := n :: w.met }
    { inner with finished := n :: inner.finished } := rfl

/-- What walks to new nodes keep, walks to all new nodes of a list keep. -/
theorem walkEach_keeps {P : Walk → Prop} {depth : Nat} {nodes : List Nat}
    (h : ∀ v ∈ nodes, ∀ w, P w → v ∉ w.met → P (g.walk depth v w)) (hw : P w) :
    P (g.walkEach depth nodes w) := by
  unfold walkEach
  refine List.foldlRecOn (motive := P) _ _ hw fun w hw v hv => ?_
  split
  · exact hw
  · next hmet => exact h v hv w hw fun hm => hmet (List.contains_iff_mem.mpr hm)

/-! ## 2. Each node once -/

theorem Walk.Sound.walk {depth n : Nat} (hw : w.Sound) (hn : n ∉ w.met) :
    (g.walk depth n w).Sound ∧ w.Grows (g.walk depth n w) := by
  induction depth generalizing n w with
  | zero => exact ⟨hw, .refl w⟩
  | succ depth ih =>
      have hstart : ({ w with met := n :: w.met } : Walk).Sound :=
        ⟨hw.nodup, List.Subset.trans hw.met (List.subset_cons_self n _)⟩
      have hinner : (g.walkEach depth (g.successors n) { w with met := n :: w.met }).Sound ∧
          Walk.Grows { w with met := n :: w.met }
            (g.walkEach depth (g.successors n) { w with met := n :: w.met }) := by
        refine walkEach_keeps (P := fun u => u.Sound ∧ Walk.Grows { w with met := n :: w.met } u)
          (fun v _ u hu hv => ?_) ⟨hstart, .refl _⟩
        obtain ⟨hsound, hgrows⟩ := ih hu.1 hv
        exact ⟨hsound, hu.2.trans hgrows⟩
      rw [walk_succ]
      generalize g.walkEach depth (g.successors n) { w with met := n :: w.met } = inner at hinner
      obtain ⟨hsound, hgrows⟩ := hinner
      have hnew : n ∉ inner.finished := by
        intro hmem
        rcases hgrows.fresh n hmem with hold | hunmet
        · exact hn (hw.met hold)
        · exact hunmet List.mem_cons_self
      refine ⟨⟨List.nodup_cons.mpr ⟨hnew, hsound.nodup⟩, ?_⟩, ?_, fun v hv => ?_⟩
      · exact List.cons_subset.mpr ⟨hgrows.met List.mem_cons_self, hsound.met⟩
      · exact fun v hv => hgrows.met (List.mem_cons_of_mem n hv)
      · rcases List.mem_cons.mp hv with rfl | hv
        · exact .inr hn
        · exact (hgrows.fresh v hv).imp id fun hunmet hm => hunmet (List.mem_cons_of_mem n hm)

/-- **Reverse postorder lists no node twice.** -/
theorem nodup_reversePostorder (g : Digraph ν ε) (start : Nat) :
    (g.reversePostorder start).Nodup := by
  unfold reversePostorder
  split
  · have hempty : ({} : Walk).Sound := ⟨List.nodup_nil, List.nil_subset _⟩
    exact (hempty.walk List.not_mem_nil).1.nodup
  · exact List.nodup_nil

/-! ## 3. Only nodes along edges -/

theorem forall_mem_walk {P : Nat → Prop} (hedge : ∀ u, P u → ∀ v ∈ g.successors u, P v)
    {depth n : Nat} (hn : P n) (hw : ∀ v ∈ w.finished, P v) :
    ∀ v ∈ (g.walk depth n w).finished, P v := by
  induction depth generalizing n w with
  | zero => exact hw
  | succ depth ih =>
      have hinner : ∀ v ∈ (g.walkEach depth (g.successors n) { w with met := n :: w.met }).finished,
          P v :=
        walkEach_keeps (P := fun u => ∀ v ∈ u.finished, P v)
          (fun v hv u hu _ => ih (hedge n hn v hv) hu) hw
      exact List.forall_mem_cons.mpr ⟨hn, hinner⟩

/-- **Reverse postorder lists only what edges lead to**: whatever holds of the start and is handed on
    along edges. -/
theorem forall_mem_reversePostorder {P : Nat → Prop}
    (hedge : ∀ u, P u → ∀ v ∈ g.successors u, P v) {start : Nat}
    (hstart : start < g.nodeCount → P start) : ∀ v ∈ g.reversePostorder start, P v := by
  unfold reversePostorder
  split
  · next hlt => exact forall_mem_walk hedge (hstart hlt) fun _ hv => absurd hv List.not_mem_nil
  · exact fun _ hv => absurd hv List.not_mem_nil

end Digraph

end ReflectionFlow

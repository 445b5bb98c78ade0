/-
  File:      ReflectionFlow/Proofs/State/Finite.lean
  Subject:   Over finitely many values there are finitely many states of bounded depth.

  Canonical sets are determined by their members, tidy maps by what they read, and there are
  finitely many names of variables.

  * `SetOf.finite_within`, `Variables.finite_over`, `Stack.finite_slots`, `State.finite_over`
-/
import Mathlib.Data.FinEnum
import Mathlib.Data.Fintype.Pi
import Mathlib.Data.Set.Finite.List
import Mathlib.Data.Set.Finite.Powerset
import ReflectionFlow.Proofs.State.Order

namespace ReflectionFlow

theorem SetOf.finite_within {U : Value → Prop} (hU : {v | U v}.Finite) :
    {s : ValueSet | s.Within U}.Finite := by
  refine Set.Finite.of_injOn (f := fun s : ValueSet => {v | v ∈ s.members}) (t := {S | S ⊆ {v | U v}})
    (fun s hs v hv => hs.members v hv) ?_ hU.finite_subsets
  rintro ⟨l⟩ hl ⟨r⟩ hr h
  exact congrArg SetOf.mk (ascending_ext hl.ascending hr.ascending fun v => Set.ext_iff.mp h v)

instance : Finite VarKey := by
  refine Finite.of_injective (β := UInt16 ⊕ UInt16) (fun
    | .arg n => .inl n
    | .loc n => .inr n) ?_
  rintro (m | m) (n | n) h
  · exact congrArg VarKey.arg (Sum.inl.inj h)
  · cases h
  · cases h
  · exact congrArg VarKey.loc (Sum.inr.inj h)

variable {Q : ValueSet → Prop}

theorem Variables.finite_over (hQ : {s | Q s}.Finite) : {m : Variables | m.Over Q}.Finite := by
  refine Set.Finite.of_injOn (f := fun m : Variables => (m.default, m.get))
    (t := {s | Q s} ×ˢ {f : VarKey → ValueSet | ∀ k, f k ∈ {s | Q s}}) (fun m hm => ⟨hm.default, hm.get⟩) ?_
    (hQ.prod (Set.Finite.pi' fun _ => hQ))
  intro m hm n hn h
  obtain ⟨hd, hg⟩ := Prod.mk.inj h
  exact Variables.Over.ext hm hn hd (congrFun hg)

theorem Stack.finite_slots (hQ : {s | Q s}.Finite) (n : Nat) :
    {k : Stack | k.depth ≤ n ∧ ∀ v ∈ k.fromTop, Q v}.Finite := by
  have : Finite {s // Q s} := hQ.to_subtype
  have hlists := (List.finite_length_le {s // Q s} n).image fun l => slots (l.map Subtype.val)
  refine (hlists.insert .top).subset fun k hk => ?_
  cases k with
  | top => exact Set.mem_insert _ _
  | slots l =>
      obtain ⟨hlen, hl⟩ := hk
      refine Set.mem_insert_of_mem _ ⟨l.attachWith Q hl, ?_, ?_⟩
      · exact Nat.le_trans (Nat.le_of_eq List.length_attachWith) hlen
      · exact congrArg slots (List.attachWith_map_subtype_val hl)

/-- **Over finitely many values there are finitely many states of bounded depth.** -/
theorem State.finite_over {U : Value → Prop} (hU : {v | U v}.Finite) (n : Nat) :
    {s : State | s.Over (SetOf.Within U) ∧ s.stack.depth ≤ n}.Finite := by
  have hsets := SetOf.finite_within hU
  refine Set.Finite.of_injOn (f := fun s : State => (s.vars, s.stack)) (fun s hs => ?_) ?_
    ((Variables.finite_over hsets).prod (Stack.finite_slots hsets n))
  · exact ⟨hs.1.vars, hs.2, hs.1.slots⟩
  · rintro ⟨v, k⟩ _ ⟨w, l⟩ _ h
    obtain ⟨rfl, rfl⟩ := Prod.mk.inj h
    rfl

end ReflectionFlow

/-
  File:      ReflectionFlow/Proofs/Value/Union.lean
  Subject:   The sets that operations build, and the laws of their union.

  Operations on sets take many short cuts: a set that is unknown takes nothing in, an empty side
  is skipped, an image that is unknown ends the computation.  None of them shows.  Every set that
  operations build is in canonical form, whatever functions are mapped over it, and a canonical
  set is determined by what it admits; so union is the union of what is admitted, and a list or an
  image is as good in one order as in another.

  * `SetOf.Built`             what operations build, one set from another
  * `SetOf.Built.canonical`   every such set is in canonical form
  * `SetOf.Canonical.merge_comm`, `SetOf.Canonical.merge_assoc`, `SetOf.Canonical.merge_unknown`
  * `SetOf.mem_merge_iff`     the members of a union of which neither side is unknown
  * `SetOf.ofList_congr`, `SetOf.flatMap_eq_foldl`   order and repetition do not matter
  * `SetOf.built_laws`        all laws together
-/
import ReflectionFlow.Proofs.Value.Sets

namespace ReflectionFlow

namespace SetOf

variable {s t u : ValueSet} {w : Value}

/-! ## 1. Sets that are built -/

/-- **What operations build, one set from another.**  The functions of members are arbitrary; a
    function into sets has to give sets that are built themselves. -/
inductive Built : ValueSet → Prop where
  | empty : Built empty
  | single (v : Value) : Built (single v)
  | unknown : Built unknown
  | insert {s : ValueSet} (hs : Built s) (v : Value) : Built (s.insert v)
  | merge {s t : ValueSet} (hs : Built s) (ht : Built t) : Built (s.merge t)
  | map {s : ValueSet} (hs : Built s) (f : Value → Value) : Built (s.map f)
  | flatMap {s : ValueSet} (hs : Built s) (f : Value → ValueSet)
      (hf : ∀ v ∈ s.members, Built (f v)) : Built (s.flatMap f)
  | ofList (l : List Value) : Built (ofList l)

/-- **Every set that operations build is in canonical form.** -/
theorem Built.canonical (hs : s.Built) : s.Canonical := by
  induction hs with
  | empty => exact canonical_empty
  | single v => exact canonical_single v
  | unknown => exact canonical_unknown
  | insert _ v ih => exact ih.insert v
  | merge _ _ ihs iht => exact ihs.merge iht
  | map _ f _ => exact canonical_ofList _
  | flatMap _ f _ _ ihf => exact canonical_flatMap ihf
  | ofList l => exact canonical_ofList l

/-! ## 2. Union -/

theorem Canonical.merge_comm (hs : s.Canonical) (ht : t.Canonical) : s.merge t = t.merge s := by
  refine (hs.merge ht).ext (ht.merge hs) fun v => ?_
  rw [admits_merge, admits_merge, or_comm]

theorem Canonical.merge_assoc (hs : s.Canonical) (ht : t.Canonical) (hu : u.Canonical) :
    s.merge (t.merge u) = (s.merge t).merge u := by
  refine (hs.merge (ht.merge hu)).ext ((hs.merge ht).merge hu) fun v => ?_
  rw [admits_merge, admits_merge, admits_merge, admits_merge, or_assoc]

theorem unknown_merge (s : ValueSet) : unknown.merge s = unknown := rfl

theorem Canonical.merge_unknown (hs : s.Canonical) : s.merge unknown = unknown := by
  rw [hs.merge_comm canonical_unknown]
  exact unknown_merge s

theorem mem_merge_of_known (hs : Value.unknown ∉ s.members) (ht : Value.unknown ∉ t.members)
    (hw : w ∈ s.members ∨ w ∈ t.members) : w ∈ (s.merge t).members := by
  rcases admits_merge.mpr (hw.imp .inr .inr) with hu | hmem
  · exact absurd (isUnknown_iff.mp hu) fun h => (mem_of_mem_merge h).elim hs ht
  · exact hmem

/-- **A union of which neither side is unknown has the members of both sides**, and no other. -/
theorem mem_merge_iff (hs : Value.unknown ∉ s.members) (ht : Value.unknown ∉ t.members) :
    w ∈ (s.merge t).members ↔ w ∈ s.members ∨ w ∈ t.members :=
  ⟨mem_of_mem_merge, mem_merge_of_known hs ht⟩

/-! ## 3. Lists and images -/

/-- A list without the unknown value makes a set of its values. -/
theorem mem_ofList {l : List Value} (hl : Value.unknown ∉ l) :
    w ∈ (ofList l).members ↔ w ∈ l := by
  refine ⟨fun h => (mem_of_mem_foldl_insert h).resolve_left List.not_mem_nil, fun h => ?_⟩
  rcases admits_ofList.mpr ⟨w, h, .inr rfl⟩ with hu | hw
  · exact absurd ((mem_of_mem_foldl_insert (isUnknown_iff.mp hu)).resolve_left List.not_mem_nil) hl
  · exact hw

theorem isUnknown_ofList_eq_false {l : List Value} (hl : Value.unknown ∉ l) :
    (ofList l).isUnknown = false := by
  rw [← Bool.not_eq_true, isUnknown_iff, mem_ofList hl]
  exact hl

/-- **Lists with the same members make the same set.** -/
theorem ofList_congr {l r : List Value} (h : ∀ v, v ∈ l ↔ v ∈ r) : ofList l = ofList r := by
  refine (canonical_ofList l).ext (canonical_ofList r) fun v => ?_
  rw [admits_ofList, admits_ofList]
  simp only [h]

/-- **An image is the union of the images of the members**, taken in any order and without a
    stop at an unknown one. -/
theorem flatMap_eq_foldl {f : Value → ValueSet} (hf : ∀ v ∈ s.members, (f v).Canonical)
    {order : List Value} (horder : ∀ v, v ∈ order ↔ v ∈ s.members) :
    s.flatMap f = (order.map f).foldl merge empty := by
  have himages : ∀ t ∈ order.map f, t.Canonical := by
    intro t ht
    obtain ⟨v, hv, rfl⟩ := List.mem_map.mp ht
    exact hf v ((horder v).mp hv)
  refine (canonical_flatMap hf).ext (canonical_empty.foldl_merge himages) fun w => ?_
  rw [admits_flatMap, admits_foldl_merge]
  simp only [not_admits_empty, false_or, List.mem_map, exists_exists_and_eq_and, horder]

/-! ## 4. The laws -/

/-- **The laws of the sets that operations build.**  The unknown value stands alone.  Union is
    commutative, associative and idempotent; the empty set is neutral, the unknown set absorbs, and
    otherwise the members of a union are those of both sides.  The set of a list depends on the
    members of the list alone, and an image is the union of the images in any order. -/
theorem built_laws (hs : s.Built) (ht : t.Built) (hu : u.Built) :
    (Value.unknown ∈ s.members → s = unknown) ∧
      s.merge t = t.merge s ∧ s.merge (t.merge u) = (s.merge t).merge u ∧ s.merge s = s ∧
      s.merge empty = s ∧ empty.merge s = s ∧
      s.merge unknown = unknown ∧ unknown.merge s = unknown ∧
      (Value.unknown ∉ s.members → Value.unknown ∉ t.members →
        ∀ v, v ∈ (s.merge t).members ↔ v ∈ s.members ∨ v ∈ t.members) ∧
      (∀ l r : List Value, (∀ v, v ∈ l ↔ v ∈ r) → ofList l = ofList r) ∧
      ∀ f : Value → ValueSet, (∀ v ∈ s.members, (f v).Built) →
        ∀ order : List Value, (∀ v, v ∈ order ↔ v ∈ s.members) →
          s.flatMap f = (order.map f).foldl merge empty := by
  have hs' : s.Canonical := hs.canonical
  refine ⟨fun h => hs'.absorbing (isUnknown_iff.mpr h), hs'.merge_comm ht.canonical,
    hs'.merge_assoc ht.canonical hu.canonical, hs'.merge_self, merge_empty s, empty_merge s,
    hs'.merge_unknown, unknown_merge s, fun h h' v => mem_merge_iff h h', fun l r => ofList_congr,
    fun f hf order horder => ?_⟩
  exact flatMap_eq_foldl (fun v hv => (hf v hv).canonical) horder

/-- Two values, one of them collected twice. -/
def pair : ValueSet := ofList [.int 1, .null, .int 1]

/-- Of null nothing is known; any other value may also be a text. -/
def guesses : Value → ValueSet
  | .null => unknown
  | v => (single v).insert (.string "a")

/-- The image of the pair is found unknown at once, and also when null comes last. -/
theorem pair_laws : pair.members = [.null, .int 1] ∧
    pair.merge (single (.string "b")) = (single (.string "b")).merge pair ∧
    (∀ v, v ∈ (pair.merge (single (.string "b"))).members ↔
      v ∈ pair.members ∨ v ∈ (single (.string "b")).members) ∧
    pair.flatMap guesses = ([.int 1, .null].map guesses).foldl merge empty := by
  have hmembers : pair.members = [.null, .int 1] := by decide
  have hguesses : ∀ v ∈ pair.members, (guesses v).Built := by
    intro v hv
    rw [hmembers, List.mem_pair] at hv
    rcases hv with rfl | rfl
    · exact .unknown
    · exact (Built.single _).insert _
  obtain ⟨_, hcomm, _, _, _, _, _, _, hunion, _, himage⟩ :=
    built_laws (Built.ofList [.int 1, .null, .int 1]) (Built.single (.string "b")) Built.unknown
  refine ⟨hmembers, hcomm, hunion (by decide) (by decide), himage guesses hguesses _ fun v => ?_⟩
  show v ∈ [.int 1, .null] ↔ v ∈ pair.members
  rw [hmembers, List.mem_pair, List.mem_pair, or_comm]

end SetOf

end ReflectionFlow

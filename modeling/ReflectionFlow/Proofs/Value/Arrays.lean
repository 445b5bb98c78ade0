/-
  File:      ReflectionFlow/Proofs/Value/Arrays.lean
  Subject:   Versions of one array, and what becomes of them when they meet.

  A version tracks some indices.  A store changes one of them, and where versions meet an index
  stays tracked if both track it.  In canonical form a version is determined by its site, its
  length and what is looked up at its indices, and under each of these look-ups versions meet by an
  operation for which order and repetition do not matter.  So the versions of the array of a site
  are a semilattice, and one version for several is their least upper bound.

  * `ArrayOf.store_cases`                              what a store does
  * `ArrayOf.Keyed`, `ArrayOf.admits_element_merge`    looking up, storing and merging
  * `ArrayOf.forall_slots_store`, `ArrayOf.forall_slots_merge`   what operations keep of what is tracked
  * `ArrayOf.Tidy`, `ArrayOf.Canonical`                the canonical form of arrays
  * `ArrayOf.slot?_merge`, `ArrayOf.Canonical.ext`     versions index by index
  * `ArrayOf.VersionOf`, `ArrayOf.Version`             the versions of the array of a site
  * `ArrayOf.VersionOf.merge_comm`, `ArrayOf.VersionOf.merge_assoc`
  * `ArrayOf.foldl_sup_congr`                          one version for several
-/
import Mathlib.Order.Lattice
import ReflectionFlow.Proofs.Value.Union
import ReflectionFlow.Value.Array

namespace ReflectionFlow

open SetOf

/-! ## 1. Tracked indices -/

namespace ArrayOf

variable {a b : ArrayValue} {i : Int32} {w : Value}

/-- Tracked indices ascend. -/
def Keyed (a : ArrayValue) : Prop := Assoc.Keyed a.slots

/-- What is tracked at an index when another version tracks it too. -/
def met (b : ArrayValue) (index : Int32) (mine : Slot Value) : Option (Slot Value) :=
  (b.slot? index).map fun theirs =>
    ⟨mine.values.merge theirs.values, max mine.block theirs.block⟩

theorem slots_merge (h : a ≠ b) : (a.merge b).slots = Assoc.filtered a.slots b.met := by
  unfold ArrayOf.merge Assoc.filtered met
  rw [if_neg h]
  simp only [Option.map_map]
  rfl

theorem site_merge (a b : ArrayValue) : (a.merge b).site = a.site := by
  unfold ArrayOf.merge
  split <;> rfl

theorem keyed_merge (ha : a.Keyed) : (a.merge b).Keyed := by
  by_cases h : a = b
  · rw [h, merge_self, ← h]
    exact ha
  · unfold Keyed
    rw [slots_merge h]
    exact Assoc.Keyed.filtered ha _

/-- **What either version admits.** -/
theorem admits_element_merge (ha : a.Keyed) :
    ((a.merge b).element i).Admits w ↔ (a.element i).Admits w ∨ (b.element i).Admits w := by
  by_cases h : a = b
  · rw [h, merge_self, or_self]
  · have hslot : (a.merge b).slot? i = (a.slot? i).bind (b.met i) := by
      unfold slot?
      rw [slots_merge h, Assoc.Keyed.get?_filtered ha]
    unfold element met at *
    rw [hslot]
    cases a.slot? i with
    | none => exact ⟨Or.inl, fun _ => admits_unknown w⟩
    | some mine =>
        cases b.slot? i with
        | none => exact ⟨Or.inr, fun _ => admits_unknown w⟩
        | some theirs => exact admits_merge

/-- The array with the entry of an index set. -/
def withSlot (a : ArrayValue) (n : Int32) (s : Slot Value) : ArrayValue :=
  { a with slots := Assoc.insert a.slots n s }

/-- **What a store does.**  It is lost for want of room; or what is stored becomes the entry of the
    index, alone if the index is new or its entry comes from the same block; or what is stored is
    added to the entry of another block. -/
theorem store_cases (a : ArrayValue) (n : Int32) (v : ValueSet) (block capacity : Nat) :
    (a.slot? n = none ∧ a.store n v block capacity = a) ∨
      ((a.slot? n = none ∧ a.tracked < capacity ∨ ∃ s, a.slot? n = some s ∧ s.block = block) ∧
        a.store n v block capacity = a.withSlot n ⟨v.map Value.withoutContents, block⟩) ∨
      ∃ s, a.slot? n = some s ∧ s.block ≠ block ∧ a.store n v block capacity =
        a.withSlot n ⟨s.values.merge (v.map Value.withoutContents), block⟩ := by
  unfold ArrayOf.store
  cases hs : a.slot? n with
  | none =>
      dsimp only
      by_cases hroom : a.tracked < capacity
      · rw [if_pos hroom]
        exact .inr (.inl ⟨.inl ⟨rfl, hroom⟩, rfl⟩)
      · rw [if_neg hroom]
        exact .inl ⟨rfl, rfl⟩
  | some s =>
      dsimp only
      by_cases hblock : s.block = block
      · rw [if_pos hblock]
        exact .inr (.inl ⟨.inr ⟨s, rfl, hblock⟩, rfl⟩)
      · rw [if_neg hblock]
        exact .inr (.inr ⟨s, rfl, hblock, rfl⟩)

/-- A store changes nothing, or one entry. -/
theorem store_eq (a : ArrayValue) (n : Int32) (v : ValueSet) (block capacity : Nat) :
    a.store n v block capacity = a ∨ ∃ s, a.store n v block capacity = a.withSlot n s := by
  rcases a.store_cases n v block capacity with ⟨_, h⟩ | ⟨_, h⟩ | ⟨_, _, _, h⟩
  · exact .inl h
  · exact .inr ⟨_, h⟩
  · exact .inr ⟨_, h⟩

theorem site_store (a : ArrayValue) (n : Int32) (v : ValueSet) (block capacity : Nat) :
    (a.store n v block capacity).site = a.site := by
  rcases a.store_eq n v block capacity with h | ⟨s, h⟩
  · rw [h]
  · rw [h]
    rfl

theorem size_store (a : ArrayValue) (n : Int32) (v : ValueSet) (block capacity : Nat) :
    (a.store n v block capacity).size = a.size := by
  rcases a.store_eq n v block capacity with h | ⟨s, h⟩
  · rw [h]
  · rw [h]
    rfl

/-- A store leaves other indices alone. -/
theorem slot?_store_of_ne {n : Int32} (hne : i ≠ n) (v : ValueSet) (block capacity : Nat) :
    (a.store n v block capacity).slot? i = a.slot? i := by
  rcases a.store_eq n v block capacity with h | ⟨s, h⟩
  · rw [h]
  · rw [h]
    exact Assoc.get?_insert_of_ne _ _ hne

theorem element_store_of_ne {n : Int32} (h : i ≠ n) (v : ValueSet) (block capacity : Nat) :
    (a.store n v block capacity).element i = a.element i := by
  unfold element
  rw [slot?_store_of_ne h]

theorem keyed_store (ha : a.Keyed) (n : Int32) (v : ValueSet) (block capacity : Nat) :
    (a.store n v block capacity).Keyed := by
  rcases a.store_eq n v block capacity with h | ⟨s, h⟩
  · rw [h]
    exact ha
  · rw [h]
    exact Assoc.Keyed.insert ha n s

theorem slot?_withSlot (a : ArrayValue) (n : Int32) (s : Slot Value) :
    (a.withSlot n s).slot? n = some s :=
  Assoc.get?_insert_self a.slots n s

theorem element_of_slot? {s : Slot Value} (hs : a.slot? i = some s) : a.element i = s.values := by
  unfold element
  rw [hs]

theorem keyed_cleared (a : ArrayValue) : a.cleared.Keyed := List.Pairwise.nil

/-! ## 2. Conditions on what is tracked -/

section Conditions

variable {Q : ValueSet → Prop}

theorem element_of_slots (hu : Q unknown) (ha : ∀ e ∈ a.slots, Q e.2.values) (i : Int32) :
    Q (a.element i) := by
  unfold ArrayOf.element slot?
  cases hs : Assoc.get? a.slots i with
  | none => exact hu
  | some s => exact ha (i, s) (Assoc.mem_of_get? hs)

/-- **A store keeps a condition on what is tracked**, if what is stored satisfies it and union
    respects it. -/
theorem forall_slots_store (hQ : ∀ s t, Q s → Q t → Q (s.merge t))
    (ha : ∀ e ∈ a.slots, Q e.2.values) {v : ValueSet} (hv : Q (v.map Value.withoutContents))
    (n : Int32) (block capacity : Nat) :
    ∀ e ∈ (a.store n v block capacity).slots, Q e.2.values := by
  have hset : ∀ s : Slot Value, Q s.values → ∀ e ∈ (a.withSlot n s).slots, Q e.2.values := by
    intro s hs e he
    rcases Assoc.mem_of_mem_insert he with rfl | he
    · exact hs
    · exact ha e he
  rcases a.store_cases n v block capacity with ⟨_, h⟩ | ⟨_, h⟩ | ⟨s, hs, _, h⟩
  · rw [h]
    exact ha
  · rw [h]
    exact hset _ hv
  · rw [h]
    exact hset _ (hQ _ _ (ha (n, s) (Assoc.mem_of_get? hs)) hv)

/-- **Versions that meet keep a condition on what is tracked**, if union respects it. -/
theorem forall_slots_merge (hQ : ∀ s t, Q s → Q t → Q (s.merge t))
    (ha : ∀ e ∈ a.slots, Q e.2.values) (hb : ∀ e ∈ b.slots, Q e.2.values) :
    ∀ e ∈ (a.merge b).slots, Q e.2.values := by
  by_cases h : a = b
  · rw [h, merge_self]
    exact hb
  · rw [slots_merge h]
    intro e he
    obtain ⟨mine, hmine, hmet⟩ := Assoc.mem_filtered.mp he
    obtain ⟨theirs, htheirs, hslot⟩ := Option.map_eq_some_iff.mp hmet
    rw [← hslot]
    exact hQ _ _ (ha (e.1, mine) hmine) (hb (e.1, theirs) (Assoc.mem_of_get? htheirs))

theorem size_merge_of (hQ : ∀ s t, Q s → Q t → Q (s.merge t)) (ha : Q a.size) (hb : Q b.size) :
    Q (a.merge b).size := by
  unfold ArrayOf.merge
  split
  · exact ha
  · exact hQ _ _ ha hb

end Conditions

/-! ## 3. The canonical form of arrays -/

/-- Tracked indices ascend, and what is tracked at them is in canonical form. -/
structure Tidy (a : ArrayValue) : Prop where
  keyed : a.Keyed
  slots : ∀ e ∈ a.slots, e.2.values.Canonical

/-- **The canonical form of an array**: its length is in canonical form too. -/
structure Canonical (a : ArrayValue) : Prop extends Tidy a where
  size : a.size.Canonical

theorem Tidy.slot (ha : a.Tidy) {s : Slot Value} (hs : a.slot? i = some s) : s.values.Canonical :=
  ha.slots (i, s) (Assoc.mem_of_get? hs)

theorem Tidy.element (ha : a.Tidy) (i : Int32) : (a.element i).Canonical :=
  element_of_slots canonical_unknown ha.slots i

theorem tidy_fresh (site : Site) (size : ValueSet) : (fresh site size).Tidy :=
  ⟨List.Pairwise.nil, fun _ he => absurd he List.not_mem_nil⟩

theorem tidy_cleared (a : ArrayValue) : a.cleared.Tidy := tidy_fresh a.site a.size

theorem Tidy.store (ha : a.Tidy) (n : Int32) (v : ValueSet) (block capacity : Nat) :
    (a.store n v block capacity).Tidy :=
  ⟨keyed_store ha.keyed n v block capacity,
    forall_slots_store (fun _ _ => SetOf.Canonical.merge) ha.slots (canonical_ofList _) n block capacity⟩

theorem Tidy.merge (ha : a.Tidy) (hb : b.Tidy) : (a.merge b).Tidy :=
  ⟨keyed_merge ha.keyed, forall_slots_merge (fun _ _ => SetOf.Canonical.merge) ha.slots hb.slots⟩

theorem Canonical.merge (ha : a.Canonical) (hb : b.Canonical) : (a.merge b).Canonical :=
  ⟨ha.toTidy.merge hb.toTidy, size_merge_of (fun _ _ => SetOf.Canonical.merge) ha.size hb.size⟩

/-- **What two versions track at an index**: something if both do, and then the union. -/
theorem slot?_merge (ha : a.Tidy) (b : ArrayValue) (i : Int32) :
    (a.merge b).slot? i = (a.slot? i).bind (b.met i) := by
  by_cases h : a = b
  · subst h
    rw [merge_self]
    cases hs : a.slot? i with
    | none => rfl
    | some s => simp only [Option.bind_some, met, hs, Option.map_some, (ha.slot hs).merge_self, max_self]
  · unfold slot?
    rw [slots_merge h, Assoc.Keyed.get?_filtered ha.keyed]

theorem size_merge (ha : a.size.Canonical) (b : ArrayValue) :
    (a.merge b).size = a.size.merge b.size := by
  by_cases h : a = b
  · subst h
    rw [merge_self, ha.merge_self]
  · unfold ArrayOf.merge
    rw [if_neg h]

/-- **An array is determined by its site, its length and its look-ups.** -/
theorem Canonical.ext (ha : a.Canonical) (hb : b.Canonical) (hsite : a.site = b.site)
    (hsize : a.size = b.size) (hslot : ∀ i, a.slot? i = b.slot? i) : a = b := by
  have hslots : a.slots = b.slots := Assoc.Keyed.ext ha.keyed hb.keyed hslot
  obtain ⟨site, size, slots⟩ := a
  obtain ⟨site', size', slots'⟩ := b
  cases hsite
  cases hsize
  cases hslots
  rfl

/-! ## 4. The versions of the array of a site -/

/-- **A version of the array of a site**, in canonical form. -/
structure VersionOf (site : Site) (a : ArrayValue) : Prop extends Canonical a where
  site : a.site = site

theorem versionOf_fresh (site : Site) {size : ValueSet} (hsize : size.Canonical) :
    (fresh site size).VersionOf site := ⟨⟨tidy_fresh site size, hsize⟩, rfl⟩

namespace VersionOf

variable {site : Site} {c : ArrayValue}

theorem store (ha : a.VersionOf site) (n : Int32) (v : ValueSet) (block capacity : Nat) :
    (a.store n v block capacity).VersionOf site := by
  refine ⟨⟨ha.toTidy.store n v block capacity, ?_⟩, (site_store a n v block capacity).trans ha.site⟩
  rw [size_store]
  exact ha.size

protected theorem merge (ha : a.VersionOf site) (hb : b.VersionOf site) :
    (a.merge b).VersionOf site :=
  ⟨ha.toCanonical.merge hb.toCanonical, (site_merge a b).trans ha.site⟩

/-- Versions meet in either order, -/
theorem merge_comm (ha : a.VersionOf site) (hb : b.VersionOf site) : a.merge b = b.merge a := by
  refine (ha.merge hb).toCanonical.ext (hb.merge ha).toCanonical ?_ ?_ fun i => ?_
  · rw [site_merge, site_merge, ha.site, hb.site]
  · rw [size_merge ha.size, size_merge hb.size, ha.size.merge_comm hb.size]
  · rw [slot?_merge ha.toTidy, slot?_merge hb.toTidy]
    unfold met
    cases hmine : a.slot? i with
    | none => cases b.slot? i <;> rfl
    | some mine =>
        cases htheirs : b.slot? i with
        | none => rfl
        | some theirs =>
            have hvalues := (ha.slot hmine).merge_comm (hb.slot htheirs)
            simp only [Option.bind_some, Option.map_some, hvalues, max_comm]

/-- **and in any grouping.** -/
theorem merge_assoc (ha : a.VersionOf site) (hb : b.VersionOf site) (hc : c.VersionOf site) :
    (a.merge b).merge c = a.merge (b.merge c) := by
  have hab := ha.merge hb
  have hbc := hb.merge hc
  refine (hab.merge hc).toCanonical.ext (ha.merge hbc).toCanonical ?_ ?_ fun i => ?_
  · rw [site_merge, site_merge, site_merge]
  · rw [size_merge hab.size, size_merge ha.size, size_merge ha.size, size_merge hb.size,
      ha.size.merge_assoc hb.size hc.size]
  · rw [slot?_merge hab.toTidy, slot?_merge ha.toTidy, slot?_merge ha.toTidy]
    unfold met
    rw [slot?_merge hb.toTidy]
    unfold met
    -- an index that one of the three does not track is tracked on neither side
    cases hx : a.slot? i with
    | none => rfl
    | some x =>
        cases hy : b.slot? i with
        | none => rfl
        | some y =>
            cases hz : c.slot? i with
            | none => rfl
            | some z =>
                have hvalues := (ha.slot hx).merge_assoc (hb.slot hy) (hc.slot hz)
                simp only [Option.bind_some, Option.map_some, hvalues, max_assoc]

end VersionOf

/-- The versions of the array of a site. -/
@[ext]
structure Version (site : Site) where
  array : ArrayValue
  versionOf : array.VersionOf site

variable {site : Site}

instance : Max (Version site) :=
  ⟨fun a b => ⟨a.array.merge b.array, a.versionOf.merge b.versionOf⟩⟩

/-- **Versions form a semilattice**: one is above another if it takes the other in. -/
instance : SemilatticeSup (Version site) :=
  SemilatticeSup.mk' (fun a b => Version.ext (a.versionOf.merge_comm b.versionOf))
    (fun a b c => Version.ext (a.versionOf.merge_assoc b.versionOf c.versionOf))
    fun a => Version.ext a.array.merge_self

theorem exists_versions {l : List ArrayValue} (h : ∀ a ∈ l, a.VersionOf site) :
    ∃ versions : List (Version site), versions.map Version.array = l := by
  refine ⟨l.pmap Version.mk h, ?_⟩
  rw [List.map_pmap, List.pmap_eq_map, List.map_id']

theorem foldl_sup_le_iff {a c : Version site} {l : List (Version site)} :
    l.foldl (· ⊔ ·) a ≤ c ↔ ∀ b ∈ a :: l, b ≤ c := by
  induction l generalizing a with
  | nil => simp only [List.foldl_nil, List.mem_singleton, forall_eq]
  | cons b l ih =>
      rw [List.foldl_cons, ih]
      simp only [List.mem_cons, forall_eq_or_imp, sup_le_iff, and_assoc]

/-- **One version for several is their least upper bound**, so it depends on which they are and not
    on how they are listed. -/
theorem foldl_sup_congr {a b : Version site} {l m : List (Version site)}
    (h : ∀ c, c ∈ a :: l ↔ c ∈ b :: m) : l.foldl (· ⊔ ·) a = m.foldl (· ⊔ ·) b := by
  refine eq_of_forall_ge_iff fun c => ?_
  rw [foldl_sup_le_iff, foldl_sup_le_iff]
  simp only [h]

end ArrayOf

end ReflectionFlow

/-
  File:      ReflectionFlow/Proofs/Order/Sorted.lean
  Subject:   Ascending lists are determined by what they hold.

  A set that ascends is determined by its members, a map that ascends by key is determined by
  its look-ups.

  * `ascending_ext`, `sortedByRank_congr`, `Assoc.Keyed.ext`
  * `Assoc.Keyed`                       keys ascend
  * `Assoc.Keyed.get?_eq_some_iff`      looking up is membership
  * `Assoc.Keyed.insert`, `Assoc.Keyed.erase`, `Assoc.foldl_insert_eq`
  * `Assoc.Keyed.filter_insert`         selections of entries by their keys
  * `Assoc.filtered`, `Assoc.Keyed.get?_filtered`   entries that are replaced or dropped
-/
import Mathlib.Data.List.Basic
import ReflectionFlow.Order.Sorted

namespace ReflectionFlow

/-! ## 1. Sets -/

theorem rankCompare_self {α : Type} [Ranked α] (a : α) : rankCompare a a = .eq :=
  rankCompare_eq_iff.mpr rfl

theorem ne_of_rankCompare_lt {α : Type} [Ranked α] {a b : α} (h : rankCompare a b = .lt) :
    a ≠ b := by
  rintro rfl
  rw [rankCompare_self] at h
  cases h

theorem not_rankCompare_lt_of_lt {α : Type} [Ranked α] {a b : α} (h : rankCompare a b = .lt) :
    rankCompare b a ≠ .lt := fun h' =>
  ne_of_rankCompare_lt (Std.TransCmp.lt_trans h h') rfl

theorem rankCompare_nat_lt_iff {a b : Nat} : rankCompare a b = .lt ↔ a < b := by
  have h : rankCompare a b = compare a b := by
    show List.compareLex compare [a] [b] = compare a b
    unfold List.compareLex
    cases compare a b <;> rfl
  rw [h, Nat.compare_eq_lt]

/-- Pairs of numbers are compared by their first parts, then by their second ones. -/
theorem rankCompare_pair_lt_iff {a b i j : Nat} :
    rankCompare (a, i) (b, j) = .lt ↔ a < b ∨ a = b ∧ i < j := by
  have h : rankCompare (a, i) (b, j) = (compare a b).then (compare i j) := by
    show List.compareLex compare [a, i] [b, j] = _
    unfold List.compareLex List.compareLex List.compareLex
    cases compare a b <;> cases compare i j <;> rfl
  rw [h, Ordering.then_eq_lt, Nat.compare_eq_lt, Nat.compare_eq_eq, Nat.compare_eq_lt]

/-- Ascending lists with the same members are equal. -/
theorem ascending_ext {α : Type} [Ranked α] {l r : List α} (hl : Ascending l) (hr : Ascending r)
    (h : ∀ a, a ∈ l ↔ a ∈ r) : l = r := by
  have hnd : ∀ {m : List α}, Ascending m → m.Nodup := fun hm =>
    List.Pairwise.imp ne_of_rankCompare_lt hm
  refine List.Perm.eq_of_pairwise (fun a b _ _ hab hba => ?_) hl hr
    ((List.perm_ext_iff_of_nodup (hnd hl) (hnd hr)).mpr h)
  exact absurd hba (not_rankCompare_lt_of_lt hab)

/-- The ascending order of a list does not depend on the order in which its members come. -/
theorem sortedByRank_congr {α : Type} [Ranked α] {l r : List α} (h : l.Perm r) :
    sortedByRank l = sortedByRank r := by
  have hsorted : ∀ m : List α, (sortedByRank m).Pairwise fun a b => (rankCompare a b).isLE = true := by
    intro m
    refine List.pairwise_mergeSort ?_ ?_ m
    · intro a b c hab hbc
      exact Std.TransCmp.isLE_trans hab hbc
    · intro a b
      rw [Bool.or_eq_true, show rankCompare b a = (rankCompare a b).swap from Std.OrientedCmp.eq_swap]
      cases rankCompare a b <;> decide
  refine List.Perm.eq_of_pairwise (fun a b _ _ hab hba => ?_) (hsorted l) (hsorted r)
    (((List.mergeSort_perm _ _).trans h).trans (List.mergeSort_perm _ _).symm)
  exact rankCompare_eq_iff.mp (Std.OrientedCmp.isLE_antisymm hab hba)

/-! ## 2. Maps -/

namespace Assoc

variable {κ ν : Type} [Ranked κ] {m n : Assoc κ ν} {k : κ} {x : ν}

/-- Keys ascend. -/
def Keyed (m : Assoc κ ν) : Prop := m.Pairwise fun e f => rankCompare e.1 f.1 = .lt

theorem mem_of_get? (h : m.get? k = some x) : (k, x) ∈ m := by
  induction m with
  | nil => cases h
  | cons e r ih =>
      obtain ⟨j, y⟩ := e
      unfold get? at h
      split at h
      · cases h
      · next heq =>
        obtain rfl := rankCompare_eq_iff.mp heq
        obtain rfl := Option.some.inj h
        exact List.mem_cons_self
      · exact List.mem_cons_of_mem _ (ih h)

theorem Keyed.get?_of_mem (hm : Keyed m) (h : (k, x) ∈ m) : m.get? k = some x := by
  induction m with
  | nil => cases h
  | cons e r ih =>
      obtain ⟨j, y⟩ := e
      obtain ⟨hj, hr⟩ := List.pairwise_cons.mp hm
      unfold get?
      rcases List.mem_cons.mp h with heq | h
      · obtain ⟨rfl, rfl⟩ := Prod.mk.inj heq
        rw [rankCompare_self]
      · rw [Std.OrientedCmp.gt_of_lt (hj _ h)]
        exact ih hr h

/-- **Looking up is membership.** -/
theorem Keyed.get?_eq_some_iff (hm : Keyed m) : m.get? k = some x ↔ (k, x) ∈ m :=
  ⟨mem_of_get?, hm.get?_of_mem⟩

theorem get?_eq_none (h : ∀ e ∈ m, e.1 ≠ k) : m.get? k = none := by
  cases hx : m.get? k with
  | none => rfl
  | some x => exact absurd rfl (h _ (mem_of_get? hx))

theorem mem_of_mem_insert {e : κ × ν} (h : e ∈ m.insert k x) : e = (k, x) ∨ e ∈ m := by
  induction m with
  | nil => exact Or.inl (List.mem_singleton.mp h)
  | cons f r ih =>
      obtain ⟨j, y⟩ := f
      unfold insert at h
      split at h
      · exact (List.mem_cons.mp h)
      · exact (List.mem_cons.mp h).imp id (List.mem_cons_of_mem _)
      · rcases List.mem_cons.mp h with rfl | h
        · exact Or.inr List.mem_cons_self
        · exact (ih h).imp id (List.mem_cons_of_mem _)

theorem length_insert_le (m : Assoc κ ν) (k : κ) (x : ν) : (m.insert k x).length ≤ m.length + 1 := by
  induction m with
  | nil => exact Nat.le_refl _
  | cons e r ih =>
      obtain ⟨j, y⟩ := e
      unfold insert
      split
      · exact Nat.le_refl _
      · exact Nat.le_succ _
      · exact Nat.succ_le_succ ih

/-- Setting a key that is there adds no entry. -/
theorem length_insert_of_get? {y : ν} (h : m.get? k = some y) :
    (m.insert k x).length = m.length := by
  induction m with
  | nil => cases h
  | cons e r ih =>
      obtain ⟨j, z⟩ := e
      unfold get? at h
      unfold insert
      cases hc : rankCompare k j with
      | lt => rw [hc] at h; cases h
      | eq => rfl
      | gt =>
          rw [hc] at h
          exact congrArg Nat.succ (ih h)

theorem mem_insert_self (m : Assoc κ ν) (k : κ) (x : ν) : (k, x) ∈ m.insert k x :=
  mem_of_get? (get?_insert_self m k x)

theorem mem_insert_of_ne {e : κ × ν} (h : e ∈ m) (hne : e.1 ≠ k) : e ∈ m.insert k x := by
  induction m with
  | nil => cases h
  | cons f r ih =>
      obtain ⟨j, y⟩ := f
      unfold insert
      split
      · exact List.mem_cons_of_mem _ h
      · next heq =>
        obtain rfl := rankCompare_eq_iff.mp heq
        rcases List.mem_cons.mp h with rfl | h
        · exact absurd rfl hne
        · exact List.mem_cons_of_mem _ h
      · rcases List.mem_cons.mp h with rfl | h
        · exact List.mem_cons_self
        · exact List.mem_cons_of_mem _ (ih h)

theorem Keyed.insert (hm : Keyed m) (k : κ) (x : ν) : Keyed (m.insert k x) := by
  induction m with
  | nil => exact List.pairwise_singleton _ _
  | cons f r ih =>
      obtain ⟨j, y⟩ := f
      obtain ⟨hj, hr⟩ := List.pairwise_cons.mp hm
      unfold Assoc.insert
      split
      · next hlt =>
        refine List.pairwise_cons.mpr ⟨fun e he => ?_, hm⟩
        rcases List.mem_cons.mp he with rfl | he
        · exact hlt
        · exact Std.TransCmp.lt_trans hlt (hj e he)
      · next heq =>
        obtain rfl := rankCompare_eq_iff.mp heq
        exact List.pairwise_cons.mpr ⟨hj, hr⟩
      · next hgt =>
        refine List.pairwise_cons.mpr ⟨fun e he => ?_, ih hr⟩
        rcases mem_of_mem_insert he with rfl | he
        · exact Std.OrientedCmp.lt_of_gt hgt
        · exact hj e he

theorem insert_append (h : ∀ e ∈ m, rankCompare e.1 k = .lt) :
    (m ++ n : Assoc κ ν).insert k x = m ++ n.insert k x := by
  induction m with
  | nil => rfl
  | cons e r ih =>
      obtain ⟨j, y⟩ := e
      have hlater : ∀ l : Assoc κ ν, Assoc.insert ((j, y) :: l) k x = (j, y) :: l.insert k x := by
        intro l
        rw [Assoc.insert, show rankCompare k j = .gt from
          Std.OrientedCmp.gt_of_lt (h (j, y) List.mem_cons_self)]
      exact (hlater _).trans (congrArg _ (ih fun e he => h e (List.mem_cons_of_mem _ he)))

theorem insert_last (h : ∀ e ∈ m, rankCompare e.1 k = .lt) : m.insert k x = m ++ [(k, x)] := by
  have := insert_append (n := []) (x := x) h
  rwa [List.append_nil] at this

/-- **Entries that come in order are appended.** -/
theorem foldl_insert_eq {l : List (κ × ν)} (h : Keyed (m ++ l)) :
    l.foldl (fun m e => m.insert e.1 e.2) m = m ++ l := by
  induction l generalizing m with
  | nil => exact (List.append_nil m).symm
  | cons e l ih =>
      have he : m.insert e.1 e.2 = m ++ [e] :=
        insert_last fun f hf => (List.pairwise_append.mp h).2.2 f hf e List.mem_cons_self
      rw [List.foldl_cons, he, ih (by rw [List.append_assoc]; exact h), List.append_assoc]
      rfl

theorem Keyed.erase (hm : Keyed m) (k : κ) : Keyed (m.erase k) := List.Pairwise.filter _ hm

theorem get?_erase_self (m : Assoc κ ν) (k : κ) : (m.erase k).get? k = none := by
  refine get?_eq_none fun e he hek => ?_
  have := (List.mem_filter.mp he).2
  rw [hek, rankCompare_self] at this
  cases this

theorem mem_erase {e : κ × ν} : e ∈ m.erase k ↔ e ∈ m ∧ e.1 ≠ k := by
  unfold Assoc.erase
  rw [List.mem_filter, bne_iff_ne, ne_eq, rankCompare_eq_iff]

theorem Keyed.get?_erase_of_ne (hm : Keyed m) {j : κ} (hne : j ≠ k) :
    (m.erase k).get? j = m.get? j := by
  refine Option.ext fun x => ?_
  rw [(hm.erase k).get?_eq_some_iff, hm.get?_eq_some_iff, mem_erase]
  exact and_iff_left hne

theorem Keyed.ext_mem (hm : Keyed m) (hn : Keyed n) (h : ∀ e, e ∈ m ↔ e ∈ n) : m = n := by
  have hnd : ∀ {m : Assoc κ ν}, Keyed m → m.Nodup := fun hm =>
    List.Pairwise.imp (fun hlt heq => ne_of_rankCompare_lt hlt (congrArg Prod.fst heq)) hm
  refine List.Perm.eq_of_pairwise (fun e f _ _ hef hfe => ?_) hm hn
    ((List.perm_ext_iff_of_nodup (hnd hm) (hnd hn)).mpr h)
  exact absurd hfe (not_rankCompare_lt_of_lt hef)

/-- **A map is determined by its look-ups.** -/
theorem Keyed.ext (hm : Keyed m) (hn : Keyed n) (h : ∀ k, m.get? k = n.get? k) : m = n := by
  refine hm.ext_mem hn fun e => ?_
  rw [← hm.get?_eq_some_iff, ← hn.get?_eq_some_iff, h]

/-! ## 3. Selections -/

theorem Keyed.mem_insert (hm : Keyed m) {e : κ × ν} :
    e ∈ m.insert k x ↔ e = (k, x) ∨ e ∈ m ∧ e.1 ≠ k := by
  constructor
  · intro he
    by_cases hk : e.1 = k
    · have h₁ := (hm.insert k x).get?_of_mem he
      rw [hk, get?_insert_self] at h₁
      exact Or.inl (Prod.ext hk (Option.some.inj h₁).symm)
    · rcases mem_of_mem_insert he with rfl | he
      · exact absurd rfl hk
      · exact Or.inr ⟨he, hk⟩
  · rintro (rfl | ⟨he, hk⟩)
    · exact mem_insert_self m k x
    · exact mem_insert_of_ne he hk

theorem Keyed.filter (hm : Keyed m) (p : κ × ν → Bool) : Keyed (List.filter p m) :=
  List.Pairwise.filter p hm

/-- A selection by keys does not see an entry whose key is not selected, -/
theorem Keyed.filter_insert_of_not (hm : Keyed m) {p : κ → Bool} (hp : p k = false) :
    (m.insert k x).filter (fun e => p e.1) = m.filter fun e => p e.1 := by
  refine ((hm.insert k x).filter _).ext_mem (hm.filter _) fun e => ?_
  rw [List.mem_filter, List.mem_filter, hm.mem_insert]
  constructor
  · rintro ⟨rfl | ⟨he, _⟩, hpe⟩
    · rw [hp] at hpe
      cases hpe
    · exact ⟨he, hpe⟩
  · rintro ⟨he, hpe⟩
    refine ⟨Or.inr ⟨he, fun hk => ?_⟩, hpe⟩
    rw [hk, hp] at hpe
    cases hpe

/-- **and has an entry whose key is selected where the map has it.** -/
theorem Keyed.filter_insert (hm : Keyed m) {p : κ → Bool} (hp : p k = true) :
    (m.insert k x).filter (fun e => p e.1) = Assoc.insert (m.filter fun e => p e.1) k x := by
  have hf := hm.filter fun e => p e.1
  refine ((hm.insert k x).filter _).ext_mem (hf.insert k x) fun e => ?_
  rw [List.mem_filter, hm.mem_insert, hf.mem_insert, List.mem_filter]
  constructor
  · rintro ⟨rfl | ⟨he, hk⟩, hpe⟩
    · exact Or.inl rfl
    · exact Or.inr ⟨⟨he, hpe⟩, hk⟩
  · rintro (rfl | ⟨⟨he, hpe⟩, hk⟩)
    · exact ⟨Or.inl rfl, hp⟩
    · exact ⟨Or.inr ⟨he, hk⟩, hpe⟩

end Assoc

/-! ## 4. Replaced entries -/

namespace Assoc

variable {κ ν μ : Type} {m : Assoc κ ν}

/-- The map in which every entry is replaced or dropped. -/
def filtered (m : Assoc κ ν) (g : κ → ν → Option μ) : Assoc κ μ :=
  m.filterMap fun e => (g e.1 e.2).map fun y => (e.1, y)

theorem mem_filtered {g : κ → ν → Option μ} {k : κ} {y : μ} :
    (k, y) ∈ m.filtered g ↔ ∃ x, (k, x) ∈ m ∧ g k x = some y := by
  unfold filtered
  rw [List.mem_filterMap]
  constructor
  · rintro ⟨⟨j, x⟩, he, hy⟩
    obtain ⟨z, hz, heq⟩ := Option.map_eq_some_iff.mp hy
    obtain ⟨rfl, rfl⟩ := Prod.mk.inj heq
    exact ⟨x, he, hz⟩
  · rintro ⟨x, hx, hy⟩
    exact ⟨(k, x), hx, Option.map_eq_some_iff.mpr ⟨y, hy, rfl⟩⟩

variable [Ranked κ]

theorem Keyed.filtered (hm : m.Keyed) (g : κ → ν → Option μ) : (m.filtered g).Keyed := by
  refine List.Pairwise.filterMap _ (fun e f hef x hx y hy => ?_) hm
  obtain ⟨_, _, rfl⟩ := Option.map_eq_some_iff.mp hx
  obtain ⟨_, _, rfl⟩ := Option.map_eq_some_iff.mp hy
  exact hef

theorem Keyed.get?_filtered (hm : m.Keyed) (g : κ → ν → Option μ) (k : κ) :
    (m.filtered g).get? k = (m.get? k).bind (g k) := by
  ext y
  rw [(hm.filtered g).get?_eq_some_iff, mem_filtered, Option.bind_eq_some_iff]
  simp only [hm.get?_eq_some_iff]

end Assoc

end ReflectionFlow

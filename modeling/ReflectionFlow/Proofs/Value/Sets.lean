/-
  File:      ReflectionFlow/Proofs/Value/Sets.lean
  Subject:   What a value set admits, and the canonical form of sets.

  A set that contains the unknown value says nothing, so it admits every value.  With this
  reading union is disjunction and images are existential, whether or not the computation stops
  early; no well-formedness is needed for that.  In canonical form a set is determined by what
  it admits.

  * `SetOf.Admits`          the values a set leaves possible
  * `SetOf.admits_merge`, `SetOf.admits_flatMap`
  * `SetOf.Canonical`       ascending, and the unknown value stands alone
  * `SetOf.Canonical.ext`   canonical sets that admit the same values are equal
  * `SetOf.Within`          canonical sets whose members come from a given range
  * `SetOf.Covers`          the order of sets: one admits whatever the other does
-/
import ReflectionFlow.Proofs.Order.Sorted
import ReflectionFlow.Value.Set

namespace ReflectionFlow

namespace SetOf

/-! ## 1. Admitted values -/

/-- **The values a set leaves possible**: its members, or all if one of them is unknown. -/
def Admits (s : ValueSet) (v : Value) : Prop := s.isUnknown = true ∨ v ∈ s.members

theorem isUnknown_iff {s : ValueSet} : s.isUnknown = true ↔ Value.unknown ∈ s.members := by
  unfold isUnknown
  rw [List.any_eq_true]
  constructor
  · rintro ⟨v, hv, hu⟩
    cases v <;> first | exact hv | cases hu
  · intro h
    exact ⟨_, h, rfl⟩

theorem admits_unknown_iff {s : ValueSet} : s.Admits .unknown ↔ s.isUnknown = true := by
  unfold Admits
  rw [← isUnknown_iff, or_self]

theorem not_admits_empty (v : Value) : ¬ Admits empty v := by
  rintro (h | h)
  · cases h
  · cases h

theorem admits_of_isUnknown {s : ValueSet} (h : s.isUnknown = true) (v : Value) : s.Admits v :=
  Or.inl h

@[simp]
theorem admits_unknown (v : Value) : Admits unknown v := admits_of_isUnknown rfl v

theorem admits_single {v w : Value} : (single v).Admits w ↔ v.isUnknown = true ∨ w = v := by
  unfold Admits single isUnknown
  simp only [List.any_cons, List.any_nil, Bool.or_false, List.mem_cons, List.not_mem_nil, or_false]

theorem not_admits_of_isEmpty {s : ValueSet} (h : s.isEmpty = true) (v : Value) : ¬ s.Admits v := by
  obtain ⟨l⟩ := s
  obtain rfl : l = [] := List.isEmpty_iff.mp h
  exact not_admits_empty v

theorem admits_insert {s : ValueSet} {v w : Value} :
    (s.insert v).Admits w ↔ s.Admits w ∨ v.isUnknown = true ∨ w = v := by
  by_cases hs : s.isUnknown = true
  · rw [insert_of_isUnknown hs]
    exact ⟨Or.inl, fun _ => Or.inl hs⟩
  · have hs : s.isUnknown = false := by simpa using hs
    by_cases hv : v.isUnknown = true
    · have heq : s.insert v = unknown := by simp [insert, hs, hv]
      rw [heq]
      exact ⟨fun _ => Or.inr (Or.inl hv), fun _ => admits_unknown w⟩
    · have hv : v.isUnknown = false := by simpa using hv
      have hmem : ∀ u, u ∈ (s.insert v).members ↔ u = v ∨ u ∈ s.members := fun u =>
        mem_insert hs hv
      have hu : ¬ (s.insert v).isUnknown = true := by
        rw [isUnknown_iff, hmem]
        rintro (rfl | h)
        · cases hv
        · rw [isUnknown_iff.mpr h] at hs
          cases hs
      unfold Admits
      rw [hmem, hs, hv]
      simp only [hu, Bool.false_eq_true, false_or]
      exact or_comm

theorem admits_foldl_insert {l : List Value} {s : ValueSet} {w : Value} :
    (l.foldl insert s).Admits w ↔ s.Admits w ∨ ∃ v ∈ l, v.isUnknown = true ∨ w = v := by
  induction l generalizing s with
  | nil => simp
  | cons v l ih =>
      rw [List.foldl_cons, ih, admits_insert, or_assoc]
      simp only [List.mem_cons, exists_eq_or_imp]

theorem admits_iff_exists {s : ValueSet} {w : Value} :
    s.Admits w ↔ ∃ v ∈ s.members, v.isUnknown = true ∨ w = v := by
  constructor
  · rintro (h | h)
    · exact ⟨.unknown, isUnknown_iff.mp h, Or.inl rfl⟩
    · exact ⟨w, h, Or.inr rfl⟩
  · rintro ⟨v, hv, hu | rfl⟩
    · exact Or.inl (List.any_eq_true.mpr ⟨v, hv, hu⟩)
    · exact Or.inr hv

theorem admits_ofList {l : List Value} {w : Value} :
    (ofList l).Admits w ↔ ∃ v ∈ l, v.isUnknown = true ∨ w = v := by
  unfold ofList
  rw [admits_foldl_insert]
  simp only [not_admits_empty, false_or]

/-- **Union is disjunction.** -/
@[simp]
theorem admits_merge {s t : ValueSet} {w : Value} :
    (s.merge t).Admits w ↔ s.Admits w ∨ t.Admits w := by
  unfold merge
  by_cases hs : s.isUnknown = true
  · rw [hs, Bool.true_or, if_pos rfl]
    exact ⟨Or.inl, fun _ => Or.inl hs⟩
  by_cases ht : t.isEmpty = true
  · rw [ht, Bool.or_true, if_pos rfl]
    simp only [not_admits_of_isEmpty ht, or_false]
  by_cases hu : t.isUnknown = true
  · simp only [hs, ht, hu, Bool.or_self, Bool.true_or, Bool.false_eq_true, if_true, if_false]
    exact ⟨Or.inr, fun _ => Or.inl hu⟩
  by_cases he : s.isEmpty = true
  · simp only [hs, ht, he, Bool.or_self, Bool.or_true, Bool.false_eq_true, if_true, if_false]
    simp only [not_admits_of_isEmpty he, false_or]
  · simp only [hs, ht, hu, he, Bool.or_self, Bool.false_eq_true, if_false]
    rw [admits_foldl_insert, admits_iff_exists (s := t)]

theorem empty_merge (s : ValueSet) : empty.merge s = s := by
  obtain ⟨l⟩ := s
  cases l with
  | nil => rfl
  | cons v l => simp [merge, empty, isUnknown, isEmpty]

theorem admits_foldl_merge {l : List ValueSet} {s : ValueSet} {w : Value} :
    (l.foldl merge s).Admits w ↔ s.Admits w ∨ ∃ t ∈ l, t.Admits w := by
  induction l generalizing s with
  | nil => simp
  | cons t l ih =>
      rw [List.foldl_cons, ih, admits_merge, or_assoc]
      simp only [List.mem_cons, exists_eq_or_imp]

theorem admits_flatMapFrom {f : Value → ValueSet} {l : List Value} {s : ValueSet} {w : Value} :
    (flatMapFrom f l s).Admits w ↔ s.Admits w ∨ ∃ v ∈ l, (f v).Admits w := by
  induction l generalizing s with
  | nil => simp [flatMapFrom]
  | cons v l ih =>
      simp only [flatMapFrom]
      by_cases h : (s.merge (f v)).isUnknown = true
      · -- the rest is not looked at, but there is nothing left to admit
        rw [if_pos h]
        have hw : (s.merge (f v)).Admits w := Or.inl h
        simp only [hw, true_iff]
        rcases admits_merge.mp hw with h | h
        · exact Or.inl h
        · exact Or.inr ⟨v, List.mem_cons_self, h⟩
      · rw [if_neg h, ih, admits_merge, or_assoc]
        simp only [List.mem_cons, exists_eq_or_imp]

/-- **Images are existential**, although the computation stops at an unknown result. -/
theorem admits_flatMap {f : Value → ValueSet} {s : ValueSet} {w : Value} :
    (s.flatMap f).Admits w ↔ ∃ v ∈ s.members, (f v).Admits w := by
  unfold flatMap
  rw [admits_flatMapFrom]
  simp only [not_admits_empty, false_or]

/-! ## 2. Canonical sets -/

/-- **The canonical form**: members ascend, and the unknown value stands alone. -/
structure Canonical (s : ValueSet) : Prop where
  ascending : Ascending s.members
  absorbing : s.isUnknown = true → s = unknown

theorem canonical_empty : Canonical empty := ⟨List.Pairwise.nil, fun h => by cases h⟩

theorem canonical_single (v : Value) : Canonical (single v) := by
  refine ⟨List.pairwise_singleton _ _, fun h => ?_⟩
  rw [isUnknown_iff] at h
  rw [← List.mem_singleton.mp h]
  rfl

theorem canonical_unknown : Canonical unknown := canonical_single .unknown

theorem Canonical.insert {s : ValueSet} (hs : s.Canonical) (v : Value) : (s.insert v).Canonical := by
  by_cases hu : s.isUnknown = true
  · rw [insert_of_isUnknown hu]
    exact hs
  have hu : s.isUnknown = false := by simpa using hu
  by_cases hv : v.isUnknown = true
  · have heq : s.insert v = unknown := by simp [SetOf.insert, hu, hv]
    rw [heq]
    exact canonical_unknown
  · have heq : s.insert v = ⟨insertSorted v s.members⟩ := by simp [SetOf.insert, hu, hv]
    refine ⟨?_, fun h => ?_⟩
    · rw [heq]
      exact ascending_insertSorted hs.ascending
    · rcases admits_insert.mp (admits_unknown_iff.mpr h) with h | h | rfl
      · rw [admits_unknown_iff.mp h] at hu
        cases hu
      · exact absurd h hv
      · exact absurd rfl hv

theorem Canonical.foldl_insert {s : ValueSet} (hs : s.Canonical) (l : List Value) :
    (l.foldl SetOf.insert s).Canonical :=
  List.foldlRecOn (motive := Canonical) l _ hs fun _ h v _ => h.insert v

theorem canonical_ofList (l : List Value) : Canonical (ofList l) := canonical_empty.foldl_insert l

theorem Canonical.merge {s t : ValueSet} (hs : s.Canonical) (ht : t.Canonical) :
    (s.merge t).Canonical := by
  unfold SetOf.merge
  split
  · exact hs
  · split
    · exact ht
    · exact hs.foldl_insert t.members

theorem Canonical.foldl_merge {l : List ValueSet} {s : ValueSet} (hs : s.Canonical)
    (hl : ∀ t ∈ l, t.Canonical) : (l.foldl SetOf.merge s).Canonical :=
  List.foldlRecOn (motive := Canonical) l _ hs fun _ h t ht => h.merge (hl t ht)

theorem Canonical.flatMapFrom {f : Value → ValueSet} {l : List Value} {s : ValueSet}
    (hs : s.Canonical) (hf : ∀ v ∈ l, (f v).Canonical) : (flatMapFrom f l s).Canonical := by
  induction l generalizing s with
  | nil => exact hs
  | cons v l ih =>
      have hv := hs.merge (hf v List.mem_cons_self)
      simp only [SetOf.flatMapFrom]
      split
      · exact hv
      · exact ih hv fun u hu => hf u (List.mem_cons_of_mem _ hu)

theorem canonical_flatMap {f : Value → ValueSet} {s : ValueSet}
    (hf : ∀ v ∈ s.members, (f v).Canonical) : (s.flatMap f).Canonical :=
  canonical_empty.flatMapFrom hf

/-- **A canonical set is determined by what it admits.** -/
theorem Canonical.ext {s t : ValueSet} (hs : s.Canonical) (ht : t.Canonical)
    (h : ∀ v, s.Admits v ↔ t.Admits v) : s = t := by
  by_cases hu : s.isUnknown = true
  · have hu' : t.isUnknown = true := admits_unknown_iff.mp ((h _).mp (Or.inl hu))
    rw [hs.absorbing hu, ht.absorbing hu']
  · have hu' : ¬ t.isUnknown = true := fun h' => hu (admits_unknown_iff.mp ((h _).mpr (Or.inl h')))
    obtain ⟨l⟩ := s
    obtain ⟨r⟩ := t
    refine congrArg SetOf.mk (ascending_ext hs.ascending ht.ascending fun v => ?_)
    have := h v
    unfold Admits at this
    simpa only [hu, hu', Bool.false_eq_true, false_or] using this

theorem Canonical.merge_self {s : ValueSet} (hs : s.Canonical) : s.merge s = s :=
  (hs.merge hs).ext hs fun _ => admits_merge.trans or_self_iff

/-! ## 3. Sets over a range of values -/

theorem mem_of_mem_insert {s : ValueSet} {u v : Value} (h : u ∈ (s.insert v).members) :
    u = v ∨ u ∈ s.members := by
  unfold insert at h
  split at h
  · exact Or.inr h
  · split at h
    · next hv =>
      cases v <;> first | exact Or.inl (List.mem_singleton.mp h) | cases hv
    · exact mem_insertSorted.mp h

theorem mem_of_mem_foldl_insert {l : List Value} {s : ValueSet} {u : Value}
    (h : u ∈ (l.foldl insert s).members) : u ∈ s.members ∨ u ∈ l := by
  induction l generalizing s with
  | nil => exact Or.inl h
  | cons v l ih =>
      rcases ih h with h | h
      · rcases mem_of_mem_insert h with rfl | h
        · exact Or.inr List.mem_cons_self
        · exact Or.inl h
      · exact Or.inr (List.mem_cons_of_mem _ h)

theorem mem_of_mem_merge {s t : ValueSet} {u : Value} (h : u ∈ (s.merge t).members) :
    u ∈ s.members ∨ u ∈ t.members := by
  unfold merge at h
  split at h
  · exact Or.inl h
  · split at h
    · exact Or.inr h
    · exact mem_of_mem_foldl_insert h

theorem mem_of_mem_flatMapFrom {f : Value → ValueSet} {l : List Value} {s : ValueSet} {u : Value}
    (h : u ∈ (flatMapFrom f l s).members) : u ∈ s.members ∨ ∃ v ∈ l, u ∈ (f v).members := by
  induction l generalizing s with
  | nil => exact Or.inl h
  | cons v l ih =>
      have hstep : ∀ {u : Value}, u ∈ (s.merge (f v)).members →
          u ∈ s.members ∨ ∃ w ∈ v :: l, u ∈ (f w).members := fun h =>
        (mem_of_mem_merge h).imp id fun h => ⟨v, List.mem_cons_self, h⟩
      simp only [flatMapFrom] at h
      split at h
      · exact hstep h
      · rcases ih h with h | ⟨w, hw, h⟩
        · exact hstep h
        · exact Or.inr ⟨w, List.mem_cons_of_mem _ hw, h⟩

/-- **Canonical sets over a range of values.** -/
structure Within (U : Value → Prop) (s : ValueSet) : Prop extends Canonical s where
  members : ∀ v ∈ s.members, U v

variable {U : Value → Prop}

theorem within_empty : Within U empty := ⟨canonical_empty, fun _ h => absurd h List.not_mem_nil⟩

theorem within_single {v : Value} (hv : U v) : Within U (single v) :=
  ⟨canonical_single v, fun _ h => List.mem_singleton.mp h ▸ hv⟩

theorem Within.merge {s t : ValueSet} (hs : s.Within U) (ht : t.Within U) :
    (s.merge t).Within U :=
  ⟨hs.toCanonical.merge ht.toCanonical, fun v h =>
    (mem_of_mem_merge h).elim (hs.members v) (ht.members v)⟩

theorem within_flatMap {f : Value → ValueSet} {s : ValueSet}
    (hf : ∀ v ∈ s.members, (f v).Within U) : (s.flatMap f).Within U := by
  refine ⟨canonical_flatMap fun v hv => (hf v hv).toCanonical, fun u h => ?_⟩
  rcases mem_of_mem_flatMapFrom h with h | ⟨v, hv, h⟩
  · cases h
  · exact (hf v hv).members u h

/-! ## 4. The order of sets -/

/-- **One set covers another**: it admits whatever the other does. -/
def Covers (s t : ValueSet) : Prop := ∀ v, t.Admits v → s.Admits v

theorem Covers.refl (s : ValueSet) : s.Covers s := fun _ h => h

theorem Covers.trans {s t u : ValueSet} (h₁ : s.Covers t) (h₂ : t.Covers u) : s.Covers u :=
  fun v h => h₁ v (h₂ v h)

theorem unknown_covers (s : ValueSet) : Covers unknown s := fun v _ => admits_unknown v

theorem covers_empty (s : ValueSet) : s.Covers empty := fun v h => absurd h (not_admits_empty v)

theorem Covers.antisymm {s t : ValueSet} (hs : s.Canonical) (ht : t.Canonical) (h₁ : s.Covers t)
    (h₂ : t.Covers s) : s = t :=
  hs.ext ht fun v => ⟨h₂ v, h₁ v⟩

theorem merge_covers_left (s t : ValueSet) : (s.merge t).Covers s :=
  fun _ h => admits_merge.mpr (Or.inl h)

theorem merge_covers_right (s t : ValueSet) : (s.merge t).Covers t :=
  fun _ h => admits_merge.mpr (Or.inr h)

theorem Covers.merge {s s' t t' : ValueSet} (hs : s.Covers s') (ht : t.Covers t') :
    (s.merge t).Covers (s'.merge t') := by
  intro v h
  rw [admits_merge] at h ⊢
  exact h.imp (hs v) (ht v)

/-- Covering sets have covering images, as long as an unknown value has an unknown image. -/
theorem Covers.flatMap {s t : ValueSet} {f g : Value → ValueSet} (h : s.Covers t)
    (hfg : ∀ v ∈ t.members, (f v).Covers (g v)) (hf : (f .unknown).isUnknown = true) :
    (s.flatMap f).Covers (t.flatMap g) := by
  intro w hw
  rw [admits_flatMap] at hw ⊢
  obtain ⟨v, hv, hw⟩ := hw
  rcases h v (Or.inr hv) with hu | hm
  · exact ⟨.unknown, isUnknown_iff.mp hu, Or.inl hf⟩
  · exact ⟨v, hm, hfg v hv w hw⟩

end SetOf

end ReflectionFlow

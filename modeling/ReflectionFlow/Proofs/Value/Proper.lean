/-
  File:      ReflectionFlow/Proofs/Value/Proper.lean
  Subject:   Sets that say something, down to the contents of arrays.

  A set without values is met by every requirement, and a set with the unknown value and others
  would be read as if it were known.  So what lies on the stack or is stored is a proper set: it
  has values, and the unknown value stands alone.  Addresses are not stored, neither in a variable
  nor in an array, and the same holds of everything an array holds.

  * `SetOf.Proper`, `SetOf.From`, `SetOf.Filled`   what is said of a set and of its members
  * `Value.Sound`                                  what is said of the contents of an array
  * `SetOf.Pushed`, `SetOf.Stored`                 sets on the stack, and sets in variables or arrays
  * `ArrayOf.Sound.store`, `ArrayOf.Sound.merge`   operations on arrays keep their contents so
-/
import ReflectionFlow.Proofs.Value.Arrays

namespace ReflectionFlow

/-! ## 1. Sets -/

namespace SetOf

/-- **A set that says something**: it has values, and the unknown value stands alone. -/
structure Proper (s : ValueSet) : Prop where
  nonempty : s.isEmpty = false
  absorbing : s.isUnknown = true → s = unknown

/-- All values are of a kind, and the unknown value stands alone; there may be none. -/
structure From (P : Value → Prop) (s : ValueSet) : Prop where
  absorbing : s.isUnknown = true → s = unknown
  members : ∀ v ∈ s.members, P v

/-- A proper set whose values are of a kind. -/
structure Filled (P : Value → Prop) (s : ValueSet) : Prop extends Proper s where
  members : ∀ v ∈ s.members, P v

variable {P Q : Value → Prop} {s t : ValueSet}

theorem Filled.toFrom (h : s.Filled P) : s.From P := ⟨h.absorbing, h.members⟩

theorem From.filled (h : s.From P) (hs : s.isEmpty = false) : s.Filled P :=
  ⟨⟨hs, h.absorbing⟩, h.members⟩

theorem Filled.mono (h : s.Filled P) (hPQ : ∀ v ∈ s.members, P v → Q v) : s.Filled Q :=
  ⟨h.toProper, fun v hv => hPQ v hv (h.members v hv)⟩

theorem isEmpty_eq_false_iff : s.isEmpty = false ↔ ∃ v, s.Admits v := by
  obtain ⟨l⟩ := s
  cases l with
  | nil =>
      constructor
      · intro h
        cases h
      · rintro ⟨v, hv⟩
        exact absurd hv (not_admits_empty v)
  | cons v l => exact ⟨fun _ => ⟨v, Or.inr List.mem_cons_self⟩, fun _ => rfl⟩

theorem from_empty : From P empty :=
  ⟨canonical_empty.absorbing, fun _ h => absurd h List.not_mem_nil⟩

theorem filled_single {v : Value} (hv : P v) : Filled P (single v) :=
  ⟨⟨rfl, (canonical_single v).absorbing⟩, fun _ h => List.mem_singleton.mp h ▸ hv⟩

theorem From.insert (h : s.From P) {v : Value} (hv : P v) : (s.insert v).From P := by
  refine ⟨fun hu => ?_, fun w hw => (mem_of_mem_insert hw).elim (fun e => e ▸ hv) (h.members w)⟩
  unfold SetOf.insert at hu ⊢
  split
  · next hs => exact h.absorbing hs
  · next hs =>
    split
    · rfl
    · next hvu =>
      -- neither the set nor the new value is unknown
      rw [if_neg hs, if_neg hvu, isUnknown_iff] at hu
      rcases mem_insertSorted.mp hu with rfl | hmem
      · exact absurd rfl hvu
      · exact absurd (isUnknown_iff.mpr hmem) hs

theorem From.foldl_insert (h : s.From P) {l : List Value} (hl : ∀ v ∈ l, P v) :
    (l.foldl SetOf.insert s).From P :=
  List.foldlRecOn (motive := From P) l _ h fun _ h v hv => h.insert (hl v hv)

theorem from_ofList {l : List Value} (hl : ∀ v ∈ l, P v) : (ofList l).From P :=
  from_empty.foldl_insert hl

theorem From.merge (hs : s.From P) (ht : t.From P) : (s.merge t).From P := by
  unfold SetOf.merge
  split
  · exact hs
  · split
    · exact ht
    · exact hs.foldl_insert ht.members

theorem From.flatMapFrom {f : Value → ValueSet} {l : List Value} (hs : s.From P)
    (hf : ∀ v ∈ l, (f v).From P) : (flatMapFrom f l s).From P := by
  induction l generalizing s with
  | nil => exact hs
  | cons v l ih =>
      have hv := hs.merge (hf v List.mem_cons_self)
      simp only [SetOf.flatMapFrom]
      split
      · exact hv
      · exact ih hv fun u hu => hf u (List.mem_cons_of_mem _ hu)

/-- **The union of proper sets is proper.** -/
theorem Filled.merge (hs : s.Filled P) (ht : t.Filled P) : (s.merge t).Filled P := by
  refine (hs.toFrom.merge ht.toFrom).filled ?_
  obtain ⟨v, hv⟩ := isEmpty_eq_false_iff.mp hs.nonempty
  exact isEmpty_eq_false_iff.mpr ⟨v, admits_merge.mpr (Or.inl hv)⟩

theorem exists_mem (h : s.isEmpty = false) : ∃ v, v ∈ s.members := by
  obtain ⟨l⟩ := s
  cases l with
  | nil => cases h
  | cons v l => exact ⟨v, List.mem_cons_self⟩

/-- **A proper set whose values have proper images has a proper image.** -/
theorem Filled.flatMap {f : Value → ValueSet} (hs : s.Filled P)
    (hf : ∀ v ∈ s.members, (f v).Filled Q) : (s.flatMap f).Filled Q := by
  refine (from_empty.flatMapFrom fun v hv => (hf v hv).toFrom).filled ?_
  obtain ⟨v, hv⟩ := exists_mem hs.nonempty
  obtain ⟨w, hw⟩ := isEmpty_eq_false_iff.mp (hf v hv).nonempty
  exact isEmpty_eq_false_iff.mpr ⟨w, admits_flatMap.mpr ⟨v, hv, hw⟩⟩

theorem Filled.map {f : Value → Value} (hs : s.Filled P) (hf : ∀ v ∈ s.members, Q (f v)) :
    (s.map f).Filled Q := by
  refine (from_ofList fun w hw => ?_).filled ?_
  · obtain ⟨v, hv, rfl⟩ := List.mem_map.mp hw
    exact hf v hv
  · obtain ⟨v, hv⟩ := exists_mem hs.nonempty
    exact isEmpty_eq_false_iff.mpr
      ⟨f v, admits_ofList.mpr ⟨f v, List.mem_map_of_mem hv, Or.inr rfl⟩⟩

end SetOf

/-! ## 2. The contents of arrays -/

/-- The values an array holds: its possible lengths, and what may be at tracked indices. -/
def ArrayOf.Holds (a : ArrayValue) (v : Value) : Prop :=
  v ∈ a.size.members ∨ ∃ e ∈ a.slots, v ∈ e.2.values.members

/-- Is the value an array? -/
def Value.isArray : Value → Bool
  | .array _ => true
  | _ => false

theorem Value.ne_array {v : Value} (h : v.isArray = false) (a : ArrayValue) : v ≠ .array a := by
  rintro rfl
  cases h

/-- **Values whose contents are proper sets without addresses**, and so on for the arrays among
    the contents. -/
inductive Value.Sound : Value → Prop where
  | plain {v : Value} (h : ∀ a, v ≠ .array a) : Sound v
  | array {a : ArrayValue} (size : a.size.Proper) (slots : ∀ e ∈ a.slots, e.2.values.Proper)
      (direct : ∀ v, a.Holds v → v.isAddress = false) (held : ∀ v, a.Holds v → Sound v) :
      Sound (.array a)

/-- **Sets on the stack**: an address may be among the values. -/
abbrev SetOf.Pushed (s : ValueSet) : Prop := s.Filled Value.Sound

/-- **Sets in variables and arrays**: no address is among the values. -/
abbrev SetOf.Stored (s : ValueSet) : Prop := s.Filled fun v => v.Sound ∧ v.isAddress = false

theorem SetOf.Stored.pushed {s : ValueSet} (h : s.Stored) : s.Pushed := h.mono fun _ _ hv => hv.1

theorem SetOf.stored_single {v : Value} (h : ∀ a, v ≠ .array a) (hv : v.isAddress = false) :
    (SetOf.single v).Stored := filled_single ⟨.plain h, hv⟩

theorem SetOf.stored_unknown : SetOf.unknown.Stored := stored_single nofun rfl

/-- An array whose length and elements are stored sets. -/
structure ArrayOf.Sound (a : ArrayValue) : Prop where
  size : a.size.Stored
  slots : ∀ e ∈ a.slots, e.2.values.Stored

theorem Value.sound_array_iff {a : ArrayValue} : (Value.array a).Sound ↔ a.Sound := by
  constructor
  · intro h
    cases h with
    | plain h => exact absurd rfl (h a)
    | array size slots direct held =>
        exact ⟨⟨size, fun v hv => ⟨held v (Or.inl hv), direct v (Or.inl hv)⟩⟩, fun e he =>
          ⟨slots e he, fun v hv =>
            ⟨held v (Or.inr ⟨e, he, hv⟩), direct v (Or.inr ⟨e, he, hv⟩)⟩⟩⟩
  · intro h
    have hheld : ∀ v, a.Holds v → v.Sound ∧ v.isAddress = false := by
      rintro v (hv | ⟨e, he, hv⟩)
      · exact h.size.members v hv
      · exact (h.slots e he).members v hv
    exact .array h.size.toProper (fun e he => (h.slots e he).toProper) (fun v hv => (hheld v hv).2)
      fun v hv => (hheld v hv).1

theorem SetOf.stored_array {a : ArrayValue} (h : a.Sound) : (SetOf.single (.array a)).Stored :=
  filled_single ⟨Value.sound_array_iff.mpr h, rfl⟩

namespace ArrayOf

variable {a b : ArrayValue}

theorem sound_fresh (site : Site) {size : ValueSet} (h : size.Stored) : (fresh site size).Sound :=
  ⟨h, fun _ he => absurd he List.not_mem_nil⟩

theorem Sound.cleared (h : a.Sound) : a.cleared.Sound := sound_fresh a.site h.size

theorem Sound.element (h : a.Sound) (index : Int32) : (a.element index).Stored :=
  element_of_slots SetOf.stored_unknown h.slots index

/-- What is stored in an array is a stored set again: the arrays in it lose their elements only. -/
theorem stored_withoutContents {values : ValueSet} (h : values.Stored) :
    (values.map Value.withoutContents).Stored := by
  refine h.map fun v hv => ?_
  obtain ⟨hsound, hdirect⟩ := h.members v hv
  cases v with
  | array a => exact ⟨Value.sound_array_iff.mpr (Value.sound_array_iff.mp hsound).cleared, rfl⟩
  | _ => exact ⟨hsound, hdirect⟩

/-- **A store keeps the contents of an array sound.** -/
theorem Sound.store (h : a.Sound) (index : Int32) {values : ValueSet} (hv : values.Stored)
    (block capacity : Nat) : (a.store index values block capacity).Sound := by
  have hstored := stored_withoutContents hv
  refine ⟨?_, forall_slots_store (fun _ _ => SetOf.Filled.merge) h.slots hstored index block capacity⟩
  rw [size_store]
  exact h.size

/-- **Versions of an array that meet have sound contents.** -/
theorem Sound.merge (ha : a.Sound) (hb : b.Sound) : (a.merge b).Sound :=
  ⟨size_merge_of (fun _ _ => SetOf.Filled.merge) ha.size hb.size,
    forall_slots_merge (fun _ _ => SetOf.Filled.merge) ha.slots hb.slots⟩

end ArrayOf

end ReflectionFlow

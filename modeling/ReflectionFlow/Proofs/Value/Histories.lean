/-
  File:      ReflectionFlow/Proofs/Value/Histories.lean
  Subject:   What an array tells about an element, whatever happened to the array.

  Between its creation and a read, an array is stored into, cleared, and merged where paths meet.
  Each path through such a history stores a last set at an index, or none since the array was
  created or cleared.  A store may replace what was stored before, add to it, or find no room; in
  every case what can be read at the index covers what each path has left there.  And nothing else
  is read: whatever is read was stored at that index on some path.

  * `ArrayOf.History`, `ArrayOf.History.array`     histories, and the array after one
  * `ArrayOf.History.paths`, `ArrayOf.storedAt`    paths, and the sets that they store at an index
  * `ArrayOf.element_store_self`                   a store replaces, adds, or is lost
  * `ArrayOf.History.covers_leftAt`                what is read covers what each path has left
  * `ArrayOf.History.stored_of_mem_element`        what is read was stored
  * `ArrayOf.History.element_over_paths`
-/
import ReflectionFlow.Proofs.Value.Arrays

namespace ReflectionFlow

open SetOf

namespace ArrayOf

/-! ## 1. Histories and their paths -/

/-- **The history of an array**: it is created, stored into at a constant index, or cleared, and
    two histories meet. -/
inductive History where
  | fresh (site : Site) (size : ValueSet)
  | store (h : History) (index : Int32) (values : ValueSet) (block capacity : Nat)
  | cleared (h : History)
  | merge (h k : History)

/-- What happens to an array on a path. -/
inductive Event where
  | stored (index : Int32) (values : ValueSet)
  | cleared

/-- The sets that a path has stored at an index since the array was created or cleared, the last
    one first. -/
def storedAt (i : Int32) : List Event → List ValueSet
  | [] => []
  | .cleared :: _ => []
  | .stored index values :: path =>
    if index = i then values :: storedAt i path else storedAt i path

theorem storedAt_self (i : Int32) (values : ValueSet) (path : List Event) :
    storedAt i (.stored i values :: path) = values :: storedAt i path := if_pos rfl

theorem storedAt_of_ne {i index : Int32} (h : index ≠ i) (values : ValueSet) (path : List Event) :
    storedAt i (.stored index values :: path) = storedAt i path := if_neg h

/-- What a path leaves at an index: the last set that it stored there, without the contents of
    arrays, or anything if it stored none. -/
def leftAt (i : Int32) (path : List Event) : ValueSet :=
  match storedAt i path with
  | [] => unknown
  | values :: _ => values.map Value.withoutContents

namespace History

/-- The array after a history. -/
def array : History → ArrayValue
  | .fresh site size => .fresh site size
  | .store h index values block capacity => h.array.store index values block capacity
  | .cleared h => h.array.cleared
  | .merge h k => h.array.merge k.array

/-- The paths through a history, each as what happens after the creation, the last event first. -/
def paths : History → List (List Event)
  | .fresh _ _ => [[]]
  | .store h index values _ _ => h.paths.map (.stored index values :: ·)
  | .cleared h => h.paths.map (.cleared :: ·)
  | .merge h k => h.paths ++ k.paths

theorem exists_path (h : History) : ∃ path, path ∈ h.paths := by
  induction h with
  | fresh site size => exact ⟨[], List.mem_singleton.mpr rfl⟩
  | store h index values block capacity ih =>
      obtain ⟨path, hpath⟩ := ih
      exact ⟨_, List.mem_map_of_mem hpath⟩
  | cleared h ih =>
      obtain ⟨path, hpath⟩ := ih
      exact ⟨_, List.mem_map_of_mem hpath⟩
  | merge h k ihh _ =>
      obtain ⟨path, hpath⟩ := ihh
      exact ⟨path, List.mem_append_left _ hpath⟩

theorem tidy_array (h : History) : h.array.Tidy := by
  induction h with
  | fresh site size => exact tidy_fresh site size
  | store h index values block capacity ih => exact ih.store index values block capacity
  | cleared h _ => exact tidy_cleared h.array
  | merge h k ihh ihk => exact ihh.merge ihk

end History

/-! ## 2. One operation -/

variable {a b : ArrayValue} {i : Int32} {w : Value}

/-- **A store replaces what can be read at its index, adds to it, or is lost**; when it is lost,
    the index is not tracked. -/
theorem element_store_self (a : ArrayValue) (i : Int32) (v : ValueSet) (block capacity : Nat) :
    (a.store i v block capacity).element i = v.map Value.withoutContents ∨
      (a.store i v block capacity).element i = (a.element i).merge (v.map Value.withoutContents) ∨
      (a.store i v block capacity).element i = unknown := by
  rcases a.store_cases i v block capacity with ⟨hnone, h⟩ | ⟨_, h⟩ | ⟨s, hs, _, h⟩
  · refine .inr (.inr ?_)
    rw [h]
    unfold ArrayOf.element
    rw [hnone]
  · refine .inl ?_
    rw [h]
    exact element_of_slot? (slot?_withSlot a i _)
  · refine .inr (.inl ?_)
    rw [h, element_of_slot? hs]
    exact element_of_slot? (slot?_withSlot a i _)

theorem covers_element_store (a : ArrayValue) (i : Int32) (v : ValueSet) (block capacity : Nat) :
    ((a.store i v block capacity).element i).Covers (v.map Value.withoutContents) := by
  rcases element_store_self a i v block capacity with h | h | h
  · rw [h]
    exact .refl _
  · rw [h]
    exact merge_covers_right _ _
  · rw [h]
    exact unknown_covers _

theorem mem_element_store {v : ValueSet} {block capacity : Nat}
    (hw : w ∈ ((a.store i v block capacity).element i).members) :
    w = .unknown ∨ w ∈ (a.element i).members ∨ w ∈ (v.map Value.withoutContents).members := by
  rcases element_store_self a i v block capacity with h | h | h
  · rw [h] at hw
    exact .inr (.inr hw)
  · rw [h] at hw
    exact .inr (mem_of_mem_merge hw)
  · rw [h] at hw
    exact .inl (List.mem_singleton.mp hw)

theorem mem_element_merge (ha : a.Tidy) (hw : w ∈ ((a.merge b).element i).members) :
    w = .unknown ∨ w ∈ (a.element i).members ∨ w ∈ (b.element i).members := by
  unfold ArrayOf.element at *
  rw [slot?_merge ha] at hw
  unfold met at hw
  cases hmine : a.slot? i with
  | none =>
      rw [hmine] at hw
      exact .inl (List.mem_singleton.mp hw)
  | some mine =>
      cases htheirs : b.slot? i with
      | none =>
          rw [hmine, htheirs] at hw
          exact .inl (List.mem_singleton.mp hw)
      | some theirs =>
          rw [hmine, htheirs] at hw
          exact .inr (mem_of_mem_merge hw)

/-! ## 3. Whole histories -/

namespace History

/-- **What can be read at an index covers what each path has left there.** -/
theorem covers_leftAt (h : History) {path : List Event} (hpath : path ∈ h.paths) (i : Int32) :
    (h.array.element i).Covers (leftAt i path) := by
  induction h generalizing path with
  | fresh site size => exact unknown_covers _
  | store h index values block capacity ih =>
      obtain ⟨before, hbefore, rfl⟩ := List.mem_map.mp hpath
      by_cases hi : index = i
      · subst hi
        have hleft : leftAt index (.stored index values :: before) =
            values.map Value.withoutContents := by
          unfold leftAt
          rw [storedAt_self]
        rw [hleft]
        exact covers_element_store h.array index values block capacity
      · -- a store elsewhere changes neither side
        have hleft : leftAt i (.stored index values :: before) = leftAt i before := by
          unfold leftAt
          rw [storedAt_of_ne hi]
        have hread : (h.store index values block capacity).array.element i = h.array.element i :=
          element_store_of_ne (Ne.symm hi) values block capacity
        rw [hleft, hread]
        exact ih hbefore
  | cleared h _ => exact unknown_covers _
  | merge h k ihh ihk =>
      have hmerge : ∀ w, (h.array.element i).Admits w ∨ (k.array.element i).Admits w →
          ((h.array.merge k.array).element i).Admits w := fun w =>
        (admits_element_merge h.tidy_array.keyed).mpr
      rcases List.mem_append.mp hpath with hpath | hpath
      · exact fun w hw => hmerge w (.inl (ihh hpath w hw))
      · exact fun w hw => hmerge w (.inr (ihk hpath w hw))

/-- **What can be read at an index was stored there** on some path, unless it is unknown. -/
theorem stored_of_mem_element (h : History) (hw : w ∈ (h.array.element i).members) :
    w = .unknown ∨ ∃ path ∈ h.paths, ∃ values ∈ storedAt i path, ∃ v ∈ values.members,
      w = v.withoutContents := by
  induction h with
  | fresh site size => exact .inl (List.mem_singleton.mp hw)
  | store h index values block capacity ih =>
      by_cases hi : index = i
      · subst hi
        rcases mem_element_store hw with hw | hw | hw
        · exact .inl hw
        · refine (ih hw).imp id fun ⟨before, hbefore, earlier, hearlier, hfrom⟩ =>
            ⟨_, List.mem_map_of_mem hbefore, earlier, ?_, hfrom⟩
          rw [storedAt_self]
          exact List.mem_cons_of_mem _ hearlier
        · obtain ⟨before, hbefore⟩ := h.exists_path
          have hlisted := (mem_of_mem_foldl_insert hw).resolve_left List.not_mem_nil
          obtain ⟨v, hv, heq⟩ := List.mem_map.mp hlisted
          refine .inr ⟨_, List.mem_map_of_mem hbefore, values, ?_, v, hv, heq.symm⟩
          rw [storedAt_self]
          exact List.mem_cons_self
      · have hread : w ∈ (h.array.element i).members := by
          rw [← element_store_of_ne (Ne.symm hi) values block capacity]
          exact hw
        refine (ih hread).imp id fun ⟨before, hbefore, earlier, hearlier, hfrom⟩ =>
          ⟨_, List.mem_map_of_mem hbefore, earlier, ?_, hfrom⟩
        rw [storedAt_of_ne hi]
        exact hearlier
  | cleared h _ => exact .inl (List.mem_singleton.mp hw)
  | merge h k ihh ihk =>
      rcases mem_element_merge h.tidy_array hw with hw | hw | hw
      · exact .inl hw
      · exact (ihh hw).imp id fun ⟨path, hpath, hfrom⟩ =>
          ⟨path, List.mem_append_left _ hpath, hfrom⟩
      · exact (ihk hw).imp id fun ⟨path, hpath, hfrom⟩ =>
          ⟨path, List.mem_append_right _ hpath, hfrom⟩

/-- **An array tells of an element what every path through its history has left there.**  If a path
    stored nothing at the index since the array was created or cleared, nothing is known.  Otherwise
    nothing is known, or all values of the set that each path stored last are there, without the
    contents of arrays.  And no value is there that was not stored at the index. -/
theorem element_over_paths (h : History) (i : Int32) :
    ((∃ path ∈ h.paths, storedAt i path = []) → h.array.element i = unknown) ∧
      ((∀ path ∈ h.paths, storedAt i path ≠ []) → h.array.element i = unknown ∨
        ∀ path ∈ h.paths, ∀ values ∈ (storedAt i path).head?, ∀ v ∈ values.members,
          v.withoutContents ∈ (h.array.element i).members) ∧
      ∀ w ∈ (h.array.element i).members, w = .unknown ∨
        ∃ path ∈ h.paths, ∃ values ∈ storedAt i path, ∃ v ∈ values.members,
          w = v.withoutContents := by
  have hcanonical := h.tidy_array.element i
  refine ⟨?_, fun _ => ?_, fun w hw => h.stored_of_mem_element hw⟩
  · rintro ⟨path, hpath, hnone⟩
    have hcovers := h.covers_leftAt hpath i
    unfold leftAt at hcovers
    rw [hnone] at hcovers
    exact hcanonical.absorbing (admits_unknown_iff.mp (hcovers _ (admits_unknown _)))
  · by_cases hu : (h.array.element i).isUnknown = true
    · exact .inl (hcanonical.absorbing hu)
    · refine .inr fun path hpath values hvalues v hv => ?_
      obtain ⟨earlier, hstored⟩ := List.head?_eq_some_iff.mp hvalues
      have hcovers := h.covers_leftAt hpath i
      unfold leftAt at hcovers
      rw [hstored] at hcovers
      have hleft : (values.map Value.withoutContents).Admits v.withoutContents :=
        admits_ofList.mpr ⟨_, List.mem_map_of_mem hv, .inr rfl⟩
      exact (hcovers _ hleft).resolve_left hu

/-- One path stores twice at index 0 from one block, the other stores at both indices. -/
example :
    let start := History.fresh ⟨⟨0x06000001⟩, 0⟩ (single (.int 2))
    let one := (start.store 0 (single (.string "a")) 1 8).store 0 (single (.string "b")) 1 8
    let other := (start.store 0 (single (.string "c")) 2 8).store 1 (single (.string "d")) 2 8
    (one.merge other).array.element 0 = ofList [.string "b", .string "c"] ∧
      (one.merge other).array.element 1 = unknown := by decide

end History

end ArrayOf

end ReflectionFlow

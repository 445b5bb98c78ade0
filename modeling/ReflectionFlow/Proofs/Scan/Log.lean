/-
  File:      ReflectionFlow/Proofs/Scan/Log.lean
  Subject:   What a log holds at one offset.

  The observations at an offset stand at its places 0, 1, 2 and so on, without a gap: the next place
  is found behind the last one that is taken, and dropping a range empties an offset or leaves it
  alone.  When all places are taken the last one is used again, so the observation at it is lost.

  * `ObservationLog.valuesAt`       the observations at an offset
  * `ObservationLog.Slotted`        they stand at its first places
  * `ObservationLog.valuesAt_record`, `ObservationLog.valuesAt_forget`
  * `ObservationLog.keepAll`        what an offset keeps of many observations
  * `ObservationLog.valuesAt_foldl`
-/
import ReflectionFlow.Proofs.Scan.Record

namespace ReflectionFlow

namespace ObservationLog

variable {α : Type} {log : ObservationLog α} {offset : Nat}

/-! ## 1. Places -/

/-- The observations at an offset, in order. -/
def valuesAt (log : ObservationLog α) (offset : Nat) : List α :=
  (log.entriesAt offset).map Prod.snd

/-- Observations at the first places of an offset. -/
def atPlaces (offset : Nat) (values : List α) : Assoc (Nat × Nat) α :=
  values.zipIdx.map fun e => ((offset, e.2), e.1)

/-- **The observations at every offset stand at its first places**, and there are not more of them
    than places. -/
structure Slotted (log : ObservationLog α) : Prop where
  keyed : log.entries.Keyed
  placed : ∀ offset, log.entriesAt offset = atPlaces offset (log.valuesAt offset)
  room : ∀ offset, (log.valuesAt offset).length ≤ lastSlot + 1

theorem atPlaces_concat (offset : Nat) (values : List α) (a : α) :
    atPlaces offset (values ++ [a]) = atPlaces offset values ++ [((offset, values.length), a)] := by
  unfold atPlaces
  rw [List.zipIdx_append, List.map_append, Nat.zero_add]
  rfl

theorem map_snd_atPlaces (offset : Nat) (values : List α) :
    (atPlaces offset values).map Prod.snd = values := by
  unfold atPlaces
  rw [List.map_map]
  exact List.zipIdx_map_fst 0 values

/-- The places of an offset come before every later one. -/
theorem lt_of_mem_atPlaces {values : List α} {n : Nat} (hn : values.length ≤ n) :
    ∀ e ∈ atPlaces offset values, rankCompare e.1 (offset, n) = .lt := by
  intro e he
  obtain ⟨⟨a, i⟩, hi, rfl⟩ := List.mem_map.mp he
  have := List.snd_lt_of_mem_zipIdx hi
  exact rankCompare_pair_lt_iff.mpr (Or.inr ⟨rfl, by omega⟩)

theorem slotted_empty : ({} : ObservationLog α).Slotted :=
  ⟨List.Pairwise.nil, fun _ => rfl, fun _ => Nat.zero_le _⟩

/-! ## 2. One more observation -/

/-- What an offset keeps when one more observation is noted. -/
def keep (values : List α) (a : α) : List α := values.take lastSlot ++ [a]

theorem length_keep_le (values : List α) (a : α) : (keep values a).length ≤ lastSlot + 1 := by
  unfold keep
  rw [List.length_append, List.length_take]
  exact Nat.add_le_add_right (Nat.min_le_left _ _) 1

/-- The next place is the one behind the observations, as long as there is one. -/
theorem Slotted.nextSlot_eq (h : log.Slotted) (offset : Nat) :
    log.nextSlot offset = min (log.valuesAt offset).length lastSlot := by
  have hentries : (log.entries.filter fun e => e.1.1 == offset) = _ := h.placed offset
  unfold nextSlot
  rw [hentries]
  rcases List.eq_nil_or_concat (log.valuesAt offset) with hnil | ⟨values, a, hvalues⟩
  · rw [hnil]
    rfl
  · rw [hvalues, List.concat_eq_append, atPlaces_concat, List.getLast?_concat, List.length_append]
    rfl

/-- At the place behind them an observation comes last; at the last place it replaces the last. -/
theorem insert_atPlaces {values : List α} (hroom : values.length ≤ lastSlot + 1) (a : α) :
    (atPlaces offset values).insert (offset, min values.length lastSlot) a =
      atPlaces offset (keep values a) := by
  unfold keep
  rcases Nat.lt_or_ge lastSlot values.length with hfull | hfree
  · obtain ⟨front, b, rfl⟩ : ∃ front b, values = front ++ [b] := by
      rcases List.eq_nil_or_concat values with rfl | ⟨front, b, h⟩
      · exact absurd hfull (Nat.not_lt_zero _)
      · exact ⟨front, b, h.trans List.concat_eq_append⟩
    have hlen : front.length = lastSlot := by
      rw [List.length_append, List.length_singleton] at hroom hfull
      omega
    have hlast : Assoc.insert [((offset, lastSlot), b)] (offset, lastSlot) a =
        [((offset, lastSlot), a)] := by
      rw [Assoc.insert, rankCompare_self]
    rw [Nat.min_eq_right (Nat.le_of_lt hfull), List.take_left' hlen, atPlaces_concat,
      atPlaces_concat, hlen, Assoc.insert_append (lt_of_mem_atPlaces (Nat.le_of_eq hlen)), hlast]
  · rw [Nat.min_eq_left hfree, List.take_of_length_le hfree, atPlaces_concat,
      Assoc.insert_last (lt_of_mem_atPlaces (Nat.le_refl _))]

/-- **What an offset holds after an observation is noted.** -/
theorem Slotted.entriesAt_record (h : log.Slotted) (offset : Nat) (a : α) (o : Nat) :
    (log.record offset a).entriesAt o =
      atPlaces o (if o = offset then keep (log.valuesAt o) a else log.valuesAt o) := by
  by_cases ho : o = offset
  · subst ho
    rw [if_pos rfl, ObservationLog.entriesAt_record h.keyed, h.nextSlot_eq, h.placed o,
      insert_atPlaces (h.room o)]
  · rw [if_neg ho, entriesAt_record_of_ne h.keyed ho, h.placed o]

theorem Slotted.valuesAt_record (h : log.Slotted) (offset : Nat) (a : α) (o : Nat) :
    (log.record offset a).valuesAt o =
      if o = offset then keep (log.valuesAt o) a else log.valuesAt o := by
  unfold valuesAt
  rw [h.entriesAt_record, map_snd_atPlaces]
  rfl

theorem Slotted.record (h : log.Slotted) (offset : Nat) (a : α) :
    (log.record offset a).Slotted where
  keyed := h.keyed.insert _ _
  placed o := by rw [h.valuesAt_record, h.entriesAt_record]
  room o := by
    rw [h.valuesAt_record]
    split
    · exact length_keep_le _ a
    · exact h.room o

/-! ## 3. A range is dropped -/

theorem valuesAt_forget (log : ObservationLog α) (first last o : Nat) :
    (log.forget first last).valuesAt o =
      if first ≤ o ∧ o ≤ last then [] else log.valuesAt o := by
  unfold valuesAt
  rw [entriesAt_forget]
  split <;> rfl

theorem Slotted.forget (h : log.Slotted) (first last : Nat) : (log.forget first last).Slotted where
  keyed := h.keyed.filter _
  placed o := by
    rw [entriesAt_forget, valuesAt_forget]
    split
    · rfl
    · exact h.placed o
  room o := by
    rw [valuesAt_forget]
    split
    · exact Nat.zero_le _
    · exact h.room o

/-! ## 4. Many observations -/

/-- **What an offset keeps** of observations that are noted one after the other. -/
def keepAll (values new : List α) : List α := new.foldl keep values

theorem keepAll_concat (values new : List α) (a : α) :
    keepAll values (new ++ [a]) = keep (keepAll values new) a := List.foldl_append

/-- Nothing is added, and the order is kept. -/
theorem keepAll_sublist (values new : List α) : (keepAll values new).Sublist (values ++ new) := by
  induction new generalizing values with
  | nil => exact (List.append_nil values).symm ▸ List.Sublist.refl _
  | cons a new ih =>
      refine (ih (keep values a)).trans ?_
      rw [List.append_cons]
      exact ((List.take_sublist _ _).append_right [a]).append_right new

/-- The observations that find a place before the last one are there to stay. -/
theorem take_keepAll (values new : List α) :
    (keepAll values new).take lastSlot = (values ++ new).take lastSlot := by
  induction new generalizing values with
  | nil => rw [List.append_nil]; rfl
  | cons a new ih =>
      have htake : ((values.take lastSlot ++ [a]) ++ new).take lastSlot =
          (values ++ a :: new).take lastSlot := by
        rw [List.append_assoc]
        rcases Nat.le_total values.length lastSlot with hfree | hfull
        · rw [List.take_of_length_le hfree]
          rfl
        · rw [List.take_left' (List.length_take_of_le hfull), List.take_append_of_le_length hfull]
      exact (ih (keep values a)).trans htake

/-- As long as there is a place for each of them, all are kept. -/
theorem keepAll_eq_append {values new : List α} (h : values.length + new.length ≤ lastSlot + 1) :
    keepAll values new = values ++ new := by
  induction new generalizing values with
  | nil => exact (List.append_nil values).symm
  | cons a new ih =>
      rw [List.length_cons] at h
      have hkeep : keep values a = values ++ [a] := by
        unfold keep
        rw [List.take_of_length_le (by omega)]
      show keepAll (keep values a) new = _
      rw [hkeep, ih (by rw [List.length_append, List.length_singleton]; omega), ← List.append_cons]

/-- **What an offset holds after many observations are noted**, each at its own offset. -/
theorem Slotted.foldl_record (h : log.Slotted) (l : List (Nat × α)) :
    (l.foldl (fun log e => log.record e.1 e.2) log).Slotted ∧
    ∀ o, (l.foldl (fun log e => log.record e.1 e.2) log).valuesAt o =
      keepAll (log.valuesAt o) ((l.filter fun e => e.1 == o).map Prod.snd) := by
  induction l generalizing log with
  | nil => exact ⟨h, fun _ => rfl⟩
  | cons e l ih =>
      obtain ⟨hslotted, hvalues⟩ := ih (h.record e.1 e.2)
      refine ⟨hslotted, fun o => (hvalues o).trans ?_⟩
      rw [h.valuesAt_record]
      by_cases ho : o = e.1
      · rw [if_pos ho, List.filter_cons_of_pos (by simpa using ho.symm)]
        rfl
      · rw [if_neg ho, List.filter_cons_of_neg (by simpa using fun he => ho he.symm)]

/-! ## 5. The log as a list -/

/-- The observations at an offset are those that the list has there. -/
theorem filter_toList (log : ObservationLog α) (offset : Nat) :
    (log.toList.filter fun e => e.1 == offset).map Prod.snd = log.valuesAt offset := by
  unfold toList valuesAt entriesAt
  rw [List.filter_map, List.map_map]
  rfl

end ObservationLog

end ReflectionFlow

/-
  File:      ReflectionFlow/Proofs/Scan/Keeping.lean
  Subject:   What a log keeps after any sequence of calls.

  A call records an observation or forgets a range of offsets.  Which observations are live after
  many calls is a matter of the calls alone: those that no later call forgets.  At each offset the
  log keeps the live ones as if they had just been recorded one after the other, for a range that is
  forgotten leaves nothing behind at its offsets, not even a place that is taken.  So the log lists
  all of them, by offset and then as they came, as long as no offset has more than 65536 at a time.
  A range that ends before it begins is refused, and then there is no log.

  * `ObservationLog.Call`, `ObservationLog.built?`    calls, and the log they build
  * `ObservationLog.Orderly`                          no call is refused
  * `ObservationLog.live`                             what is live, by the calls alone
  * `ObservationLog.Roomy`                            there is always a place for what is live
  * `ObservationLog.Keeps`, `ObservationLog.keeps_of_built?`
  * `ObservationLog.Lists`, `ObservationLog.built_lists_live`
-/
import Mathlib.Data.List.Basic
import Mathlib.Data.List.Induction
import ReflectionFlow.Proofs.Scan.Log

namespace ReflectionFlow

namespace ObservationLog

variable {α : Type}

/-! ## 1. Calls -/

/-- A call that changes a log. -/
inductive Call (α : Type) where
  | record (offset : Nat) (a : α)
  | forget (first last : Nat)
  deriving DecidableEq, Repr

/-- The log after a call that is not refused. -/
def call? (log : ObservationLog α) : Call α → Option (ObservationLog α)
  | .record offset a => some (log.record offset a)
  | .forget first last => log.forget? first last

/-- The log that calls build, if none of them is refused. -/
def built? (calls : List (Call α)) : Option (ObservationLog α) := calls.foldlM call? {}

theorem built?_concat (calls : List (Call α)) (c : Call α) :
    built? (calls ++ [c]) = (built? calls).bind fun log => log.call? c := by
  unfold built?
  rw [List.foldlM_append]
  refine congrArg _ (funext fun log => ?_)
  rw [List.foldlM_cons]
  exact bind_pure _

/-- Does a range to forget begin before it ends? -/
def Call.inOrder : Call α → Bool
  | .record .. => true
  | .forget first last => first ≤ last

/-- **Every range to forget begins before it ends, once something has been recorded.**  Before that
    there is nothing that a range could be about, and none is refused.  Afterwards one that ends
    before it begins is out of order, also where all that was recorded has been forgotten. -/
def Orderly (calls : List (Call α)) : Prop :=
  ∀ before first last, before ++ [.forget first last] <+: calls → last < first →
    ∀ offset a, Call.record offset a ∉ before

theorem Orderly.of_prefix {before calls : List (Call α)} (h : Orderly calls) (hb : before <+: calls) :
    Orderly before :=
  fun _ _ _ hc => h _ _ _ (hc.trans hb)

theorem orderly_append {early later : List (Call α)}
    (hearly : ∀ offset a, Call.record offset a ∉ early) (hlater : ∀ c ∈ later, c.inOrder = true) :
    Orderly (early ++ later) := by
  rintro before first last ⟨after, hcalls⟩ hlt offset a hmem
  rw [List.append_assoc] at hcalls
  rcases List.append_eq_append_iff.mp hcalls with ⟨rest, rfl, _⟩ | ⟨rest, _, rfl⟩
  · exact hearly offset a (List.mem_append_left _ hmem)
  · have horder := hlater (.forget first last) (List.mem_append_right _ List.mem_cons_self)
    exact absurd (of_decide_eq_true horder) (Nat.not_le_of_lt hlt)

/-- An empty log refuses no range. -/
theorem forget?_empty (first last : Nat) : ({} : ObservationLog α).forget? first last = some {} :=
  if_neg fun hno => Bool.false_ne_true hno.2.symm

/-- As long as nothing is recorded the log stays empty. -/
theorem built?_of_no_record {calls : List (Call α)}
    (h : ∀ offset a, Call.record offset a ∉ calls) : built? calls = some {} := by
  induction calls using List.reverseRecOn with
  | nil => rfl
  | append_singleton calls c ih =>
      rw [built?_concat, ih fun offset a hmem => h offset a (List.mem_append_left _ hmem)]
      cases c with
      | record offset a => exact absurd List.mem_concat_self (h offset a)
      | forget first last => exact forget?_empty first last

/-- **Orderly calls build a log.** -/
theorem Orderly.exists_built? {calls : List (Call α)} (h : Orderly calls) :
    ∃ log, built? calls = some log := by
  induction calls using List.reverseRecOn with
  | nil => exact ⟨{}, rfl⟩
  | append_singleton calls c ih =>
      obtain ⟨log, hlog⟩ := ih (h.of_prefix (List.prefix_append _ _))
      rw [built?_concat, hlog]
      cases c with
      | record offset a => exact ⟨_, rfl⟩
      | forget first last =>
          rcases Nat.lt_or_ge last first with hlt | hle
          · -- the range is out of order, so nothing has been recorded
            have hempty := built?_of_no_record (h calls first last (List.prefix_refl _) hlt)
            obtain rfl := Option.some.inj (hlog.symm.trans hempty)
            exact ⟨_, forget?_empty first last⟩
          · exact ⟨_, log.forget?_of_le hle⟩

/-! ## 2. Live observations -/

/-- Does a call forget what was recorded at an offset? -/
def Call.forgets (offset : Nat) : Call α → Bool
  | .record .. => false
  | .forget first last => first ≤ offset && offset ≤ last

/-- **The observations that no later call forgets**, with their offsets, in the order of the calls
    that record them. -/
def live : List (Call α) → List (Nat × α)
  | [] => []
  | .record offset a :: later =>
    if later.any (Call.forgets offset) then live later else (offset, a) :: live later
  | .forget .. :: later => live later

/-- What later calls leave of the earlier observations comes before their own. -/
theorem live_append (calls later : List (Call α)) :
    live (calls ++ later) =
      (live calls).filter (fun e => !later.any (Call.forgets e.1)) ++ live later := by
  induction calls with
  | nil => rfl
  | cons c calls ih =>
      cases c with
      | record offset a =>
          rw [List.cons_append, live, live, List.any_append, ih]
          by_cases hcalls : calls.any (Call.forgets offset)
          · rw [if_pos hcalls, if_pos (by rw [hcalls]; rfl)]
          · rw [if_neg hcalls, List.filter_cons]
            by_cases hlater : later.any (Call.forgets offset) <;> simp [hcalls, hlater]
      | forget first last => exact ih

theorem live_concat_record (calls : List (Call α)) (offset : Nat) (a : α) :
    live (calls ++ [.record offset a]) = live calls ++ [(offset, a)] := by
  have hkept : (live calls).filter (fun e => !([Call.record offset a].any (Call.forgets e.1))) =
      live calls := List.filter_eq_self.mpr fun _ _ => rfl
  rw [live_append, hkept]
  rfl

theorem live_concat_forget (calls : List (Call α)) (first last : Nat) :
    live (calls ++ [.forget first last]) =
      (live calls).filter fun e => !(first ≤ e.1 && e.1 ≤ last) := by
  rw [live_append, live, live, List.append_nil]
  simp only [List.any_cons, List.any_nil, Bool.or_false, Call.forgets]

theorem length_live_le (calls : List (Call α)) : (live calls).length ≤ calls.length := by
  induction calls with
  | nil => exact Nat.le_refl _
  | cons c calls ih =>
      cases c with
      | record offset a =>
          rw [live]
          split
          · exact Nat.le_succ_of_le ih
          · exact Nat.succ_le_succ ih
      | forget first last => exact Nat.le_succ_of_le ih

/-- What a list has at an offset, in order. -/
def valuesOf (l : List (Nat × α)) (offset : Nat) : List α :=
  (l.filter fun e => e.1 == offset).map Prod.snd

theorem valuesOf_concat (l : List (Nat × α)) (offset : Nat) (a : α) (o : Nat) :
    valuesOf (l ++ [(offset, a)]) o = if o = offset then valuesOf l o ++ [a] else valuesOf l o := by
  unfold valuesOf
  rw [List.filter_append, List.map_append]
  split
  · next ho => rw [List.filter_cons_of_pos (by simpa using ho.symm)]; rfl
  · next ho =>
    rw [List.filter_cons_of_neg (by simpa using fun he => ho he.symm)]
    exact List.append_nil _

theorem valuesOf_outside (l : List (Nat × α)) (first last o : Nat) :
    valuesOf (l.filter fun e => !(first ≤ e.1 && e.1 ≤ last)) o =
      if first ≤ o ∧ o ≤ last then [] else valuesOf l o := by
  unfold valuesOf
  rw [filter_outside Prod.fst]
  split <;> rfl

/-- **No offset ever has more than 65536 live observations.** -/
def Roomy (calls : List (Call α)) : Prop :=
  ∀ before, before <+: calls → ∀ offset, (valuesOf (live before) offset).length ≤ 65536

theorem roomy_of_length_le {calls : List (Call α)} (h : calls.length ≤ 65536) : Roomy calls := by
  intro before hbefore offset
  calc (valuesOf (live before) offset).length
      ≤ (live before).length := by
        rw [valuesOf, List.length_map]
        exact List.length_filter_le _ _
    _ ≤ before.length := length_live_le before
    _ ≤ calls.length := hbefore.length_le
    _ ≤ 65536 := h

/-! ## 3. One offset -/

/-- **At each offset a log keeps the live observations of the calls**, as if these had just been
    recorded there one after the other. -/
structure Keeps (calls : List (Call α)) (log : ObservationLog α) : Prop where
  slotted : log.Slotted
  values : ∀ offset, log.valuesAt offset = keepAll [] (valuesOf (live calls) offset)

theorem Keeps.call? {calls : List (Call α)} {log log' : ObservationLog α} (h : Keeps calls log)
    {c : Call α} (hc : log.call? c = some log') : Keeps (calls ++ [c]) log' := by
  cases c with
  | record offset a =>
      obtain rfl := Option.some.inj hc
      refine ⟨h.slotted.record offset a, fun o => ?_⟩
      rw [h.slotted.valuesAt_record, h.values, live_concat_record, valuesOf_concat]
      split
      · rw [keepAll_concat]
      · rfl
  | forget first last =>
      obtain rfl := eq_forget_of_forget? hc
      refine ⟨h.slotted.forget first last, fun o => ?_⟩
      -- inside the range both sides start again from nothing, with all places free
      rw [valuesAt_forget, h.values, live_concat_forget, valuesOf_outside]
      split <;> rfl

theorem keeps_of_built? {calls : List (Call α)} {log : ObservationLog α}
    (h : built? calls = some log) : Keeps calls log := by
  induction calls using List.reverseRecOn generalizing log with
  | nil =>
      obtain rfl := Option.some.inj h
      exact ⟨slotted_empty, fun _ => rfl⟩
  | append_singleton calls c ih =>
      rw [built?_concat] at h
      obtain ⟨earlier, hearlier, hc⟩ := Option.bind_eq_some_iff.mp h
      exact (ih hearlier).call? hc

/-! ## 4. All offsets -/

theorem filter_eq_map_valuesOf (l : List (Nat × α)) (offset : Nat) :
    (l.filter fun e => e.1 == offset) = (valuesOf l offset).map (offset, ·) := by
  rw [valuesOf, List.map_map]
  refine (List.map_congr_left fun e he => ?_).trans (List.map_id _) |>.symm
  exact Prod.ext (beq_iff_eq.mp (List.mem_filter.mp he).2).symm rfl

/-- Lists that have the same at every offset have the same entries, each as often. -/
theorem perm_of_valuesOf_eq {l r : List (Nat × α)}
    (h : ∀ offset, valuesOf l offset = valuesOf r offset) : l.Perm r := by
  classical
  -- every copy of an entry stands at the offset of the entry
  refine List.perm_iff_count.mpr fun e => ?_
  rw [← List.count_filter (p := fun f => f.1 == e.1) (beq_self_eq_true e.1),
    ← List.count_filter (l := r) (p := fun f => f.1 == e.1) (beq_self_eq_true e.1),
    filter_eq_map_valuesOf, filter_eq_map_valuesOf, h]

/-- **A log lists these observations**: exactly them, by ascending offsets, and those of one offset
    in the order in which they are given. -/
structure Lists (log : ObservationLog α) (l : List (Nat × α)) : Prop where
  perm : log.toList.Perm l
  ascending : log.toList.Pairwise fun e f => e.1 ≤ f.1
  inOrder : ∀ offset, (log.toList.filter fun e => e.1 == offset) = l.filter fun e => e.1 == offset
  size : log.size = l.length

theorem Slotted.ascending {log : ObservationLog α} (h : log.Slotted) :
    log.toList.Pairwise fun e f => e.1 ≤ f.1 := by
  unfold toList
  refine List.pairwise_map.mpr (h.keyed.imp fun {e f} hlt => ?_)
  rcases rankCompare_pair_lt_iff.mp hlt with hlt | ⟨heq, _⟩
  · exact Nat.le_of_lt hlt
  · exact Nat.le_of_eq heq

theorem Slotted.lists {log : ObservationLog α} (h : log.Slotted) {l : List (Nat × α)}
    (hvalues : ∀ offset, log.valuesAt offset = valuesOf l offset) : log.Lists l := by
  have hsame : ∀ offset, valuesOf log.toList offset = valuesOf l offset := fun offset =>
    (log.filter_toList offset).trans (hvalues offset)
  have hperm : log.toList.Perm l := perm_of_valuesOf_eq hsame
  refine ⟨hperm, h.ascending, fun offset => ?_, ?_⟩
  · rw [filter_eq_map_valuesOf, filter_eq_map_valuesOf, hsame]
  · rw [← hperm.length_eq, toList, List.length_map, ObservationLog.size]

theorem Lists.valuesAt_eq {log : ObservationLog α} {l : List (Nat × α)} (h : log.Lists l)
    (offset : Nat) : log.valuesAt offset = valuesOf l offset := by
  rw [← log.filter_toList offset, h.inOrder, valuesOf]

/-- **Orderly calls always leave a log that lists what is live if and only if no offset ever has more
    of it than places.** -/
theorem built_lists_live {calls : List (Call α)} (h : Orderly calls) :
    Roomy calls ↔ ∀ before, before <+: calls →
      ∃ log, built? before = some log ∧ log.Lists (live before) := by
  constructor
  · intro hroomy before hbefore
    obtain ⟨log, hlog⟩ := (h.of_prefix hbefore).exists_built?
    have hkeeps := keeps_of_built? hlog
    refine ⟨log, hlog, hkeeps.slotted.lists fun offset => ?_⟩
    rw [hkeeps.values, keepAll_eq_append]
    · rfl
    · rw [List.length_nil, Nat.zero_add]
      exact hroomy before hbefore offset
  · intro hlists before hbefore offset
    obtain ⟨log, hlog, hlisted⟩ := hlists before hbefore
    rw [← hlisted.valuesAt_eq offset]
    exact (keeps_of_built? hlog).slotted.room offset

/-- Two instructions are visited again, one of them twice, and another one in between is not. -/
def revisited : List (Call String) :=
  [.record 4 "a", .record 4 "b", .record 9 "c", .forget 0 5, .record 4 "d", .record 2 "e",
    .forget 3 4, .record 4 "f", .record 4 "g"]

/-- What was recorded at the visits before the last one is gone. -/
theorem revisited_lists_live : Orderly revisited ∧ Roomy revisited ∧
    live revisited = [(9, "c"), (2, "e"), (4, "f"), (4, "g")] ∧
    ∃ log, built? revisited = some log ∧
      log.toList = [(2, "e"), (4, "f"), (4, "g"), (9, "c")] ∧ log.Lists (live revisited) := by
  have horderly : Orderly ([] ++ revisited) :=
    orderly_append (fun _ _ => List.not_mem_nil) (by decide)
  have hroomy : Roomy revisited := roomy_of_length_le (by decide)
  obtain ⟨log, hlog, hlists⟩ :=
    (built_lists_live horderly).mp hroomy revisited (List.prefix_refl _)
  refine ⟨horderly, hroomy, by decide, log, hlog, ?_, hlists⟩
  have hbuilt : built? revisited = some ⟨[((2, 0), "e"), ((4, 0), "f"), ((4, 1), "g"), ((9, 0), "c")]⟩ := by
    decide
  obtain rfl := Option.some.inj (hlog.symm.trans hbuilt)
  rfl

end ObservationLog

end ReflectionFlow

/-
  File:      ReflectionFlow/Proofs/Scan/Versions.lean
  Subject:   The arrays that a state holds, and what becomes of them when one is stored into.

  A state holds arrays as values, so one array of the program may be held in several versions.  A
  read merges them, in the order in which they are found, which does not matter: it admits what any
  of them admits.  A store merges them, stores into the result and puts it in the place of every
  version; what was not stored to is read as before.

  * `Scanner.unites_mergeVersions?`, `Scanner.mergeVersions?_any_order`   one array for several
  * `State.Holds`, `State.mem_versions_iff`       the arrays of a state
  * `Variables.get_update`, `State.get_replaceArray`   replacing, variable by variable
  * `State.holds_replaceArray`                    the arrays after a replacement
  * `Scanner.admits_read_element`                 reading several versions
-/
import ReflectionFlow.Proofs.Scan.WellFormed
import ReflectionFlow.Proofs.Value.Arrays

namespace ReflectionFlow

open SetOf

/-! ## 1. One array for several -/

namespace ArrayOf

/-- **One array for several versions**: a read admits what one of them admits. -/
structure Unites (a : ArrayValue) (site : Site) (versions : List ArrayValue) : Prop where
  site : a.site = site
  keyed : a.Keyed
  element : ∀ i w, (a.element i).Admits w ↔ ∃ b ∈ versions, (b.element i).Admits w

end ArrayOf

namespace Scanner

theorem mergeVersions?_eq_none {versions : List ArrayValue} :
    mergeVersions? versions = none ↔ versions = [] := by
  cases versions with
  | nil => exact ⟨fun _ => rfl, fun _ => rfl⟩
  | cons a rest => exact ⟨nofun, nofun⟩

/-- **Merged versions unite them.** -/
theorem unites_mergeVersions? {versions : List ArrayValue} {site : Site}
    (hsite : ∀ a ∈ versions, a.site = site) (hkeyed : ∀ a ∈ versions, a.Keyed)
    {a : ArrayValue} (ha : mergeVersions? versions = some a) : a.Unites site versions := by
  cases versions with
  | nil => cases ha
  | cons b rest =>
      obtain rfl := Option.some.inj ha
      clear ha
      induction rest generalizing b with
      | nil =>
          refine ⟨hsite b List.mem_cons_self, hkeyed b List.mem_cons_self, fun i w => ?_⟩
          simp only [List.mem_singleton, exists_eq_left, List.foldl_nil]
      | cons c rest ih =>
          have hb := hkeyed b List.mem_cons_self
          have hfirst : (b.merge c).site = site :=
            (ArrayOf.site_merge b c).trans (hsite b List.mem_cons_self)
          have hmerged := ih (b.merge c)
            (fun d hd => (List.mem_cons.mp hd).elim (fun e => e ▸ hfirst) fun hd =>
              hsite d (List.mem_cons_of_mem _ (List.mem_cons_of_mem _ hd)))
            (fun d hd => (List.mem_cons.mp hd).elim (fun e => e ▸ ArrayOf.keyed_merge hb) fun hd =>
              hkeyed d (List.mem_cons_of_mem _ (List.mem_cons_of_mem _ hd)))
          refine ⟨hmerged.site, hmerged.keyed, fun i w => ?_⟩
          rw [List.foldl_cons, hmerged.element i w]
          simp only [List.mem_cons, exists_eq_or_imp, ArrayOf.admits_element_merge hb, or_assoc]

theorem mergeVersions?_map {site : Site} (a : ArrayOf.Version site) (l : List (ArrayOf.Version site)) :
    mergeVersions? ((a :: l).map ArrayOf.Version.array) = some (l.foldl (· ⊔ ·) a).array := by
  have hfold : l.foldl (fun b c => ArrayOf.merge b c.array) a.array = (l.foldl (· ⊔ ·) a).array :=
    List.foldl_hom ArrayOf.Version.array fun _ _ => rfl
  rw [← hfold, ← List.foldl_map]
  rfl

/-- **The order in which versions are merged does not matter.**  Versions of the array of a site
    meet in either order and in any grouping, and a version that meets itself stays.  So one array
    for several versions depends on which they are, and not on the order in which they are listed
    or on how often. -/
theorem mergeVersions?_any_order {site : Site} {a b c : ArrayValue} (ha : a.VersionOf site)
    (hb : b.VersionOf site) (hc : c.VersionOf site) {versions listed : List ArrayValue}
    (hversions : ∀ v ∈ versions, v.VersionOf site) (hne : versions ≠ [])
    (hlisted : ∀ v, v ∈ listed ↔ v ∈ versions) :
    a.merge b = b.merge a ∧ (a.merge b).merge c = a.merge (b.merge c) ∧ a.merge a = a ∧
      ∃ merged, merged.VersionOf site ∧ mergeVersions? versions = some merged ∧
        mergeVersions? listed = some merged := by
  refine ⟨ha.merge_comm hb, ha.merge_assoc hb hc, a.merge_self, ?_⟩
  obtain ⟨l, rfl⟩ := ArrayOf.exists_versions hversions
  obtain ⟨m, rfl⟩ := ArrayOf.exists_versions fun v hv => hversions v ((hlisted v).mp hv)
  cases l with
  | nil => exact absurd rfl hne
  | cons x l =>
      cases m with
      | nil => exact absurd ((hlisted x.array).mpr List.mem_cons_self) List.not_mem_nil
      | cons y m =>
          have hsame : ∀ v, v ∈ x :: l ↔ v ∈ y :: m := by
            intro v
            have hinj : Function.Injective (@ArrayOf.Version.array site) := fun _ _ => ArrayOf.Version.ext
            have h := hlisted v.array
            rw [List.mem_map_of_injective hinj, List.mem_map_of_injective hinj] at h
            exact h.symm
          refine ⟨_, (l.foldl (· ⊔ ·) x).versionOf, mergeVersions?_map x l, ?_⟩
          rw [mergeVersions?_map, ArrayOf.foldl_sup_congr hsame]

/-- A version of two elements, stored into by one block. -/
def short : ArrayValue :=
  (ArrayOf.fresh ⟨⟨0x06000001⟩, 4⟩ (.single (.int 2))).store 0 (.single (.string "a")) 1 8

/-- A version of three elements, of which two are tracked. -/
def long : ArrayValue :=
  ((ArrayOf.fresh ⟨⟨0x06000001⟩, 4⟩ (.single (.int 3))).store 0 (.single (.string "b")) 2 8).store 1
    (.single .null) 2 8

/-- A version of unknown length. -/
def vague : ArrayValue :=
  (ArrayOf.fresh ⟨⟨0x06000001⟩, 4⟩ .unknown).store 0 (.single (.string "a")) 3 8

/-- Three versions of an array are merged into the same one when two of them are listed twice. -/
theorem short_any_order : mergeVersions? [short, long, vague] =
      mergeVersions? [vague, short, vague, long, short] ∧
    mergeVersions? [short, long, vague] = some ⟨⟨⟨0x06000001⟩, 4⟩, .unknown,
      [(0, ⟨⟨[.string "a", .string "b"]⟩, 3⟩)]⟩ := by
  have fresh : ∀ v : Value, (ArrayOf.fresh ⟨⟨0x06000001⟩, 4⟩ (.single v)).VersionOf _ := fun v =>
    ArrayOf.versionOf_fresh _ (canonical_single v)
  have hshort := (fresh (.int 2)).store 0 (.single (.string "a")) 1 8
  have hlong := ((fresh (.int 3)).store 0 (.single (.string "b")) 2 8).store 1 (.single .null) 2 8
  have hvague := (fresh .unknown).store 0 (.single (.string "a")) 3 8
  have hall : ∀ v ∈ [short, long, vague], v.VersionOf ⟨⟨0x06000001⟩, 4⟩ := by
    simp only [List.mem_cons, List.not_mem_nil, or_false, forall_eq_or_imp, forall_eq]
    exact ⟨hshort, hlong, hvague⟩
  have hlisted : ∀ v, v ∈ [vague, short, vague, long, short] ↔ v ∈ [short, long, vague] := by
    intro v
    simp only [List.mem_cons, List.not_mem_nil, or_false]
    tauto
  obtain ⟨_, _, _, merged, _, hone, hother⟩ :=
    mergeVersions?_any_order hshort hlong hvague hall (List.cons_ne_nil _ _) hlisted
  exact ⟨hone.trans hother.symm, by decide⟩

/-- The array after a store at an index. -/
def updated (sc : Scanner) (block : Nat) (index : Option Int32) (v : ValueSet) (a : ArrayValue) :
    ArrayValue :=
  match index with
  | some n => a.store n v block sc.context.config.maxTracked
  | none => a.cleared

theorem site_updated (sc : Scanner) (block : Nat) (index : Option Int32) (v : ValueSet)
    (a : ArrayValue) : (sc.updated block index v a).site = a.site := by
  cases index with
  | none => rfl
  | some n => exact ArrayOf.site_store a n v block _

theorem keyed_updated (sc : Scanner) (block : Nat) (index : Option Int32) (v : ValueSet)
    {a : ArrayValue} (ha : a.Keyed) : (sc.updated block index v a).Keyed := by
  cases index with
  | none => exact a.keyed_cleared
  | some n => exact ArrayOf.keyed_store ha n v block _

end Scanner

/-! ## 2. The arrays of a state -/

namespace State

variable {s : State} {a : ArrayValue} {site : Site}

/-- **The state holds an array**, on the stack or in a variable. -/
def Holds (s : State) (a : ArrayValue) : Prop := ∃ v ∈ s.sets, Value.array a ∈ v.members

/-- The list with the array of a value added, if it is one of the site and not there yet. -/
def withVersion (site : Site) (found : List ArrayValue) (v : Value) : List ArrayValue :=
  match v with
  | .array a => if a.site = site && !found.contains a then found ++ [a] else found
  | _ => found

theorem versions_eq (s : State) (site : Site) :
    s.versions site = (s.sets.flatMap SetOf.members).foldl (withVersion site) [] := rfl

theorem mem_withVersion {found : List ArrayValue} {v : Value} :
    a ∈ withVersion site found v ↔ a ∈ found ∨ a.site = site ∧ v = .array a := by
  cases v with
  | array b =>
      simp only [withVersion, Value.array.injEq]
      split
      · next h =>
        obtain ⟨hsite, _⟩ := Bool.and_eq_true_iff.mp h
        rw [List.mem_append, List.mem_singleton]
        refine or_congr_right ⟨?_, fun h => h.2.symm⟩
        rintro rfl
        exact ⟨of_decide_eq_true hsite, rfl⟩
      · next h =>
        refine ⟨.inl, ?_⟩
        rintro (ha | ⟨hsite, rfl⟩)
        · exact ha
        · simpa [hsite] using h
  | _ => simp only [withVersion, reduceCtorEq, and_false, or_false]

theorem mem_foldl_withVersion {l : List Value} {found : List ArrayValue} :
    a ∈ l.foldl (withVersion site) found ↔ a ∈ found ∨ a.site = site ∧ Value.array a ∈ l := by
  induction l generalizing found with
  | nil => simp
  | cons v l ih =>
      rw [List.foldl_cons, ih, mem_withVersion, or_assoc, ← and_or_left, List.mem_cons]
      simp only [eq_comm]

/-- **The versions of an array are the held arrays of its site.** -/
theorem mem_versions_iff : a ∈ s.versions site ↔ a.site = site ∧ s.Holds a := by
  rw [versions_eq, mem_foldl_withVersion]
  simp only [List.not_mem_nil, false_or, List.mem_flatMap, Holds]

end State

/-! ## 3. Replacing arrays -/

namespace Variables

variable {m : Variables} {f : ValueSet → Option ValueSet}

/-- One entry is rewritten. -/
def rewritten (f : ValueSet → Option ValueSet) (acc : Variables) (e : VarKey × ValueSet) :
    Variables :=
  match f e.2 with
  | some s => acc.set e.1 s
  | none => acc

theorem update_eq (m : Variables) (f : ValueSet → Option ValueSet) :
    m.update f = m.entries.foldl (rewritten f) m := rfl

theorem keyed_set (hm : m.entries.Keyed) (k : VarKey) (s : ValueSet) : (m.set k s).entries.Keyed := by
  unfold Variables.set
  dsimp only
  split
  · exact hm.erase k
  · exact hm.insert k s

theorem keyed_rewritten (hm : m.entries.Keyed) (e : VarKey × ValueSet) :
    (rewritten f m e).entries.Keyed := by
  unfold rewritten
  split
  · exact keyed_set hm _ _
  · exact hm

theorem default_rewritten (m : Variables) (e : VarKey × ValueSet) :
    (rewritten f m e).default = m.default := by
  unfold rewritten
  split <;> rfl

theorem get_rewritten (hm : m.entries.Keyed) (e : VarKey × ValueSet) (k : VarKey) :
    (rewritten f m e).get k = if k = e.1 then (f e.2).getD (m.get k) else m.get k := by
  unfold rewritten
  cases f e.2 with
  | none => simp only [Option.getD_none, ite_self]
  | some s => exact get_set hm e.1 k s

theorem get_foldl_rewritten_of_not_mem {l : List (VarKey × ValueSet)} (hm : m.entries.Keyed)
    {k : VarKey} (hk : ∀ e ∈ l, k ≠ e.1) : (l.foldl (rewritten f) m).get k = m.get k := by
  induction l generalizing m with
  | nil => rfl
  | cons e l ih =>
      rw [List.foldl_cons, ih (keyed_rewritten hm e) fun e he => hk e (List.mem_cons_of_mem _ he),
        get_rewritten hm, if_neg (hk e List.mem_cons_self)]

theorem get_foldl_rewritten {l : Assoc VarKey ValueSet} (hl : l.Keyed) (hm : m.entries.Keyed)
    {k : VarKey} {s : ValueSet} (hk : (k, s) ∈ l) :
    (l.foldl (rewritten f) m).get k = (f s).getD (m.get k) := by
  induction l generalizing m with
  | nil => cases hk
  | cons e l ih =>
      obtain ⟨he, hl⟩ := List.pairwise_cons.mp hl
      rw [List.foldl_cons]
      rcases List.mem_cons.mp hk with rfl | hk
      · rw [get_foldl_rewritten_of_not_mem (keyed_rewritten hm _) fun e' he' =>
          ne_of_rankCompare_lt (he e' he'), get_rewritten hm, if_pos rfl]
      · rw [ih hl (keyed_rewritten hm e) hk, get_rewritten hm,
          if_neg (ne_of_rankCompare_lt (he _ hk)).symm]

/-- **An update rewrites variable by variable**, as long as the default stays. -/
theorem get_update (hm : m.entries.Keyed) (hd : f m.default = none) (k : VarKey) :
    (m.update f).get k = (f (m.get k)).getD (m.get k) := by
  rw [update_eq]
  cases hk : m.entries.get? k with
  | none =>
      have hget : m.get k = m.default := by
        unfold Variables.get
        rw [hk]
        rfl
      rw [get_foldl_rewritten_of_not_mem hm, hget, hd, Option.getD_none]
      rintro ⟨j, s⟩ he rfl
      rw [hm.get?_of_mem he] at hk
      cases hk
  | some s =>
      have hget : m.get k = s := by
        unfold Variables.get
        rw [hk]
        rfl
      rw [get_foldl_rewritten hm hm (Assoc.mem_of_get? hk), hget]

end Variables

namespace State

variable {s : State} {a updated : ArrayValue} {versions : List ArrayValue} {v : ValueSet} {w : Value}

/-- The set in which arrays are replaced. -/
def replaced (versions : List ArrayValue) (updated : ArrayValue) (v : ValueSet) : ValueSet :=
  (replaceIn versions updated v).getD v

theorem isVersion_array : isVersion versions (.array a) = true ↔ a ∈ versions :=
  List.contains_iff_mem

theorem array_of_isVersion (h : isVersion versions w = true) : ∃ a ∈ versions, w = .array a := by
  cases w with
  | array a => exact ⟨a, isVersion_array.mp h, rfl⟩
  | _ => cases h

/-- **What is not replaced stays, and the new array comes in the place of the others.** -/
theorem mem_replaced (hv : v.isUnknown = true → v = .unknown) :
    w ∈ (replaced versions updated v).members ↔ (w ∈ v.members ∧ isVersion versions w = false) ∨
      (w = .array updated ∧ ∃ x ∈ v.members, isVersion versions x = true) := by
  unfold replaced replaceIn
  by_cases hany : v.members.any (isVersion versions) = true
  · rw [if_pos hany, Option.getD_some]
    obtain ⟨x, hx, hversion⟩ := List.any_eq_true.mp hany
    -- a set with an array is not unknown, so nothing is absorbed
    have hknown : Value.unknown ∉ v.members := by
      intro hu
      rw [hv (isUnknown_iff.mpr hu)] at hx
      rw [List.mem_singleton.mp hx] at hversion
      cases hversion
    have hkept : Value.unknown ∉ v.members.filter fun y => !isVersion versions y := fun hu =>
      hknown (List.mem_filter.mp hu).1
    have hinsert := mem_insert (w := w) (isUnknown_ofList_eq_false hkept)
      (show (Value.array updated).isUnknown = false from rfl)
    refine hinsert.trans ?_
    rw [show w ∈ SetOf.ofList (v.members.filter fun y => !isVersion versions y) ↔ _ from
      mem_ofList hkept, List.mem_filter, or_comm, Bool.not_eq_true']
    exact or_congr_right ⟨fun h => ⟨h, x, hx, hversion⟩, fun h => h.1⟩
  · rw [if_neg hany, Option.getD_none]
    have hnone : ∀ x ∈ v.members, isVersion versions x = false := by
      intro x hx
      cases hversion : isVersion versions x with
      | false => rfl
      | true => exact absurd (List.any_eq_true.mpr ⟨x, hx, hversion⟩) hany
    constructor
    · exact fun hw => .inl ⟨hw, hnone w hw⟩
    · rintro (⟨hw, _⟩ | ⟨_, x, hx, hversion⟩)
      · exact hw
      · rw [hnone x hx] at hversion
        cases hversion

theorem fromTop_replaceArray (s : State) (versions : List ArrayValue) (updated : ArrayValue) :
    (s.replaceArray versions updated).stack.fromTop =
      s.stack.fromTop.map (replaced versions updated) := by
  obtain ⟨vars, stack⟩ := s
  cases stack with
  | top => rfl
  | slots l => rfl

/-- **A replacement acts on every variable.** -/
theorem get_replaceArray (hk : s.vars.entries.Keyed) (hd : s.vars.default = .unknown) (k : VarKey) :
    (s.replaceArray versions updated).vars.get k = replaced versions updated (s.vars.get k) := by
  refine Variables.get_update hk ?_ k
  rw [hd]
  rfl

/-- A replacement keeps the keys in order and the default. -/
theorem keyed_replaceArray (hk : s.vars.entries.Keyed) (versions : List ArrayValue)
    (updated : ArrayValue) : (s.replaceArray versions updated).vars.entries.Keyed ∧
      (s.replaceArray versions updated).vars.default = s.vars.default := by
  unfold replaceArray
  rw [Variables.update_eq]
  refine List.foldlRecOn (motive := fun acc : Variables =>
    acc.entries.Keyed ∧ acc.default = s.vars.default) _ _ ⟨hk, rfl⟩ fun acc hacc e _ => ?_
  exact ⟨Variables.keyed_rewritten hacc.1 e, (Variables.default_rewritten acc e).trans hacc.2⟩

theorem holds_iff (hk : s.vars.entries.Keyed) (hd : s.vars.default = .unknown) : s.Holds a ↔
    (∃ v ∈ s.stack.fromTop, Value.array a ∈ v.members) ∨
      ∃ k, Value.array a ∈ (s.vars.get k).members := by
  unfold Holds sets
  constructor
  · rintro ⟨v, hv, ha⟩
    rcases List.mem_append.mp hv with hv | hv
    · exact .inl ⟨v, List.mem_reverse.mp hv, ha⟩
    · obtain ⟨⟨k, v⟩, he, rfl⟩ := List.mem_map.mp hv
      refine .inr ⟨k, ?_⟩
      unfold Variables.get
      rw [hk.get?_of_mem he]
      exact ha
  · rintro (⟨v, hv, ha⟩ | ⟨k, ha⟩)
    · exact ⟨v, List.mem_append_left _ (List.mem_reverse.mpr hv), ha⟩
    · unfold Variables.get at ha
      cases he : s.vars.entries.get? k with
      | none =>
          rw [he, Option.getD_none, hd] at ha
          cases List.mem_singleton.mp ha
      | some v =>
          rw [he] at ha
          have hv := List.mem_map_of_mem (f := Prod.snd) (Assoc.mem_of_get? he)
          exact ⟨v, List.mem_append_right _ hv, ha⟩

theorem WellFormed.holds_iff (hs : s.WellFormed) : s.Holds a ↔
    (∃ v ∈ s.stack.fromTop, Value.array a ∈ v.members) ∨
      ∃ k, Value.array a ∈ (s.vars.get k).members :=
  State.holds_iff hs.vars.keyed hs.default

/-- The arrays of a set after a replacement. -/
theorem array_mem_replaced (hv : v.isUnknown = true → v = .unknown) :
    Value.array a ∈ (replaced versions updated v).members ↔
      (Value.array a ∈ v.members ∧ a ∉ versions) ∨
        (a = updated ∧ ∃ b ∈ versions, Value.array b ∈ v.members) := by
  rw [mem_replaced hv, Value.array.injEq, ← Bool.not_eq_true, isVersion_array]
  refine or_congr_right (and_congr_right fun _ => ⟨?_, ?_⟩)
  · rintro ⟨x, hx, hversion⟩
    obtain ⟨b, hb, rfl⟩ := array_of_isVersion hversion
    exact ⟨b, hb, hx⟩
  · rintro ⟨b, hb, hx⟩
    exact ⟨_, hx, isVersion_array.mpr hb⟩

/-- **The arrays of a state after a replacement.** -/
theorem WellFormed.holds_replaceArray (hs : s.WellFormed) :
    (s.replaceArray versions updated).Holds a ↔
      (s.Holds a ∧ a ∉ versions) ∨ (a = updated ∧ ∃ b ∈ versions, s.Holds b) := by
  obtain ⟨hkeyed, hdefault⟩ := keyed_replaceArray hs.vars.keyed versions updated
  rw [State.holds_iff hkeyed (hdefault.trans hs.default), hs.holds_iff, fromTop_replaceArray]
  simp only [List.mem_map, exists_exists_and_eq_and,
    get_replaceArray hs.vars.keyed hs.default, hs.holds_iff]
  constructor
  · rintro (⟨v, hv, ha⟩ | ⟨k, ha⟩)
    · rcases (array_mem_replaced (hs.slots v hv).absorbing).mp ha with ⟨ha, hnot⟩ | ⟨rfl, b, hb, hx⟩
      · exact .inl ⟨.inl ⟨v, hv, ha⟩, hnot⟩
      · exact .inr ⟨rfl, b, hb, .inl ⟨v, hv, hx⟩⟩
    · rcases (array_mem_replaced (hs.get k).absorbing).mp ha with ⟨ha, hnot⟩ | ⟨rfl, b, hb, hx⟩
      · exact .inl ⟨.inr ⟨k, ha⟩, hnot⟩
      · exact .inr ⟨rfl, b, hb, .inr ⟨k, hx⟩⟩
  · rintro (⟨⟨v, hv, ha⟩ | ⟨k, ha⟩, hnot⟩ | ⟨rfl, b, hb, ⟨v, hv, hx⟩ | ⟨k, hx⟩⟩)
    · exact .inl ⟨v, hv, (array_mem_replaced (hs.slots v hv).absorbing).mpr (.inl ⟨ha, hnot⟩)⟩
    · exact .inr ⟨k, (array_mem_replaced (hs.get k).absorbing).mpr (.inl ⟨ha, hnot⟩)⟩
    · exact .inl ⟨v, hv, (array_mem_replaced (hs.slots v hv).absorbing).mpr (.inr ⟨rfl, b, hb, hx⟩)⟩
    · exact .inr ⟨k, (array_mem_replaced (hs.get k).absorbing).mpr (.inr ⟨rfl, b, hb, hx⟩)⟩

end State

/-! ## 4. Reading -/

namespace Scanner

variable {sc : Scanner} {s : State}

theorem read_element (s : State) (site : Site) (i : Int32) :
    sc.read s (.element site (some i)) = match mergeVersions? (s.versions site) with
      | some a => a.element i
      | none => .unknown := by
  simp only [read]
  cases mergeVersions? (s.versions site) <;> rfl

/-- **A read of an element admits what a held version admits**, and anything if none is held. -/
theorem admits_read_element (hs : ∀ a, s.Holds a → a.Keyed) {site : Site} {i : Int32} {w : Value} :
    (sc.read s (.element site (some i))).Admits w ↔
      (∀ a, s.Holds a → a.site ≠ site) ∨
        ∃ a, s.Holds a ∧ a.site = site ∧ (a.element i).Admits w := by
  rw [read_element]
  cases hmerged : mergeVersions? (s.versions site) with
  | none =>
      have hnone := mergeVersions?_eq_none.mp hmerged
      refine ⟨fun _ => .inl fun a ha hsite => ?_, fun _ => admits_unknown w⟩
      have hmem : a ∈ s.versions site := State.mem_versions_iff.mpr ⟨hsite, ha⟩
      rw [hnone] at hmem
      cases hmem
  | some a =>
      have hunites := unites_mergeVersions? (fun b hb => (State.mem_versions_iff.mp hb).1)
        (fun b hb => hs b (State.mem_versions_iff.mp hb).2) hmerged
      refine (hunites.element i w).trans ⟨?_, ?_⟩
      · rintro ⟨b, hb, hw⟩
        obtain ⟨hsite, hheld⟩ := State.mem_versions_iff.mp hb
        exact .inr ⟨b, hheld, hsite, hw⟩
      · rintro (hnone | ⟨b, hheld, hsite, hw⟩)
        · have hempty : s.versions site = [] := List.eq_nil_iff_forall_not_mem.mpr fun b hb =>
            hnone b (State.mem_versions_iff.mp hb).2 (State.mem_versions_iff.mp hb).1
          rw [hempty] at hmerged
          cases hmerged
        · exact ⟨b, State.mem_versions_iff.mpr ⟨hsite, hheld⟩, hw⟩

end Scanner

end ReflectionFlow

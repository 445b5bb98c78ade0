/-
  File:      ReflectionFlow/Proofs/State/Order.lean
  Subject:   States variable by variable and slot by slot.

  What a state knows is read off with two look-ups: the values of a variable, and the values of
  a stack slot counted from the top, where a missing slot is unknown.  Meet is union under both,
  also for variables that are not stored and for stacks of different depths.

  * `State.Over`             maps are tidy, and all sets of a state satisfy a condition
  * `State.get_meet`, `Stack.getElem?_meetSlots`
  * `State.Covers`           the order of states; `State.Covers.antisymm`, `State.meetOrder`
-/
import ReflectionFlow.Proofs.Flow.Descent
import ReflectionFlow.Proofs.Value.Sets
import ReflectionFlow.State.Basic

namespace ReflectionFlow

/-! ## 1. Variables -/

namespace Variables

/-- **Tidy maps**: keys ascend, no entry equals the default, and all sets satisfy a condition. -/
structure Over (Q : ValueSet → Prop) (m : Variables) : Prop where
  keyed : m.entries.Keyed
  sparse : ∀ e ∈ m.entries, e.2 ≠ m.default
  default : Q m.default
  entries : ∀ e ∈ m.entries, Q e.2

variable {Q : ValueSet → Prop} {m n : Variables}

theorem over_ofDefault {s : ValueSet} (hs : Q s) : (ofDefault s).Over Q :=
  ⟨List.Pairwise.nil, fun _ h => absurd h List.not_mem_nil, hs,
    fun _ h => absurd h List.not_mem_nil⟩

theorem Over.mono {Q' : ValueSet → Prop} (h : ∀ s, Q s → Q' s) (hm : m.Over Q) : m.Over Q' :=
  ⟨hm.keyed, hm.sparse, h _ hm.default, fun e he => h _ (hm.entries e he)⟩

theorem Over.get (hm : m.Over Q) (k : VarKey) : Q (m.get k) := by
  unfold Variables.get
  cases hk : m.entries.get? k with
  | none => exact hm.default
  | some s => exact hm.entries _ (Assoc.mem_of_get? hk)

@[simp]
theorem get_ofDefault (s : ValueSet) (k : VarKey) : (ofDefault s).get k = s := rfl

theorem get_of_not_mem {k : VarKey} (h : k ∉ m.entries.map Prod.fst) : m.get k = m.default := by
  have hnone : m.entries.get? k = none := by
    refine Assoc.get?_eq_none fun e he hek => h ?_
    rw [← hek]
    exact List.mem_map_of_mem he
  unfold Variables.get
  rw [hnone]
  rfl

/-- **Reading a variable after a store.** -/
theorem get_set (hm : m.entries.Keyed) (k j : VarKey) (s : ValueSet) :
    (m.set k s).get j = if j = k then s else m.get j := by
  unfold Variables.get Variables.set
  by_cases hs : s = m.default
  · rw [if_pos hs]
    by_cases hj : j = k
    · subst hj
      rw [if_pos rfl, Assoc.get?_erase_self, hs]
      rfl
    · rw [if_neg hj, hm.get?_erase_of_ne hj]
  · rw [if_neg hs]
    by_cases hj : j = k
    · subst hj
      rw [if_pos rfl, Assoc.get?_insert_self]
      rfl
    · rw [if_neg hj, Assoc.get?_insert_of_ne _ _ hj]

@[simp]
theorem default_set (m : Variables) (k : VarKey) (s : ValueSet) : (m.set k s).default = m.default :=
  rfl

theorem Over.set (hm : m.Over Q) (k : VarKey) {s : ValueSet} (hs : Q s) : (m.set k s).Over Q := by
  by_cases hd : s = m.default
  · have heq : (m.set k s).entries = m.entries.erase k := if_pos hd
    refine ⟨?_, fun e he => ?_, hm.default, fun e he => ?_⟩
    · rw [heq]
      exact hm.keyed.erase k
    · rw [heq] at he
      exact hm.sparse e (Assoc.mem_erase.mp he).1
    · rw [heq] at he
      exact hm.entries e (Assoc.mem_erase.mp he).1
  · have heq : (m.set k s).entries = m.entries.insert k s := if_neg hd
    refine ⟨?_, fun e he => ?_, hm.default, fun e he => ?_⟩
    · rw [heq]
      exact hm.keyed.insert k s
    · rw [heq] at he
      rcases Assoc.mem_of_mem_insert he with rfl | he
      · exact hd
      · exact hm.sparse e he
    · rw [heq] at he
      rcases Assoc.mem_of_mem_insert he with rfl | he
      · exact hs
      · exact hm.entries e he

theorem Over.foldl_set (hm : m.Over Q) {F : VarKey → ValueSet} (hF : ∀ k, Q (F k))
    (keys : List VarKey) : (keys.foldl (fun acc k => acc.set k (F k)) m).Over Q :=
  List.foldlRecOn (motive := Over Q) keys _ hm fun _ h k _ => h.set k (hF k)

theorem get_foldl_set {F : VarKey → ValueSet} (hm : m.Over Q) (hF : ∀ k, Q (F k))
    (keys : List VarKey) (j : VarKey) :
    (keys.foldl (fun acc k => acc.set k (F k)) m).get j = if j ∈ keys then F j else m.get j := by
  induction keys generalizing m with
  | nil => rfl
  | cons k keys ih =>
      rw [List.foldl_cons, ih (hm.set k (hF k)), get_set hm.keyed]
      by_cases hj : j ∈ keys
      · rw [if_pos hj, if_pos (List.mem_cons_of_mem k hj)]
      · rw [if_neg hj]
        by_cases hk : j = k
        · rw [if_pos hk, if_pos (hk ▸ List.mem_cons_self), hk]
        · rw [if_neg hk, if_neg fun h => (List.mem_cons.mp h).elim hk hj]

theorem Over.update {f : ValueSet → Option ValueSet} (hm : m.Over Q)
    (hf : ∀ s s', Q s → f s = some s' → Q s') :
    (m.update f).Over Q ∧ (m.update f).default = m.default := by
  unfold Variables.update
  refine List.foldlRecOn (motive := fun acc : Variables => acc.Over Q ∧ acc.default = m.default)
    m.entries _ ⟨hm, rfl⟩ fun acc hacc e he => ?_
  cases hs : f e.2 with
  | none => exact hacc
  | some s => exact ⟨hacc.1.set e.1 (hf _ _ (hm.entries e he) hs), hacc.2⟩

theorem default_foldl_set (m : Variables) (F : VarKey → ValueSet) (keys : List VarKey) :
    (keys.foldl (fun acc k => acc.set k (F k)) m).default = m.default :=
  List.foldlRecOn (motive := fun acc : Variables => acc.default = m.default) keys _ rfl fun _ h _ _ => h

theorem Over.meet (hQ : ∀ s t, Q s → Q t → Q (s.merge t)) (hm : m.Over Q) (hn : n.Over Q) :
    (m.meet n).Over Q := by
  unfold Variables.meet
  split
  · exact hm
  · exact (over_ofDefault (hQ _ _ hm.default hn.default)).foldl_set
      (fun k => hQ _ _ (hm.get k) (hn.get k)) _

/-- **Meet is union, variable by variable.** -/
theorem get_meet (hm : m.Over SetOf.Canonical) (hn : n.Over SetOf.Canonical) (k : VarKey) :
    (m.meet n).get k = (m.get k).merge (n.get k) := by
  unfold Variables.meet
  by_cases heq : m = n
  · subst heq
    rw [if_pos rfl, (hm.get k).merge_self]
  · rw [if_neg heq, get_foldl_set (over_ofDefault (hm.default.merge hn.default))
      fun k => (hm.get k).merge (hn.get k)]
    by_cases hk : k ∈ (m.entries ++ n.entries).map Prod.fst
    · rw [if_pos hk]
    · rw [if_neg hk, get_ofDefault]
      rw [List.map_append, List.mem_append, not_or] at hk
      rw [get_of_not_mem hk.1, get_of_not_mem hk.2]

theorem default_meet (hm : m.default.Canonical) : (m.meet n).default = m.default.merge n.default := by
  unfold Variables.meet
  by_cases heq : m = n
  · subst heq
    rw [if_pos rfl, hm.merge_self]
  · rw [if_neg heq, default_foldl_set]
    rfl

/-- **Tidy maps that read the same are equal.** -/
theorem Over.ext (hm : m.Over Q) (hn : n.Over Q) (hd : m.default = n.default)
    (h : ∀ k, m.get k = n.get k) : m = n := by
  have hget : ∀ {m : Variables}, m.Over Q → ∀ k,
      m.entries.get? k = if m.get k = m.default then none else some (m.get k) := by
    intro m hm k
    unfold Variables.get
    cases hk : m.entries.get? k with
    | none => exact (if_pos rfl).symm
    | some s => exact (if_neg (hm.sparse _ (Assoc.mem_of_get? hk))).symm
  have hent : m.entries = n.entries := by
    refine hm.keyed.ext hn.keyed fun k => ?_
    rw [hget hm, hget hn, h, hd]
  obtain ⟨d, e⟩ := m
  obtain ⟨d', e'⟩ := n
  exact congr (congrArg Variables.mk hd) hent

/-- One map covers another if it does so for every variable and by default. -/
structure Covers (m n : Variables) : Prop where
  default : m.default.Covers n.default
  get : ∀ k, (m.get k).Covers (n.get k)

theorem Covers.refl (m : Variables) : m.Covers m := ⟨.refl _, fun _ => .refl _⟩

theorem Covers.trans {p : Variables} (h₁ : m.Covers n) (h₂ : n.Covers p) : m.Covers p :=
  ⟨h₁.default.trans h₂.default, fun k => (h₁.get k).trans (h₂.get k)⟩

theorem Covers.set (hm : m.entries.Keyed) (hn : n.entries.Keyed) (h : m.Covers n) (k : VarKey)
    {s t : ValueSet} (hs : s.Covers t) : (m.set k s).Covers (n.set k t) := by
  refine ⟨h.default, fun j => ?_⟩
  rw [get_set hm, get_set hn]
  split
  · exact hs
  · exact h.get j

theorem Covers.antisymm (hm : m.Over SetOf.Canonical) (hn : n.Over SetOf.Canonical)
    (h₁ : m.Covers n) (h₂ : n.Covers m) : m = n :=
  hm.ext hn (h₁.default.antisymm hm.default hn.default h₂.default) fun k =>
    (h₁.get k).antisymm (hm.get k) (hn.get k) (h₂.get k)

end Variables

/-! ## 2. Stacks -/

namespace Stack

/-- **Slots meet from the top**, and the deeper stack decides the depth. -/
theorem getElem?_meetSlots (a b : List ValueSet) (i : Nat) :
    (meetSlots a b)[i]? = if i < max a.length b.length then
      some ((a[i]?.getD .unknown).merge (b[i]?.getD .unknown)) else none := by
  induction a, b using meetSlots.induct generalizing i with
  | case1 q =>
      by_cases hi : i < q.length
      · simp [meetSlots, hi]
      · simp [meetSlots, hi]
  | case2 r =>
      by_cases hi : i < r.length
      · simp [meetSlots, hi]
      · simp [meetSlots, hi]
  | case3 x r y q ih =>
      cases i with
      | zero => simp [meetSlots]
      | succ i =>
          simp only [meetSlots, List.getElem?_cons_succ, ih, List.length_cons]
          have : i < max r.length q.length ↔ i + 1 < max (r.length + 1) (q.length + 1) := by omega
          simp only [this]

theorem length_meetSlots (a b : List ValueSet) :
    (meetSlots a b).length = max a.length b.length := by
  induction a, b using meetSlots.induct with
  | case1 q => simp [meetSlots]
  | case2 r => simp [meetSlots]
  | case3 x r y q ih => simp only [meetSlots, List.length_cons, ih]; omega

theorem depth_meet (s t : Stack) : (s.meet t).depth = max s.depth t.depth := by
  cases s with
  | top => exact (Nat.zero_max _).symm
  | slots a =>
      cases t with
      | top => exact (Nat.max_zero _).symm
      | slots b => exact length_meetSlots a b

/-- One stack covers another: it is at least as deep and does so slot by slot.  Every stack
    covers the one that is not there yet. -/
def Covers : Stack → Stack → Prop
  | _, .top => True
  | .top, .slots _ => False
  | .slots a, .slots b =>
    b.length ≤ a.length ∧ ∀ i : Nat, (a[i]?.getD .unknown).Covers (b[i]?.getD .unknown)

theorem Covers.refl (s : Stack) : s.Covers s := by
  cases s with
  | top => trivial
  | slots a => exact ⟨Nat.le_refl _, fun _ => .refl _⟩

theorem Covers.trans {s t u : Stack} (h₁ : s.Covers t) (h₂ : t.Covers u) : s.Covers u := by
  cases u with
  | top => trivial
  | slots c =>
      cases t with
      | top => exact absurd h₂ id
      | slots b =>
          cases s with
          | top => exact absurd h₁ id
          | slots a => exact ⟨Nat.le_trans h₂.1 h₁.1, fun i => (h₁.2 i).trans (h₂.2 i)⟩

theorem Covers.depth_le {s t : Stack} (h : s.Covers t) : t.depth ≤ s.depth := by
  cases t with
  | top => exact Nat.zero_le _
  | slots b =>
      cases s with
      | top => exact absurd h id
      | slots a => exact h.1

theorem meetSlots_covers_left (a b : List ValueSet) :
    (slots (meetSlots a b)).Covers (slots a) := by
  refine ⟨?_, fun i => ?_⟩
  · rw [length_meetSlots]
    exact Nat.le_max_left _ _
  · rw [getElem?_meetSlots]
    split
    · exact SetOf.merge_covers_left _ _
    · exact SetOf.unknown_covers _

theorem meetSlots_covers_right (a b : List ValueSet) :
    (slots (meetSlots a b)).Covers (slots b) := by
  refine ⟨?_, fun i => ?_⟩
  · rw [length_meetSlots]
    exact Nat.le_max_right _ _
  · rw [getElem?_meetSlots]
    split
    · exact SetOf.merge_covers_right _ _
    · exact SetOf.unknown_covers _

theorem meet_covers_left (s t : Stack) : (s.meet t).Covers s := by
  cases s with
  | top => cases t <;> trivial
  | slots a =>
      cases t with
      | top => exact .refl _
      | slots b => exact meetSlots_covers_left a b

theorem meet_covers_right (s t : Stack) : (s.meet t).Covers t := by
  cases t with
  | top => cases s <;> trivial
  | slots b =>
      cases s with
      | top => exact .refl _
      | slots a => exact meetSlots_covers_right a b

theorem Covers.meetSlots {a b a' b' : List ValueSet} (ha : (slots a).Covers (slots a'))
    (hb : (slots b).Covers (slots b')) :
    (slots (meetSlots a b)).Covers (slots (meetSlots a' b')) := by
  refine ⟨?_, fun i => ?_⟩
  · rw [length_meetSlots, length_meetSlots]
    have h₁ := ha.1
    have h₂ := hb.1
    omega
  · rw [getElem?_meetSlots, getElem?_meetSlots]
    by_cases hi : i < max a.length b.length
    · rw [if_pos hi]
      by_cases hi' : i < max a'.length b'.length
      · rw [if_pos hi']
        exact (ha.2 i).merge (hb.2 i)
      · -- both covered stacks end above the slot
        rw [if_neg hi']
        have hlen : a'.length ≤ i := by omega
        have hu := ha.2 i
        rw [List.getElem?_eq_none hlen] at hu
        exact (SetOf.merge_covers_left _ _).trans hu
    · rw [if_neg hi]
      exact SetOf.unknown_covers _

theorem Covers.meet {s s' t t' : Stack} (hs : s.Covers s') (ht : t.Covers t') :
    (s.meet t).Covers (s'.meet t') := by
  cases s' with
  | top =>
      cases t' with
      | top => trivial
      | slots b' => exact (meet_covers_right s t).trans ht
  | slots a' =>
      cases t' with
      | top => exact (meet_covers_left s t).trans hs
      | slots b' =>
          cases s with
          | top => exact absurd hs id
          | slots a =>
              cases t with
              | top => exact absurd ht id
              | slots b => exact hs.meetSlots ht

theorem Covers.antisymm {s t : Stack} (hs : ∀ v ∈ s.fromTop, v.Canonical)
    (ht : ∀ v ∈ t.fromTop, v.Canonical) (h₁ : s.Covers t) (h₂ : t.Covers s) : s = t := by
  cases s with
  | top =>
      cases t with
      | top => rfl
      | slots b => exact absurd h₁ id
  | slots a =>
      cases t with
      | top => exact absurd h₂ id
      | slots b =>
          refine congrArg Stack.slots (List.ext_getElem (Nat.le_antisymm h₂.1 h₁.1) ?_)
          intro i hi hi'
          have h := h₁.2 i
          have h' := h₂.2 i
          rw [List.getElem?_eq_getElem hi, List.getElem?_eq_getElem hi'] at h h'
          exact SetOf.Covers.antisymm (hs _ (List.getElem_mem hi)) (ht _ (List.getElem_mem hi')) h h'

end Stack

/-! ## 3. States -/

namespace State

/-- **Tidy states** all of whose sets satisfy a condition. -/
structure Over (Q : ValueSet → Prop) (s : State) : Prop where
  vars : s.vars.Over Q
  slots : ∀ v ∈ s.stack.fromTop, Q v

variable {Q : ValueSet → Prop} {s t : State}

theorem Over.mono {Q' : ValueSet → Prop} (h : ∀ s, Q s → Q' s) (hs : s.Over Q) : s.Over Q' :=
  ⟨hs.vars.mono h, fun v hv => h v (hs.slots v hv)⟩

theorem over_top (hQ : Q .empty) : top.Over Q :=
  ⟨Variables.over_ofDefault hQ, fun _ h => absurd h List.not_mem_nil⟩

theorem eq_top_of_isTop (h : s.isTop = true) : s = top := by
  obtain ⟨⟨⟨d⟩, e⟩, k⟩ := s
  obtain ⟨hk, hv⟩ := (Bool.and_eq_true _ _).mp h
  obtain ⟨hd, he⟩ := (Bool.and_eq_true _ _).mp hv
  obtain rfl := List.isEmpty_iff.mp he
  obtain rfl : d = [] := List.isEmpty_iff.mp hd
  cases k with
  | top => rfl
  | slots l => cases hk

theorem over_meetSlots (hQ : ∀ s t, Q s → Q t → Q (s.merge t)) (hu : Q .unknown)
    {a b : List ValueSet} (ha : ∀ v ∈ a, Q v) (hb : ∀ v ∈ b, Q v) :
    ∀ v ∈ Stack.meetSlots a b, Q v := by
  have hslot : ∀ {l : List ValueSet}, (∀ v ∈ l, Q v) → ∀ i : Nat, Q (l[i]?.getD .unknown) := by
    intro l hl i
    cases hi : l[i]? with
    | none => exact hu
    | some v => exact hl v (List.mem_of_getElem? hi)
  intro v hv
  obtain ⟨i, hi⟩ := List.getElem?_of_mem hv
  rw [Stack.getElem?_meetSlots] at hi
  split at hi
  · obtain rfl := Option.some.inj hi
    exact hQ _ _ (hslot ha i) (hslot hb i)
  · cases hi

theorem Over.meet (hQ : ∀ s t, Q s → Q t → Q (s.merge t)) (hu : Q .unknown) (hs : s.Over Q)
    (ht : t.Over Q) : (s.meet t).Over Q := by
  unfold State.meet
  split
  · exact ht
  · split
    · exact hs
    · refine ⟨hs.vars.meet hQ ht.vars, ?_⟩
      obtain ⟨_, k⟩ := s
      obtain ⟨_, l⟩ := t
      cases k with
      | top => exact ht.slots
      | slots a =>
          cases l with
          | top => exact hs.slots
          | slots b => exact over_meetSlots hQ hu hs.slots ht.slots

/-- **Meet is union, variable by variable**, for states of reached and of unreached points. -/
theorem get_meet (hs : s.Over SetOf.Canonical) (ht : t.Over SetOf.Canonical) (k : VarKey) :
    (s.meet t).vars.get k = (s.vars.get k).merge (t.vars.get k) := by
  unfold State.meet
  by_cases h : s.isTop = true
  · rw [if_pos h, eq_top_of_isTop h]
    exact (SetOf.empty_merge _).symm
  · rw [if_neg h]
    by_cases h' : t.isTop = true
    · rw [if_pos h', eq_top_of_isTop h']
      exact (SetOf.merge_empty _).symm
    · rw [if_neg h']
      exact Variables.get_meet hs.vars ht.vars k

theorem default_meet (hs : s.Over SetOf.Canonical) :
    (s.meet t).vars.default = s.vars.default.merge t.vars.default := by
  unfold State.meet
  by_cases h : s.isTop = true
  · rw [if_pos h, eq_top_of_isTop h]
    exact (SetOf.empty_merge _).symm
  · rw [if_neg h]
    by_cases h' : t.isTop = true
    · rw [if_pos h', eq_top_of_isTop h']
      exact (SetOf.merge_empty _).symm
    · rw [if_neg h']
      exact Variables.default_meet hs.vars.default

theorem stack_meet (s t : State) : (s.meet t).stack = s.stack.meet t.stack := by
  unfold State.meet
  by_cases h : s.isTop = true
  · rw [if_pos h, eq_top_of_isTop h]
    rfl
  · rw [if_neg h]
    by_cases h' : t.isTop = true
    · rw [if_pos h', eq_top_of_isTop h']
      cases s.stack <;> rfl
    · rw [if_neg h']

/-- **The order of states**: one covers another, variable by variable and slot by slot. -/
structure Covers (s t : State) : Prop where
  vars : s.vars.Covers t.vars
  stack : s.stack.Covers t.stack

theorem Covers.refl (s : State) : s.Covers s := ⟨.refl _, .refl _⟩

theorem Covers.trans {u : State} (h₁ : s.Covers t) (h₂ : t.Covers u) : s.Covers u :=
  ⟨h₁.vars.trans h₂.vars, h₁.stack.trans h₂.stack⟩

theorem covers_top (s : State) : s.Covers top :=
  ⟨⟨SetOf.covers_empty _, fun _ => SetOf.covers_empty _⟩, by cases s.stack <;> trivial⟩

theorem meet_covers_left (hs : s.Over SetOf.Canonical) (ht : t.Over SetOf.Canonical) :
    (s.meet t).Covers s := by
  refine ⟨⟨?_, fun k => ?_⟩, ?_⟩
  · rw [default_meet hs]
    exact SetOf.merge_covers_left _ _
  · rw [get_meet hs ht]
    exact SetOf.merge_covers_left _ _
  · rw [stack_meet]
    exact Stack.meet_covers_left _ _

theorem meet_covers_right (hs : s.Over SetOf.Canonical) (ht : t.Over SetOf.Canonical) :
    (s.meet t).Covers t := by
  refine ⟨⟨?_, fun k => ?_⟩, ?_⟩
  · rw [default_meet hs]
    exact SetOf.merge_covers_right _ _
  · rw [get_meet hs ht]
    exact SetOf.merge_covers_right _ _
  · rw [stack_meet]
    exact Stack.meet_covers_right _ _

theorem Covers.meet {s' t' : State} (hs : s.Over SetOf.Canonical) (hs' : s'.Over SetOf.Canonical)
    (ht : t.Over SetOf.Canonical) (ht' : t'.Over SetOf.Canonical) (h₁ : s.Covers s')
    (h₂ : t.Covers t') : (s.meet t).Covers (s'.meet t') := by
  refine ⟨⟨?_, fun k => ?_⟩, ?_⟩
  · rw [default_meet hs, default_meet hs']
    exact h₁.vars.default.merge h₂.vars.default
  · rw [get_meet hs ht, get_meet hs' ht']
    exact (h₁.vars.get k).merge (h₂.vars.get k)
  · rw [stack_meet, stack_meet]
    exact h₁.stack.meet h₂.stack

theorem Covers.antisymm (hs : s.Over SetOf.Canonical) (ht : t.Over SetOf.Canonical)
    (h₁ : s.Covers t) (h₂ : t.Covers s) : s = t := by
  have hv := h₁.vars.antisymm hs.vars ht.vars h₂.vars
  have hk := h₁.stack.antisymm hs.slots ht.slots h₂.stack
  obtain ⟨v, k⟩ := s
  obtain ⟨v', k'⟩ := t
  exact congr (congrArg State.mk hv) hk

/-- The state of an unreached point covers no other state. -/
theorem Covers.isTop (ht : t.Over SetOf.Canonical) (h : s.Covers t)
    (hst : s.isTop = true) : t.isTop = true := by
  rw [eq_top_of_isTop hst] at h
  rw [← h.antisymm (over_top SetOf.canonical_empty) ht (covers_top t)]
  rfl

/-- **States over a range of values are ordered by cover.** -/
theorem meetOrder (U : Value → Prop) (hU : U .unknown) :
    MeetOrder (Over (SetOf.Within U)) Covers := by
  have hc : ∀ {s : State}, s.Over (SetOf.Within U) → s.Over SetOf.Canonical := fun h =>
    h.mono fun _ h => h.toCanonical
  refine
    { top := over_top SetOf.within_empty
      meet := fun _ _ hs ht =>
        hs.meet (fun _ _ h h' => h.merge h') (SetOf.within_single hU) ht
      isTop_top := rfl
      refl := fun s _ => .refl s
      trans := fun _ _ _ _ _ _ h₁ h₂ => h₁.trans h₂
      le_top := fun s _ => covers_top s
      mono := fun _ _ _ _ h₁ h₂ h₃ h₄ h h' => Covers.meet (hc h₁) (hc h₂) (hc h₃) (hc h₄) h h'
      meet_left := fun _ _ hs ht => meet_covers_left (hc hs) (hc ht)
      meet_right := fun _ _ hs ht => meet_covers_right (hc hs) (hc ht)
      isTop := fun _ _ _ ht h hst => Covers.isTop (hc ht) h hst }

end State

end ReflectionFlow

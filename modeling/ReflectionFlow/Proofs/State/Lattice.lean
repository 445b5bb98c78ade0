/-
  File:      ReflectionFlow/Proofs/State/Lattice.lean
  Subject:   Tidy states form a lattice under meet.

  A meet is the least state that covers both sides.  What is least is unique, so the order in
  which states are met, and how often, does not matter; this holds across different defaults and
  different stack depths, because covering is said variable by variable and slot by slot.

  * `State.Covers.meet_le`    the meet is the least state that covers two states
  * `State.meet_self`, `State.meet_comm`, `State.meet_assoc`, `State.meet_top`, `State.top_meet`
  * `State.isTop_iff`         the top state is recognized
  * `State.meet_laws`         all laws together
-/
import ReflectionFlow.Proofs.State.Order

namespace ReflectionFlow

/-! ## 1. A state met with itself -/

theorem Stack.meetSlots_self {l : List ValueSet} (hl : ∀ v ∈ l, v.Canonical) :
    Stack.meetSlots l l = l := by
  induction l with
  | nil => rfl
  | cons v l ih =>
      have hv : v.merge v = v := (hl v List.mem_cons_self).merge_self
      have hr : Stack.meetSlots l l = l := ih fun w hw => hl w (List.mem_cons_of_mem v hw)
      simp only [Stack.meetSlots, hv, hr]

theorem Stack.meet_self {s : Stack} (hs : ∀ v ∈ s.fromTop, v.Canonical) : s.meet s = s := by
  cases s with
  | top => rfl
  | slots l => exact congrArg Stack.slots (Stack.meetSlots_self hs)

namespace State

variable {s t u : State}

theorem isTop_iff : s.isTop = true ↔ s = top := by
  constructor
  · exact eq_top_of_isTop
  · rintro rfl
    rfl

theorem meet_self (hs : s.Over SetOf.Canonical) : s.meet s = s := by
  have hv : s.vars.meet s.vars = s.vars := by
    unfold Variables.meet
    rw [if_pos rfl]
  have hk : s.stack.meet s.stack = s.stack := Stack.meet_self hs.slots
  unfold State.meet
  split
  · rfl
  · rw [hv, hk]

/-! ## 2. The meet is the least cover -/

theorem Over.canonical_meet (hs : s.Over SetOf.Canonical) (ht : t.Over SetOf.Canonical) :
    (s.meet t).Over SetOf.Canonical :=
  hs.meet (fun _ _ h h' => h.merge h') SetOf.canonical_unknown ht

/-- **A state that covers two states covers their meet.** -/
theorem Covers.meet_le (hu : u.Over SetOf.Canonical) (hs : s.Over SetOf.Canonical)
    (ht : t.Over SetOf.Canonical) (h₁ : u.Covers s) (h₂ : u.Covers t) : u.Covers (s.meet t) := by
  have h := Covers.meet hu hs hu ht h₁ h₂
  rw [meet_self hu] at h
  exact h

theorem meet_comm (hs : s.Over SetOf.Canonical) (ht : t.Over SetOf.Canonical) :
    s.meet t = t.meet s := by
  have hst := hs.canonical_meet ht
  have hts := ht.canonical_meet hs
  refine Covers.antisymm hst hts ?_ ?_
  · exact Covers.meet_le hst ht hs (meet_covers_right hs ht) (meet_covers_left hs ht)
  · exact Covers.meet_le hts hs ht (meet_covers_right ht hs) (meet_covers_left ht hs)

theorem meet_assoc (hs : s.Over SetOf.Canonical) (ht : t.Over SetOf.Canonical)
    (hu : u.Over SetOf.Canonical) : s.meet (t.meet u) = (s.meet t).meet u := by
  have hst := hs.canonical_meet ht
  have htu := ht.canonical_meet hu
  have hl := hs.canonical_meet htu
  have hr := hst.canonical_meet hu
  -- both sides cover all three states, so each covers the other
  have hl₁ : (s.meet (t.meet u)).Covers s := meet_covers_left hs htu
  have hl₂ : (s.meet (t.meet u)).Covers t := (meet_covers_right hs htu).trans (meet_covers_left ht hu)
  have hl₃ : (s.meet (t.meet u)).Covers u := (meet_covers_right hs htu).trans (meet_covers_right ht hu)
  have hr₁ : ((s.meet t).meet u).Covers s := (meet_covers_left hst hu).trans (meet_covers_left hs ht)
  have hr₂ : ((s.meet t).meet u).Covers t := (meet_covers_left hst hu).trans (meet_covers_right hs ht)
  have hr₃ : ((s.meet t).meet u).Covers u := meet_covers_right hst hu
  refine Covers.antisymm hl hr ?_ ?_
  · exact Covers.meet_le hl hst hu (Covers.meet_le hl hs ht hl₁ hl₂) hl₃
  · exact Covers.meet_le hr hs htu hr₁ (Covers.meet_le hr ht hu hr₂ hr₃)

theorem top_meet (s : State) : top.meet s = s := rfl

theorem meet_top (s : State) : s.meet top = s := by
  unfold State.meet
  split
  · next h => exact (eq_top_of_isTop h).symm
  · rfl

/-! ## 3. The laws -/

/-- **The laws of meet**, for all tidy states: with any defaults, with stacks of any depths, and
    with stacks that are not there yet. -/
theorem meet_laws {x y z : State} (hx : x.Over SetOf.Canonical) (hy : y.Over SetOf.Canonical)
    (hz : z.Over SetOf.Canonical) :
    x.meet x = x ∧ x.meet y = y.meet x ∧ x.meet (y.meet z) = (x.meet y).meet z ∧
      x.meet top = x ∧ top.meet x = x ∧ (x.meet y).Over SetOf.Canonical ∧
      (x.isTop = true ↔ x = top) :=
  ⟨meet_self hx, meet_comm hx hy, meet_assoc hx hy hz, meet_top x, top_meet x,
    hx.canonical_meet hy, isTop_iff⟩

/-- A stack of one slot, with one variable known. -/
def shallow : State := ⟨Variables.unknown.set (.loc 0) (.single (.string "a")), .slots [.single (.int 1)]⟩

/-- A deeper stack, with every variable null but one. -/
def deep : State :=
  ⟨(Variables.ofDefault (.single .null)).set (.arg 1) (.single (.int 7)),
    .slots [.single .null, .single (.int 2), .unknown]⟩

/-- A variable that is known at a point without a stack. -/
def stackless : State := ⟨Variables.top.set (.loc 0) (.single (.string "b")), .top⟩

/-- Three states with three defaults and three kinds of stack can be met in any order. -/
theorem meet_laws_mixed : shallow.meet (deep.meet stackless) = (shallow.meet deep).meet stackless ∧
    shallow.meet deep = deep.meet shallow ∧ (shallow.meet deep).stack.depth = 3 := by
  have single : ∀ v : Value, (SetOf.single v).Canonical := SetOf.canonical_single
  have hx : shallow.Over SetOf.Canonical := by
    refine ⟨(Variables.over_ofDefault (single _)).set _ (single _), fun v hv => ?_⟩
    rw [List.mem_singleton.mp hv]
    exact single _
  have hy : deep.Over SetOf.Canonical := by
    refine ⟨(Variables.over_ofDefault (single _)).set _ (single _), fun v hv => ?_⟩
    simp only [deep, Stack.fromTop, List.mem_cons, List.not_mem_nil, or_false] at hv
    rcases hv with rfl | rfl | rfl
    · exact single _
    · exact single _
    · exact single _
  have hz : stackless.Over SetOf.Canonical :=
    ⟨(Variables.over_ofDefault SetOf.canonical_empty).set _ (single _),
      fun _ h => absurd h List.not_mem_nil⟩
  obtain ⟨_, hcomm, hassoc, _⟩ := meet_laws hx hy hz
  refine ⟨hassoc, hcomm, ?_⟩
  rw [stack_meet, Stack.depth_meet]
  rfl

end State

end ReflectionFlow

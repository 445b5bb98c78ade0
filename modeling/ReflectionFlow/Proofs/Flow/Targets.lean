/-
  File:      ReflectionFlow/Proofs/Flow/Targets.lean
  Subject:   A body has a control flow graph exactly if control is only sent to instructions.

  Targets are looked up twice: by halving the list of instructions when the code is cut, and by the
  starts of blocks when edges are drawn.  What the first search finds becomes the start of a block,
  so the second one finds it too, and no edge fails.  What the first search misses is no offset of
  an instruction, as offsets ascend; the first miss is what the fault names.

  * `Body.HasOffset`, `Body.Lands`            control is only sent to instructions
  * `Body.FirstStray`                         the first place that is no instruction
  * `Body.Increasing.indexOf?_eq_some_iff`    halving finds every instruction
  * `FlowGraph.linkBlock_ok`                  drawing edges does not fail
  * `FlowGraph.Outcome`, `ofBody_outcome`
-/
import ReflectionFlow.Proofs.Flow.Representation

namespace ReflectionFlow

/-! ## 1. Halving -/

namespace Body

variable {b : Body}

/-- **Halving closes in on a place of the window that holds the wanted offset.** -/
theorem settle_eq {offsets : Array Nat} {wanted i : Nat}
    (hsorted : ∀ j k x y : Nat, offsets[j]? = some x → offsets[k]? = some y → j < k → x < y)
    (hi : offsets[i]? = some wanted) {base size : Nat} (hbase : base ≤ i) (hsize : i < base + size)
    (hwindow : base + size ≤ offsets.size) : settle offsets wanted base size = i := by
  induction size using Nat.strongRecOn generalizing base with
  | _ size ih =>
      unfold settle
      split
      · omega
      · next hlarge =>
        obtain ⟨x, hx⟩ : ∃ x, offsets[base + size / 2]? = some x :=
          ⟨_, Array.getElem?_eq_getElem (by omega)⟩
        simp only [hx, Option.getD_some]
        split
        · next hlt =>
          -- the wanted offset lies before the middle
          have hbefore : i < base + size / 2 := by
            rcases Nat.lt_trichotomy i (base + size / 2) with h | h | h
            · exact h
            · rw [h, hx] at hi
              have := Option.some.inj hi
              omega
            · have := hsorted _ _ _ _ hx hi h
              omega
          exact ih (size - size / 2) (by omega) hbase (by omega) (by omega)
        · next hle =>
          have hafter : base + size / 2 ≤ i := by
            refine Nat.le_of_not_lt fun h => ?_
            have := hsorted _ _ _ _ hi hx h
            omega
          exact ih (size - size / 2) (by omega) hafter (by omega) (by omega)

/-- **Halving finds every instruction**, as offsets ascend. -/
theorem Increasing.indexOf?_eq_some_iff (hb : b.Increasing) {t i : Nat} :
    b.indexOf? t = some i ↔ ∃ x, b.instructions[i]? = some x ∧ x.offset = t := by
  constructor
  · exact offset_of_indexOf?
  · rintro ⟨x, hx, rfl⟩
    have hget : ∀ j : Nat, (b.instructions.map Instruction.offset).toArray[j]? =
        b.instructions[j]?.map Instruction.offset := by
      intro j
      rw [List.getElem?_toArray, List.getElem?_map]
    have hsorted : ∀ (j k m n : Nat),
        (b.instructions.map Instruction.offset).toArray[j]? = some m →
        (b.instructions.map Instruction.offset).toArray[k]? = some n → j < k → m < n := by
      intro j k m n hj hk hlt
      rw [hget] at hj hk
      obtain ⟨y, hy, rfl⟩ := Option.map_eq_some_iff.mp hj
      obtain ⟨z, hz, rfl⟩ := Option.map_eq_some_iff.mp hk
      exact hb.lt hy hz hlt
    have hplace : (b.instructions.map Instruction.offset).toArray[i]? = some x.offset := by
      rw [hget, hx]
      rfl
    have hlt : i < (b.instructions.map Instruction.offset).toArray.size := by
      simpa using (List.getElem?_eq_some_iff.mp hx).1
    have hsettle : settle (b.instructions.map Instruction.offset).toArray x.offset 0
        (b.instructions.map Instruction.offset).toArray.size = i :=
      settle_eq hsorted hplace (Nat.zero_le i) (by omega) (by omega)
    unfold indexOf?
    simp only [hsettle, hplace, if_true]

/-! ## 2. Where control is sent -/

/-- An instruction stands at the offset. -/
def HasOffset (b : Body) (t : Nat) : Prop := ∃ x ∈ b.instructions, x.offset = t

theorem Increasing.indexOf?_isNone (hb : b.Increasing) {t : Nat} :
    (b.indexOf? t).isNone = true ↔ ¬ b.HasOffset t := by
  rw [Option.isNone_iff_eq_none, Option.eq_none_iff_forall_ne_some]
  constructor
  · rintro hnone ⟨x, hx, ht⟩
    obtain ⟨i, hi⟩ := List.getElem?_of_mem hx
    exact hnone i (hb.indexOf?_eq_some_iff.mpr ⟨x, hi, ht⟩)
  · intro hnot i hi
    obtain ⟨x, hx, ht⟩ := hb.indexOf?_eq_some_iff.mp hi
    exact hnot ⟨x, List.mem_of_getElem? hx, ht⟩

/-- **Control is only sent to instructions**, by targets as well as by exception clauses. -/
structure Lands (b : Body) : Prop where
  targets : ∀ x ∈ b.instructions, ∀ t ∈ x.targets, b.HasOffset t
  clauses : ∀ c ∈ b.clauses, ∀ e ∈ c.entryPoints, b.HasOffset e.1

end Body

/-- The first item that satisfies a condition, row by row. -/
def FirstItem {α β : Type} (rows : List α) (items : α → List β) (P : β → Prop) (row : α) (item : β) :
    Prop :=
  ∃ before after earlier later, rows = before ++ row :: after ∧
    items row = earlier ++ item :: later ∧ P item ∧
    (∀ r ∈ before, ∀ i ∈ items r, ¬ P i) ∧ ∀ i ∈ earlier, ¬ P i

section Rows

variable {α β γ : Type} {rows : List α} (items : α → List β) (tag : α → β → γ) {p : γ → Bool}
  {P : β → Prop}

theorem find?_rows_eq_none (hp : ∀ r i, p (tag r i) = true ↔ P i) :
    (rows.flatMap fun r => (items r).map (tag r)).find? p = none ↔
      ∀ r ∈ rows, ∀ i ∈ items r, ¬ P i := by
  rw [List.find?_eq_none]
  simp only [List.mem_flatMap, List.mem_map]
  constructor
  · intro h r hr i hi
    rw [← hp r i]
    exact h (tag r i) ⟨r, hr, i, hi, rfl⟩
  · rintro h y ⟨r, hr, i, hi, rfl⟩
    rw [hp r i]
    exact h r hr i hi

theorem find?_rows_eq_some (hp : ∀ r i, p (tag r i) = true ↔ P i) {y : γ} :
    (rows.flatMap fun r => (items r).map (tag r)).find? p = some y ↔
      ∃ r i, FirstItem rows items P r i ∧ tag r i = y := by
  have hrow : ∀ r, ((items r).map (tag r)).find? p = some y ↔ ∃ i earlier later, tag r i = y ∧
      items r = earlier ++ i :: later ∧ P i ∧ ∀ j ∈ earlier, ¬ P j := by
    intro r
    rw [List.find?_map, Option.map_eq_some_iff]
    simp only [List.find?_eq_some_iff_append, Function.comp_apply, hp, Bool.not_eq_true',
      ← Bool.not_eq_true]
    constructor
    · rintro ⟨i, ⟨hi, earlier, later, heq, hearlier⟩, hy⟩
      exact ⟨i, earlier, later, hy, heq, hi, hearlier⟩
    · rintro ⟨i, earlier, later, hy, heq, hi, hearlier⟩
      exact ⟨i, ⟨hi, earlier, later, heq, hearlier⟩, hy⟩
  have hnone : ∀ r, ((items r).map (tag r)).find? p = none ↔ ∀ i ∈ items r, ¬ P i := by
    intro r
    rw [List.find?_map, Option.map_eq_none_iff, List.find?_eq_none]
    simp only [Function.comp_apply, hp]
  rw [List.find?_flatMap, List.findSome?_eq_some_iff]
  simp only [hrow, hnone]
  constructor
  · rintro ⟨before, r, after, heq, ⟨i, earlier, later, hy, hitems, hi, hearlier⟩, hbefore⟩
    exact ⟨r, i, ⟨before, after, earlier, later, heq, hitems, hi, hbefore, hearlier⟩, hy⟩
  · rintro ⟨r, i, ⟨before, after, earlier, later, heq, hitems, hi, hbefore, hearlier⟩, hy⟩
    exact ⟨before, r, after, heq, ⟨i, earlier, later, hy, hitems, hi, hearlier⟩, hbefore⟩

end Rows

namespace Body

variable {b : Body}

/-- **The first place control is sent to where no instruction stands**, with the offset that is
    blamed: targets come in the order of the instructions and of their operands, and after them the
    entry points in the order of the clauses. -/
inductive FirstStray (b : Body) : Nat → Nat → Prop where
  | target (x : Instruction) (t : Nat)
      (h : FirstItem b.instructions Instruction.targets (fun t => ¬ b.HasOffset t) x t) :
      FirstStray b x.offset t
  | entry (c : Clause) (e : Nat × HandlerKind)
      (hall : ∀ x ∈ b.instructions, ∀ t ∈ x.targets, b.HasOffset t)
      (h : FirstItem b.clauses Clause.entryPoints (fun e => ¬ b.HasOffset e.1) c e) :
      FirstStray b c.tryOffset e.1

theorem badJump?_eq_none_iff (hb : b.Increasing) : b.badJump? = none ↔ b.Lands := by
  unfold badJump? jumps
  rw [List.find?_append, Option.or_eq_none_iff,
    find?_rows_eq_none Instruction.targets (fun x t => (x.offset, t))
      (P := fun t => ¬ b.HasOffset t) fun _ _ => hb.indexOf?_isNone,
    find?_rows_eq_none Clause.entryPoints (fun c e => (c.tryOffset, e.1))
      (P := fun e => ¬ b.HasOffset e.1) fun _ _ => hb.indexOf?_isNone]
  simp only [not_not]
  exact ⟨fun h => ⟨h.1, h.2⟩, fun h => ⟨h.targets, h.clauses⟩⟩

/-- **The jump that is blamed is the first stray one.** -/
theorem badJump?_eq_some_iff (hb : b.Increasing) {offset target : Nat} :
    b.badJump? = some (offset, target) ↔ b.FirstStray offset target := by
  unfold badJump? jumps
  rw [List.find?_append, Option.or_eq_some_iff,
    find?_rows_eq_none Instruction.targets (fun x t => (x.offset, t))
      (P := fun t => ¬ b.HasOffset t) fun _ _ => hb.indexOf?_isNone,
    find?_rows_eq_some Instruction.targets (fun x t => (x.offset, t))
      (P := fun t => ¬ b.HasOffset t) fun _ _ => hb.indexOf?_isNone,
    find?_rows_eq_some Clause.entryPoints (fun c e => (c.tryOffset, e.1))
      (P := fun e => ¬ b.HasOffset e.1) fun _ _ => hb.indexOf?_isNone]
  simp only [not_not]
  constructor
  · rintro (⟨x, t, h, heq⟩ | ⟨hall, c, e, h, heq⟩)
    · obtain ⟨rfl, rfl⟩ := Prod.mk.inj heq
      exact .target x _ h
    · obtain ⟨rfl, rfl⟩ := Prod.mk.inj heq
      exact .entry c e hall h
  · rintro (⟨x, t, h⟩ | ⟨c, e, hall, h⟩)
    · exact Or.inl ⟨x, target, h, rfl⟩
    · exact Or.inr ⟨hall, c, e, h, rfl⟩

end Body

/-! ## 3. Drawing edges does not fail -/

namespace FlowGraph

variable {b : Body} {g : Digraph Block EdgeKind}

/-- Where an instruction jumps to, a block is found. -/
theorem targetNumber_ok (hbad : b.badJump? = none) {last : Instruction} (hl : last ∈ b.instructions)
    {t : Nat} (ht : t ∈ last.targets) : ∃ n, targetNumber b last t = .ok n := by
  have hjump : (last.offset, t) ∈ b.jumps := List.mem_append_left _
    (List.mem_flatMap.mpr ⟨last, hl, List.mem_map.mpr ⟨t, ht, rfl⟩⟩)
  obtain ⟨k, c, x, hk, hx, hoffset⟩ := Body.exists_block_of_jump hbad hjump
  have hleader := List.mem_of_getElem? (Body.leaders_of_block hk).1
  obtain ⟨n, hn⟩ := Body.exists_starts_of_leader hleader hx
  rw [hoffset] at hn
  refine ⟨n, ?_⟩
  unfold targetNumber
  rw [hn]

theorem exits_ok (hbad : b.badJump? = none) {last : Instruction} (hl : last ∈ b.instructions)
    (next exit : Nat) : ∃ exits, last.exits next exit (targetNumber b last) = .ok exits := by
  cases h : last.exits next exit (targetNumber b last) with
  | ok exits => exact ⟨exits, rfl⟩
  | error fault =>
      obtain ⟨t, ht, hfault⟩ := exits_error h
      obtain ⟨n, hn⟩ := targetNumber_ok hbad hl ht
      rw [hn] at hfault
      cases hfault

/-- **The edges of a block can be drawn**, whatever edges there are already. -/
theorem linkBlock_ok (hbad : b.badJump? = none) (hg : g.nodeCount = b.exitNumber + 1)
    {block : Nat × CodeBlock} (hblock : block ∈ b.numbered) :
    ∃ g', linkBlock b b.starts b.exitNumber g block = .ok g' ∧ g'.nodeCount = b.exitNumber + 1 := by
  obtain ⟨k, hn, hk⟩ := Body.mem_numbered.mp hblock
  have hlt : block.1 < g.nodeCount := by
    have := (List.getElem?_eq_some_iff.mp hk).1
    rw [hg, hn, Body.exitNumber]
    omega
  obtain ⟨last, hlast⟩ : ∃ last, b.instructions[block.2.stop - 1]? = some last := by
    have h₁ := Body.first_lt_stop hk
    have h₂ := Body.stop_le_length hk
    exact ⟨_, List.getElem?_eq_getElem (by omega)⟩
  obtain ⟨exits, hexits⟩ :=
    exits_ok hbad (List.mem_of_getElem? hlast) (nextNumber b block.2) b.exitNumber
  obtain ⟨g', hfold, hnodes⟩ := foldlM_link_ok (g := g) hlt fun e he =>
    hg ▸ Nat.lt_succ_of_le (exits_le hexits he)
  refine ⟨g', ?_, (congrArg List.length hnodes).trans hg⟩
  unfold linkBlock
  rw [hlast]
  show last.exits (nextNumber b block.2) b.exitNumber (targetNumber b last) >>= _ = _
  rw [hexits]
  exact hfold

theorem foldlM_linkBlock_ok (hbad : b.badJump? = none) (hg : g.nodeCount = b.exitNumber + 1)
    {l : List (Nat × CodeBlock)} (hl : ∀ e ∈ l, e ∈ b.numbered) :
    ∃ g', l.foldlM (linkBlock b b.starts b.exitNumber) g = .ok g' := by
  induction l generalizing g with
  | nil => exact ⟨g, rfl⟩
  | cons e l ih =>
      obtain ⟨g₁, h₁, hg₁⟩ := linkBlock_ok hbad hg (hl e List.mem_cons_self)
      obtain ⟨g₂, h₂⟩ := ih hg₁ fun e he => hl e (List.mem_cons_of_mem _ he)
      refine ⟨g₂, ?_⟩
      rw [List.foldlM_cons, h₁]
      exact h₂

/-- **A body whose jumps lead to instructions has a graph.** -/
theorem ofBody_ok (hne : b.instructions ≠ []) (hbad : b.badJump? = none) :
    ∃ g, ofBody b = .ok g := by
  have hcount : (⟨.entry :: b.blocks.map .code ++ [.exit], []⟩ : Digraph Block EdgeKind).nodeCount =
      b.exitNumber + 1 := by
    simp [Digraph.nodeCount, Body.exitNumber]
  obtain ⟨g₁, h₁, hn₁⟩ := link_ok (u := 0) (v := 1) .entry (by rw [hcount]; omega)
    (by rw [hcount, Body.exitNumber]; omega)
  obtain ⟨g₂, h₂⟩ := foldlM_linkBlock_ok hbad ((congrArg List.length hn₁).trans hcount)
    (fun _ he => he)
  refine ⟨⟨g₂, b.numbered.filterMap fun e => e.2.handler.map fun h => (e.1, h), b.starts⟩, ?_⟩
  unfold ofBody
  rw [List.isEmpty_eq_false_iff.mpr hne, hbad]
  show link _ 0 1 .entry >>= _ = _
  rw [h₁]
  show b.numbered.foldlM (linkBlock b b.starts b.exitNumber) g₁ >>= _ = _
  rw [h₂]
  rfl

/-! ## 4. Graph or fault -/

/-- **When a body has a graph, and which fault it has otherwise.** -/
structure Outcome (b : Body) : Prop where
  /-- One fault is for code without instructions, -/
  empty : ofBody b = .error .emptyBody ↔ b.instructions = []
  /-- the other one for code that sends control to a place where no instruction stands, -/
  stray : (∃ offset target, ofBody b = .error (.invalidTarget offset target)) ↔
    b.instructions ≠ [] ∧ ¬ b.Lands
  /-- and it names the first such place. -/
  first : ∀ offset target, ofBody b = .error (.invalidTarget offset target) ↔
    b.instructions ≠ [] ∧ b.FirstStray offset target
  /-- All other code has a graph. -/
  graph : (∃ g, ofBody b = .ok g) ↔ b.instructions ≠ [] ∧ b.Lands
  /-- No edge fails for want of a node, -/
  nodes : ∀ fault, ofBody b ≠ .error (.graph fault)
  /-- and once all jumps land, none fails for want of a block. -/
  edges : b.Lands → ∀ block ∈ b.numbered, ∀ g : Digraph Block EdgeKind,
    g.nodeCount = b.exitNumber + 1 →
    ∃ g', linkBlock b b.starts b.exitNumber g block = .ok g' ∧ g'.nodeCount = b.exitNumber + 1

theorem ofBody_of_empty (h : b.instructions = []) : ofBody b = .error .emptyBody := by
  unfold ofBody
  rw [h]
  rfl

theorem ofBody_of_badJump {offset target : Nat} (hne : b.instructions ≠ [])
    (hbad : b.badJump? = some (offset, target)) :
    ofBody b = .error (.invalidTarget offset target) := by
  unfold ofBody
  rw [List.isEmpty_eq_false_iff.mpr hne, hbad]
  rfl

/-- **A body with ascending offsets has a graph exactly if it has instructions and sends control to
    instructions only.** -/
theorem ofBody_outcome (hb : b.Increasing) : Outcome b := by
  -- the three ways it can go exclude each other, so each implication has its converse
  have hway : (b.instructions = [] ∧ ofBody b = .error .emptyBody) ∨
      (b.instructions ≠ [] ∧ b.Lands ∧ ∃ g, ofBody b = .ok g) ∨
      (b.instructions ≠ [] ∧ ¬ b.Lands ∧ ∃ offset target, b.badJump? = some (offset, target) ∧
        ofBody b = .error (.invalidTarget offset target)) := by
    by_cases hempty : b.instructions = []
    · exact Or.inl ⟨hempty, ofBody_of_empty hempty⟩
    cases hbad : b.badJump? with
    | none =>
        exact Or.inr (Or.inl ⟨hempty, (Body.badJump?_eq_none_iff hb).mp hbad, ofBody_ok hempty hbad⟩)
    | some j =>
        refine Or.inr (Or.inr ⟨hempty, ?_, j.1, j.2, rfl, ofBody_of_badJump hempty hbad⟩)
        rw [← Body.badJump?_eq_none_iff hb, hbad]
        exact Option.some_ne_none j
  constructor
  case empty =>
      rcases hway with ⟨hi, h⟩ | ⟨hi, _, g, h⟩ | ⟨hi, _, _, _, _, h⟩ <;> simp [h, hi]
  case stray =>
      rcases hway with ⟨hi, h⟩ | ⟨hi, hl, g, h⟩ | ⟨hi, hl, _, _, _, h⟩
      · simp [h, hi]
      · simp [h, hl]
      · simp [h, hi, hl]
  case first =>
      intro offset target
      rw [← Body.badJump?_eq_some_iff hb]
      rcases hway with ⟨hi, h⟩ | ⟨hi, hl, g, h⟩ | ⟨hi, _, _, _, hbad, h⟩
      · simp [h, hi]
      · simp [h, (Body.badJump?_eq_none_iff hb).mpr hl]
      · simp [h, hi, hbad]
  case graph =>
      rcases hway with ⟨hi, h⟩ | ⟨hi, hl, g, h⟩ | ⟨hi, hl, _, _, _, h⟩
      · simp [h, hi]
      · simp [h, hi, hl]
      · simp [h, hl]
  case nodes =>
      rcases hway with ⟨_, h⟩ | ⟨_, _, g, h⟩ | ⟨_, _, _, _, _, h⟩ <;> simp [h]
  case edges =>
      intro hl block hblock g hg
      exact linkBlock_ok ((Body.badJump?_eq_none_iff hb).mpr hl) hg hblock

/-- Jumps and handlers land, but a filter starts in the middle of an instruction. -/
def strayed : Body where
  maxStack := 1
  initLocals := false
  locals := []
  instructions := [⟨0, .ldarg0, .empty⟩, ⟨1, .switch, .switch [0, 14]⟩, ⟨14, .ret, .empty⟩]
  clauses := [⟨0, 0, 1, 14, 1, none, some 2⟩, ⟨1, 1, 13, 14, 1, none, some 3⟩]

theorem strayed_outcome : strayed.Increasing ∧
    ofBody strayed = .error (.invalidTarget 1 3) ∧ strayed.FirstStray 1 3 ∧ ¬ strayed.Lands := by
  have hb : strayed.Increasing := by
    unfold Body.Increasing strayed
    decide
  have h : ofBody strayed = .error (.invalidTarget 1 3) := by decide +kernel
  have houtcome := ofBody_outcome hb
  exact ⟨hb, h, ((houtcome.first 1 3).mp h).2, (houtcome.stray.mp ⟨1, 3, h⟩).2⟩

end FlowGraph

end ReflectionFlow

/-
  File:      ReflectionFlow/Proofs/Text/Cursor.lean
  Subject:   Reading on from a place in a text: that it ends, and what is read.

  Two things are said of every way to read on.  It ends, without asking for a part of the text that
  is not there and without repeating a step that consumes nothing, and the place where it ends is
  further on.  And where the characters in front of the cursor are known, so is that place.  Steps
  that are repeated have both from the single step.

  * `Ends`                           a reading that ends with a result or with a malformed text
  * `Cursor.Ahead`, `Cursor.Inside`  places further on, and places in the text
  * `Cursor.rest`                    what a cursor has in front of it
  * `Cursor.iterate_ends`            repeated steps end
  * `Cursor.iterate_flatMap`         repeated steps read a text piece by piece
-/
import ReflectionFlow.Text.Cursor

namespace ReflectionFlow.Text

/-! ## 1. Readings that end -/

/-- **A reading that ends:** with a result that has a property, or because the text is malformed. -/
def Ends {α : Type} (P : α → Prop) : Except ReadFailure α → Prop
  | .ok a => P a
  | .error failure => failure = .malformed

namespace Ends

variable {α β : Type} {P Q : α → Prop} {R : β → Prop}

theorem bind {x : Except ReadFailure α} {f : α → Except ReadFailure β} (hx : Ends P x)
    (hf : ∀ a, P a → Ends R (f a)) : Ends R (x >>= f) := by
  cases x with
  | ok a => exact hf a hx
  | error failure => exact hx

theorem mono {x : Except ReadFailure α} (hx : Ends P x) (h : ∀ a, P a → Q a) : Ends Q x := by
  cases x with
  | ok a => exact h a hx
  | error failure => exact hx

end Ends

namespace Cursor

/-! ## 2. Places -/

/-- A place in the text, its end included. -/
def Inside (c : Cursor) : Prop := c.position ≤ c.chars.size

/-- **A place further on in the same text**, or the same place. -/
structure Ahead (c d : Cursor) : Prop where
  chars : d.chars = c.chars
  position : c.position ≤ d.position

namespace Ahead

variable {c d e : Cursor}

theorem refl (c : Cursor) : c.Ahead c := ⟨rfl, Nat.le_refl _⟩

theorem trans (h : c.Ahead d) (h' : d.Ahead e) : c.Ahead e :=
  ⟨h'.chars.trans h.chars, Nat.le_trans h.position h'.position⟩

theorem skip (h : c.Ahead d) (n : Nat) : c.Ahead (d.skip n) :=
  ⟨h.chars, Nat.le_trans h.position (Nat.le_add_right _ n)⟩

/-- From a place that is really further on, less is left to read. -/
theorem left_lt (h : c.Ahead d) (hc : c.position < c.chars.size) (hlt : c.position < d.position) :
    d.left < c.left := by
  have hchars := h.chars
  unfold left
  rw [hchars]
  omega

end Ahead

theorem inside_skip {c : Cursor} {d : Char} (h : c.peek? = some d) : (c.skip 1).Inside := by
  have hlt := lt_size_of_peek? h
  unfold Inside
  simp only [chars_skip, position_skip]
  omega

theorem left_skip {c : Cursor} {d : Char} (h : c.peek? = some d) (n : Nat) :
    (c.skip (n + 1)).left < c.left := by
  refine ((Ahead.refl c).skip (n + 1)).left_lt (lt_size_of_peek? h) ?_
  simp only [position_skip]
  omega

/-! ## 3. What a cursor has in front of it -/

variable {c : Cursor} {cs more : List Char}

/-- The characters that are left to read. -/
def rest (c : Cursor) : List Char := c.chars.toList.drop c.position

theorem peek?_eq (c : Cursor) : c.peek? = c.rest.head? := by
  rw [rest, List.head?_drop, Array.getElem?_toList, peek?]

theorem peek?_of_rest {x : Char} (h : c.rest = x :: more) : c.peek? = some x := by
  rw [peek?_eq, h]
  rfl

theorem peekSecond?_eq (c : Cursor) : c.peekSecond? = c.rest[1]? := by
  rw [rest, List.getElem?_drop, Array.getElem?_toList, peekSecond?]

theorem left_eq (c : Cursor) : c.left = c.rest.length := by
  rw [rest, List.length_drop, Array.length_toList, left]

theorem rest_skip (c : Cursor) (n : Nat) : (c.skip n).rest = c.rest.drop n := by
  rw [rest, rest, List.drop_drop, chars_skip, position_skip]

theorem skip_skip (c : Cursor) (m n : Nat) : (c.skip m).skip n = c.skip (m + n) := by
  simp only [skip, Nat.add_assoc]

/-- Skipping what stands in front leaves what comes after it. -/
theorem rest_skip_append (h : c.rest = cs ++ more) : (c.skip cs.length).rest = more := by
  rw [rest_skip, h, List.drop_left]

/-- Skipping something leaves less to read. -/
theorem left_skip_lt (h : c.rest = cs ++ more) (hcs : cs ≠ []) :
    (c.skip cs.length).left < c.left := by
  have hpos : 0 < cs.length := List.length_pos_iff.mpr hcs
  rw [left_eq, left_eq, rest_skip_append h, h, List.length_append]
  omega

/-- The part of the text that stands in front. -/
theorem slice_eq (h : c.rest = cs ++ more) (hcs : cs ≠ []) :
    c.position + cs.length ≤ c.chars.size ∧
      (c.skip cs.length).slice c.position (c.position + cs.length) = .ok cs := by
  have hpos : 0 < cs.length := List.length_pos_iff.mpr hcs
  have hlength : c.chars.size - c.position = cs.length + more.length := by
    rw [← List.length_append, ← h, ← left_eq, left]
  have hsize : c.position + cs.length ≤ c.chars.size := by omega
  refine ⟨hsize, ?_⟩
  rw [slice, if_pos ⟨Nat.le_add_right _ _, hsize⟩, chars_skip, Array.toList_extract,
    List.extract_eq_take_drop, Nat.add_sub_cancel_left, ← rest, h, List.take_left]

/-! ## 4. Repeated steps end -/

/-- Going on at a place from which less is left to read. -/
theorem onward_ends {β : Type} {R : β → Prop} {start c : Cursor} (h : c.left < start.left)
    {f : { c : Cursor // c.left < start.left } → Except ReadFailure β} (hf : Ends R (f ⟨c, h⟩)) :
    Ends R (start.onward c >>= f) := by
  rw [onward_eq h]
  exact hf

/-- **Repeated steps end** if each of them consumes something, and keep what each of them keeps. -/
theorem iterate_ends {step : Cursor → Except ReadFailure (Option Cursor)} {Inv : Cursor → Prop}
    (hstep : ∀ c, Inv c → Ends (fun r => ∀ d ∈ r, Inv d ∧ d.left < c.left) (step c)) (c : Cursor)
    (hc : Inv c) : Ends Inv (iterate step c) := by
  induction hn : c.left using Nat.strongRecOn generalizing c with
  | ind n ih =>
      rw [iterate]
      refine (hstep c hc).bind fun r hr => ?_
      cases r with
      | none => exact hc
      | some d =>
          obtain ⟨hd, hlt⟩ := hr d rfl
          exact onward_ends hlt (ih d.left (hn ▸ hlt) d hd rfl)

theorem skipWhile_ends (p : Char → Bool) (c : Cursor) :
    Ends (fun d => c.Ahead d ∧ (c.Inside → d.Inside)) (c.skipWhile p) := by
  refine iterate_ends ?_ c ⟨.refl c, id⟩
  intro d hd e he
  obtain ⟨x, hx, rfl⟩ := Option.map_eq_some_iff.mp he
  have hpeek : d.peek? = some x := (Option.filter_eq_some_iff.mp hx).1
  exact ⟨⟨hd.1.skip 1, fun _ => inside_skip hpeek⟩, left_skip hpeek 0⟩

theorem slice_ends {c : Cursor} {start stop : Nat} (h : start ≤ stop) (h' : stop ≤ c.chars.size) :
    Ends (fun cs => cs.length = stop - start) (c.slice start stop) := by
  rw [slice, if_pos ⟨h, h'⟩]
  show (c.chars.extract start stop).toList.length = stop - start
  rw [Array.length_toList, Array.size_extract, Nat.min_eq_left h']

/-! ## 5. Repeated steps read piece by piece -/

theorem iterate_next {step : Cursor → Except ReadFailure (Option Cursor)} {c d : Cursor}
    (hstep : step c = .ok (some d)) (hlt : d.left < c.left) : iterate step c = iterate step d := by
  rw [iterate, hstep]
  show (c.onward d >>= fun next => iterate step next.1) = iterate step d
  rw [onward_eq hlt]
  rfl

theorem iterate_stop {step : Cursor → Except ReadFailure (Option Cursor)} {c : Cursor}
    (hstep : step c = .ok none) : iterate step c = .ok c := by
  rw [iterate, hstep]
  rfl

/-- **A step that reads one piece of a text reads all of them when it is repeated.** -/
theorem iterate_flatMap {α : Type} {step : Cursor → Except ReadFailure (Option Cursor)}
    {f : α → List Char} {pieces : List α}
    (hstep : ∀ a ∈ pieces, ∀ (c : Cursor) more, c.rest = f a ++ more →
      step c = .ok (some (c.skip (f a).length)))
    (hpieces : ∀ a ∈ pieces, f a ≠ []) (hstop : ∀ c : Cursor, c.rest = more → step c = .ok none)
    (c : Cursor) (hc : c.rest = pieces.flatMap f ++ more) :
    iterate step c = .ok (c.skip (pieces.flatMap f).length) := by
  induction pieces generalizing c with
  | nil => exact iterate_stop (hstop c hc)
  | cons a pieces ih =>
      rw [List.flatMap_cons, List.append_assoc] at hc
      have hnext := hstep a List.mem_cons_self c _ hc
      have hlt := left_skip_lt hc (hpieces a List.mem_cons_self)
      have hrest := ih (fun b hb => hstep b (List.mem_cons_of_mem a hb))
        (fun b hb => hpieces b (List.mem_cons_of_mem a hb)) (c.skip (f a).length)
        (rest_skip_append hc)
      rw [iterate_next hnext hlt, hrest, skip_skip, List.flatMap_cons, List.length_append]

/-- The same for a step that reads one character. -/
theorem iterate_chars {step : Cursor → Except ReadFailure (Option Cursor)}
    (hstep : ∀ x ∈ cs, ∀ (c : Cursor) more, c.rest = x :: more → step c = .ok (some (c.skip 1)))
    (hstop : ∀ c : Cursor, c.rest = more → step c = .ok none) (hc : c.rest = cs ++ more) :
    iterate step c = .ok (c.skip cs.length) := by
  have hflat : cs.flatMap (fun x => [x]) = cs := List.flatMap_singleton' cs
  have h := iterate_flatMap (f := fun x => [x]) hstep (fun _ _ => List.cons_ne_nil _ _) hstop c
    (hflat.symm ▸ hc)
  rw [hflat] at h
  exact h

theorem skipWhile_eq {p : Char → Bool} (hc : c.rest = cs ++ more) (hcs : ∀ x ∈ cs, p x = true)
    (hmore : ∀ x ∈ more.head?, p x = false) : c.skipWhile p = .ok (c.skip cs.length) := by
  refine iterate_chars ?_ ?_ hc
  · intro x hx c more hc
    simp [peek?_eq, hc, hcs x hx, pure, Except.pure]
  · intro c hc
    have hpeek : c.peek?.filter p = none := by
      rw [peek?_eq, hc, Option.filter_eq_none_iff]
      intro x hx
      simp [hmore x hx]
    simp [hpeek, pure, Except.pure]

theorem skipWhile_self {p : Char → Bool} (h : ∀ x ∈ c.rest.head?, p x = false) :
    c.skipWhile p = .ok c :=
  skipWhile_eq (List.nil_append c.rest).symm (fun _ hx => absurd hx List.not_mem_nil) h

end Cursor

end ReflectionFlow.Text

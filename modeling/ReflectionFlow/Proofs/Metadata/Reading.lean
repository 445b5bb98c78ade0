/-
  File:      ReflectionFlow/Proofs/Metadata/Reading.lean
  Subject:   Every text is read to an end, and inside its bounds.

  The reader of type names repeats steps and calls itself, and it takes parts out of the text.  It
  could fail in two ways that have nothing to do with the grammar: a repetition that consumes
  nothing, and a part that does not lie in the text.  The cursor does get behind the end of the
  text, after an escape with nothing behind it.  But nothing is peeked at there, so no rule starts
  there: a name starts at the start of the text or right after a character that was seen.

  * `skipName_ends`, `suffixStep_ends`, `qualification_ends`   pieces of the grammar
  * `qualified_ends_of`, `arguments_ends_of`                   one call, if the calls in it end
  * `grammar_ends`                                             all calls
  * `read_ends`                                                whole texts
-/
import ReflectionFlow.Metadata.TypeName
import ReflectionFlow.Proofs.Text.Cursor

namespace ReflectionFlow

open Text

namespace TypeName

open Cursor

/-! ## 1. Pieces of the grammar -/

theorem skipName_ends (c : Cursor) : Ends c.Ahead (skipName c) := by
  refine iterate_ends ?_ c (.refl c)
  intro d hd e he
  unfold nameStep at he
  split at he
  next hpeek =>
    obtain rfl := Option.some.inj he
    exact ⟨hd.skip 2, left_skip hpeek 1⟩
  next x _ hpeek =>
    split at he
    next => cases he
    next =>
      obtain rfl := Option.some.inj he
      exact ⟨hd.skip 1, left_skip hpeek 0⟩
  next => cases he

theorem expect_ends (x : Char) (c : Cursor) :
    Ends (fun d => c.Ahead d ∧ c.position < d.position) (expect x c) := by
  refine (skipWhile_ends isBlank c).bind fun d hd => ?_
  split
  next =>
    have hposition := hd.1.position
    exact ⟨hd.1.skip 1, Nat.lt_succ_of_le hposition⟩
  next => rfl

/-- A suffix is at least one character. -/
theorem suffixStep_ends (c : Cursor) :
    Ends (fun r => ∀ d ∈ r, c.Ahead d ∧ d.left < c.left) (suffixStep c) := by
  have hone : ∀ {x}, c.peek? = some x →
      Ends (fun r => ∀ d ∈ r, c.Ahead d ∧ d.left < c.left) (.ok (some (c.skip 1))) := by
    intro x hpeek d hd
    obtain rfl := Option.some.inj hd
    exact ⟨(Ahead.refl c).skip 1, left_skip hpeek 0⟩
  unfold suffixStep
  split
  next hpeek => exact hone hpeek
  next hpeek => exact hone hpeek
  next hpeek =>
    refine (skipWhile_ends isRank (c.skip 1)).bind fun ranks hranks => ?_
    refine (expect_ends ']' ranks).bind fun stop hstop => ?_
    intro d hd
    obtain rfl := Option.some.inj hd
    have hahead : c.Ahead stop := ((Ahead.refl c).skip 1).trans (hranks.1.trans hstop.1)
    have hranksPosition := hranks.1.position
    simp only [position_skip] at hranksPosition
    have hstopPosition := hstop.2
    exact ⟨hahead, hahead.left_lt (lt_size_of_peek? hpeek) (by omega)⟩
  next =>
    intro d hd
    cases hd

theorem suffixes_ends (c : Cursor) : Ends c.Ahead (suffixes c) := by
  refine iterate_ends ?_ c (.refl c)
  intro d hd
  refine (suffixStep_ends d).mono fun r hr e he => ?_
  exact ⟨hd.trans (hr e he).1, (hr e he).2⟩

/-- The text after a comma is taken from a place that is in the text to another one further on. -/
theorem qualification_ends (ending : Ending) (c : Cursor) :
    Ends (fun r => c.Ahead r.2) (qualification ending c) := by
  refine (skipWhile_ends isBlank c).bind fun comma hcomma => ?_
  split
  next hpeek =>
    refine (skipWhile_ends _ (comma.skip 1)).bind fun stop hstop => ?_
    have hinside : stop.position ≤ stop.chars.size := hstop.2 (inside_skip hpeek.2)
    refine (slice_ends hstop.1.position hinside).bind fun text _ => ?_
    dsimp only
    split
    next => rfl
    next => exact (hcomma.1.skip 1).trans hstop.1
  next => exact hcomma.1

/-! ## 2. The grammar -/

/-- What follows the arguments of a name is read to an end. -/
theorem ending_ends {entry c : Cursor} {ending : Ending} {name : String} {args : List TypeName}
    (hc : entry.Ahead c) :
    Ends (fun r => entry.Ahead r.2) (do
      let c ← suffixes c
      let (assembly, c) ← qualification ending c
      return ((⟨name, assembly, args⟩ : TypeName), c)) := by
  refine (suffixes_ends c).bind fun d hd => ?_
  refine (qualification_ends ending d).bind fun q hq => ?_
  exact hc.trans (hd.trans hq)

/-- **A name that starts in the text is read to an end**, if its arguments are. -/
theorem qualified_ends_of {entry : Cursor} (hentry : entry.Inside)
    (ih : ∀ c : Cursor, c.left < entry.left → c.position < c.chars.size →
      Ends (fun r => c.Ahead r.2) (arguments c)) (ending : Ending) :
    Ends (fun r => entry.Ahead r.2) (qualified ending entry) := by
  rw [qualified]
  refine (skipWhile_ends isBlank entry).bind fun start hstart => ?_
  refine (skipName_ends start).bind fun stop hstop => ?_
  have hinside : start.position ≤ stop.chars.size := by
    rw [hstop.chars]
    exact hstart.2 hentry
  have hposition := hstop.position
  refine (slice_ends (by omega) (Nat.min_le_right _ _)).bind fun raw hraw => ?_
  have hahead : entry.Ahead stop := hstart.1.trans hstop
  dsimp only
  split
  next => rfl
  next hname =>
    -- a name that is there has consumed something, so its arguments start further on
    have hlength : 0 < raw.length := by
      cases raw with
      | nil => exact absurd rfl hname
      | cons x raw => exact Nat.succ_pos _
    split
    next hopens =>
      have hpeek : stop.peek? = some '[' := by
        simp only [opensArguments, Bool.and_eq_true, beq_iff_eq] at hopens
        exact hopens.1
      have hstopLt := lt_size_of_peek? hpeek
      have hstartPosition := hstart.1.position
      have hless : stop.left < entry.left :=
        hahead.left_lt (by rw [← hahead.chars]; omega) (by omega)
      refine onward_ends hless ((ih stop hless hstopLt).bind fun r hr => ?_)
      exact ending_ends (hahead.trans hr)
    next => exact ending_ends hahead

/-- What follows an argument is read to an end, if the further arguments are. -/
theorem separator_ends {c start d : Cursor} {arg : TypeName} (hc : c.position < c.chars.size)
    (hstart : c.Ahead start) (hlt : c.position < start.position) (hd : start.Ahead d)
    (ih : ∀ d : Cursor, d.left < c.left → d.position < d.chars.size →
      Ends (fun r => d.Ahead r.2) (arguments d)) :
    Ends (fun r => c.Ahead r.2) (do
      let stop ← skipBlanks d
      match stop.peek? with
      | some ',' =>
        let ⟨next, _⟩ ← c.onward stop
        let (args, stop) ← arguments next
        return (arg :: args, stop)
      | some ']' => return ([arg], stop.skip 1)
      | _ => throw .malformed) := by
  refine (skipWhile_ends isBlank d).bind fun stop hstop => ?_
  have hahead : c.Ahead stop := hstart.trans (hd.trans hstop.1)
  have hposition := (hd.trans hstop.1).position
  split
  next hpeek =>
    have hless : stop.left < c.left := hahead.left_lt hc (by omega)
    refine onward_ends hless ((ih stop hless (lt_size_of_peek? hpeek)).bind ?_)
    exact fun more hmore => hahead.trans hmore
  next => exact hahead.skip 1
  next => rfl

/-- **Arguments that start at a character of the text are read to an end**, if the names and the
    further arguments in them are. -/
theorem arguments_ends_of {c : Cursor} (hc : c.position < c.chars.size)
    (ihQualified : ∀ (ending : Ending) (d : Cursor), d.left < c.left → d.Inside →
      Ends (fun r => d.Ahead r.2) (qualified ending d))
    (ihArguments : ∀ d : Cursor, d.left < c.left → d.position < d.chars.size →
      Ends (fun r => d.Ahead r.2) (arguments d)) :
    Ends (fun r => c.Ahead r.2) (arguments c) := by
  rw [arguments]
  refine (skipWhile_ends isBlank (c.skip 1)).bind fun start hstart => ?_
  have hahead : c.Ahead start := ((Ahead.refl c).skip 1).trans hstart.1
  have hposition : c.position < start.position := hstart.1.position
  have hinside : start.Inside := hstart.2 hc
  split
  next hpeek =>
    have hless : (start.skip 1).left < c.left := (hahead.skip 1).left_lt hc (by simp; omega)
    refine onward_ends hless ((ihQualified .bracket _ hless (inside_skip hpeek)).bind ?_)
    intro r hr
    refine (expect_ends ']' r.2).bind fun stop hstop => ?_
    have hstopAhead : start.Ahead stop := ((Ahead.refl start).skip 1).trans (hr.trans hstop.1)
    exact separator_ends hc hahead hposition hstopAhead ihArguments
  next =>
    have hless : start.left < c.left := hahead.left_lt hc hposition
    refine onward_ends hless ((ihQualified .argument start hless hinside).bind ?_)
    exact fun r hr => separator_ends hc hahead hposition hr ihArguments

/-- **Names and arguments are read to an end**, at every place of the text. -/
theorem grammar_ends (n : Nat) :
    (∀ (ending : Ending) (c : Cursor), c.left = n → c.Inside →
      Ends (fun r => c.Ahead r.2) (qualified ending c)) ∧
    (∀ c : Cursor, c.left = n → c.position < c.chars.size →
      Ends (fun r => c.Ahead r.2) (arguments c)) := by
  induction n using Nat.strongRecOn with
  | ind n ih =>
      constructor
      · intro ending c hn hc
        exact qualified_ends_of hc (fun d hd => (ih d.left (hn ▸ hd)).2 d rfl) ending
      · intro c hn hc
        exact arguments_ends_of hc (fun ending d hd => (ih d.left (hn ▸ hd)).1 ending d rfl)
          (fun d hd => (ih d.left (hn ▸ hd)).2 d rfl)

/-- **Every text is read to an end.**  Whatever the text, the reader takes parts only out of it, and
    repeats nothing that does not consume something: it finds a name or says that there is none. -/
theorem read_ends (text : String) :
    ((∃ name, read text = .ok name) ∨ read text = .error .malformed) ∧
      (parse? text = none ↔ read text = .error .malformed) := by
  have hends : Ends (fun _ => True) (read text) := by
    have hstart : (Cursor.ofString text).Inside := Nat.zero_le _
    refine ((grammar_ends _).1 .text _ rfl hstart).bind fun r _ => ?_
    refine (skipWhile_ends isBlank r.2).bind fun c _ => ?_
    split
    next => exact trivial
    next => rfl
  unfold parse?
  cases h : read text with
  | ok name => exact ⟨Or.inl ⟨name, rfl⟩, by simp [Except.toOption]⟩
  | error failure =>
      rw [h] at hends
      obtain rfl : failure = .malformed := hends
      exact ⟨Or.inr rfl, by simp [Except.toOption]⟩

-- the escape leaves the cursor behind the end, inside an argument
example : read "A[[B\\" = .error .malformed := by rfl

end TypeName

end ReflectionFlow

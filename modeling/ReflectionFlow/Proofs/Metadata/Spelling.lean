/-
  File:      ReflectionFlow/Proofs/Metadata/Spelling.lean
  Subject:   Type names that are written down read back.

  A written type name may carry suffixes, which the reader drops.  So what is written is a tree with
  suffixes, and what is read is the same tree without them.  The reader has to tell arguments from
  array suffixes, and a comma or a bracket means different things inside an argument and outside of
  one.  The proof follows the tree: a piece of the text is read to its end, whatever follows, as
  long as what follows closes it.

  * `Spelling`, `Spelling.text`     written type names
  * `TypeName.Plain`                names without the characters of the grammar
  * `Closes`                        what may follow a written name
  * `qualified_text`                names, with their arguments, are read to their end
  * `parse?_text`                   written names read back
-/
import Mathlib.Data.List.TakeWhile
import ReflectionFlow.Metadata.TypeName
import ReflectionFlow.Proofs.Text.Cursor

namespace ReflectionFlow

open Text

/-! ## 1. Written type names -/

/-- What may follow a name and its arguments: a pointer, a reference, or an array with a comma for
    each further dimension. -/
inductive Suffix where
  | pointer
  | reference
  | array (commas : Nat)
  deriving DecidableEq, Repr

def Suffix.text : Suffix → List Char
  | .pointer => ['*']
  | .reference => ['&']
  | .array commas => '[' :: (List.replicate commas ',' ++ [']'])

/-- **A type name as it is written**, with suffixes. -/
structure Spelling where
  name : String
  args : List Spelling
  suffixes : List Suffix
  assembly : Option String
  deriving Repr

namespace Spelling

/-- Texts in brackets of their own, with commas between them. -/
def listed (texts : List (List Char)) : List Char :=
  [','].intercalate (texts.map fun text => '[' :: (text ++ [']']))

/-- Arguments are written in brackets. -/
def argumentText : List (List Char) → List Char
  | [] => []
  | texts => '[' :: (listed texts ++ [']'])

/-- An assembly is written after a comma and a blank. -/
def assemblyText : Option String → List Char
  | none => []
  | some assembly => ',' :: ' ' :: assembly.toList

mutual

/-- The text of a written type name. -/
def text : Spelling → List Char
  | ⟨name, args, suffixes, assembly⟩ =>
    name.toList ++ (argumentText (texts args) ++
      (suffixes.flatMap Suffix.text ++ assemblyText assembly))

def texts : List Spelling → List (List Char)
  | [] => []
  | s :: rest => s.text :: texts rest

end

mutual

/-- The type name that is written: suffixes do not count. -/
def typeName : Spelling → TypeName
  | ⟨name, args, _, assembly⟩ => ⟨name, assembly, typeNames args⟩

def typeNames : List Spelling → List TypeName
  | [] => []
  | s :: rest => s.typeName :: typeNames rest

end

end Spelling

mutual

/-- A type name written without suffixes. -/
def TypeName.bare : TypeName → Spelling
  | ⟨name, assembly, args⟩ => ⟨name, bares args, [], assembly⟩

def TypeName.bares : List TypeName → List Spelling
  | [] => []
  | t :: rest => t.bare :: bares rest

end

mutual

theorem Spelling.typeName_bare : ∀ t : TypeName, t.bare.typeName = t
  | ⟨name, assembly, args⟩ => congrArg (TypeName.mk name assembly) (typeNames_bares args)

theorem Spelling.typeNames_bares : ∀ args : List TypeName, typeNames (TypeName.bares args) = args
  | [] => rfl
  | t :: args => congrArg₂ List.cons (typeName_bare t) (typeNames_bares args)

end

theorem Spelling.listed_one (text : List Char) : listed [text] = '[' :: (text ++ [']']) := by
  simp [listed]

theorem Spelling.listed_cons (text next : List Char) (texts : List (List Char)) :
    listed (text :: next :: texts) = '[' :: (text ++ ']' :: ',' :: listed (next :: texts)) := by
  simp [listed, List.intercalate]

theorem Spelling.listed_head (text : List Char) (texts : List (List Char)) :
    ∃ inner, listed (text :: texts) = '[' :: inner := by
  cases texts with
  | nil => exact ⟨_, listed_one text⟩
  | cons next texts => exact ⟨_, listed_cons text next texts⟩

/-! ## 2. Plain names -/

/-- No blank stands at either end. -/
structure Trimmed (cs : List Char) : Prop where
  head : ∀ c ∈ cs.head?, isBlank c = false
  last : ∀ c ∈ cs.getLast?, isBlank c = false

instance (cs : List Char) : Decidable (Trimmed cs) :=
  decidable_of_iff (cs.head?.any isBlank = false ∧ cs.getLast?.any isBlank = false) (by
    simp only [Option.any_eq_false]
    exact ⟨fun ⟨h, h'⟩ => ⟨h, h'⟩, fun ⟨h, h'⟩ => ⟨h, h'⟩⟩)

/-- **A text without some characters**, which has something in it and no blank at either end. -/
structure PlainText (marks : List Char) (text : String) : Prop where
  nonempty : text.toList ≠ []
  trimmed : Trimmed text.toList
  chars : ∀ c ∈ text.toList, c ∉ marks

instance (marks : List Char) (text : String) : Decidable (PlainText marks text) :=
  decidable_of_iff (text.toList ≠ [] ∧ Trimmed text.toList ∧
      text.toList.all (fun c => !marks.contains c) = true) (by
    simp only [List.all_eq_true, Bool.not_eq_true', List.contains_eq_mem, decide_eq_false_iff_not]
    exact ⟨fun ⟨h, h', h''⟩ => ⟨h, h', h''⟩, fun ⟨h, h', h''⟩ => ⟨h, h', h''⟩⟩)

/-- The characters that the grammar uses. -/
def nameMarks : List Char := ['[', ']', ',', '*', '&', '\\']

/-- The characters that end the name of an assembly. -/
def assemblyMarks : List Char := [',', ']']

namespace TypeName

mutual

/-- **A type name that can be written:** its names are plain, at every depth. -/
def Plain : TypeName → Prop
  | ⟨name, assembly, args⟩ =>
    PlainText nameMarks name ∧ (∀ a ∈ assembly, PlainText assemblyMarks a) ∧ AllPlain args

def AllPlain : List TypeName → Prop
  | [] => True
  | t :: rest => t.Plain ∧ AllPlain rest

end

end TypeName

theorem trimBlanks_of_trimmed {cs : List Char} (h : Trimmed cs) : trimBlanks cs = cs := by
  have hdrop : ∀ {l : List Char}, (∀ c ∈ l.head?, isBlank c = false) → l.dropWhile isBlank = l := by
    intro l hl
    cases l with
    | nil => rfl
    | cons c l => rw [List.dropWhile_cons, if_neg (by simp [hl c rfl])]
  unfold trimBlanks
  rw [hdrop h.head, hdrop (by simpa using h.last), List.reverse_reverse]

/-- A blank in front does not count. -/
theorem trimBlanks_cons {b : Char} (hb : isBlank b = true) (cs : List Char) :
    trimBlanks (b :: cs) = trimBlanks cs := by
  unfold trimBlanks
  rw [List.dropWhile_cons, if_pos hb]

namespace TypeName

open Cursor

variable {c : Cursor} {cs more : List Char}

/-! ## 3. Pieces of the grammar -/

theorem ok_bind {α β : Type} (a : α) (f : α → Except ReadFailure β) :
    (Except.ok a >>= f) = f a :=
  rfl

theorem nameStep_plain {x : Char} (hpeek : c.peek? = some x)
    (hx : x ∉ nameMarks) : nameStep c = some (c.skip 1) := by
  have hends : endsName x = false := by simp_all [endsName, nameMarks]
  have hslash : x ≠ '\\' := by simp_all [nameMarks]
  unfold nameStep
  rw [hpeek]
  split
  next h => exact absurd (Option.some.inj h) hslash
  next y _ h =>
    obtain rfl := Option.some.inj h
    simp [hends]
  next h => cases h

theorem nameStep_stop (h : ∀ x ∈ c.peek?, endsName x = true) : nameStep c = none := by
  unfold nameStep
  split
  next hpeek => exact absurd (h _ hpeek) (by decide)
  next x _ hpeek => rw [if_pos (h x hpeek)]
  next => rfl

theorem skipName_eq (hc : c.rest = cs ++ more) (hcs : ∀ x ∈ cs, x ∉ nameMarks)
    (hmore : ∀ x ∈ more.head?, endsName x = true) : skipName c = .ok (c.skip cs.length) := by
  refine iterate_chars ?_ ?_ hc
  · intro x hx c more hc
    rw [nameStep_plain (peek?_of_rest hc) (hcs x hx)]
    rfl
  · intro c hc
    have hends : ∀ x ∈ c.peek?, endsName x = true := by rw [peek?_eq, hc]; exact hmore
    rw [nameStep_stop hends]
    rfl

/-- Nothing is skipped before a character that is no blank. -/
theorem skipBlanks_self {x : Char} (hx : isBlank x = false) (hc : c.rest = x :: more) :
    skipBlanks c = .ok c := by
  refine skipWhile_self fun y hy => ?_
  rw [hc] at hy
  obtain rfl := Option.some.inj hy
  exact hx

theorem expect_eq {x : Char} (hx : isBlank x = false) (hc : c.rest = x :: more) :
    expect x c = .ok (c.skip 1) := by
  rw [expect, skipBlanks_self hx hc, ok_bind, if_pos (peek?_of_rest hc)]
  rfl

/-- **A suffix is read to its end.** -/
theorem suffixStep_eq (s : Suffix) (hc : c.rest = s.text ++ more) :
    suffixStep c = .ok (some (c.skip s.text.length)) := by
  unfold suffixStep
  rw [peek?_eq, hc]
  cases s with
  | pointer => rfl
  | reference => rfl
  | array commas =>
      have hinner : (c.skip 1).rest = List.replicate commas ',' ++ (']' :: more) := by
        rw [rest_skip, hc]
        simp [Suffix.text]
      have hranks : (c.skip 1).skipWhile isRank = .ok ((c.skip 1).skip commas) := by
        have h := skipWhile_eq hinner (p := isRank)
          (fun x hx => by rw [List.eq_of_mem_replicate hx]; rfl) (by simp [isRank])
        rwa [List.length_replicate] at h
      have hclose : ((c.skip 1).skip commas).rest = ']' :: more := by
        have h := rest_skip_append hinner
        rwa [List.length_replicate] at h
      show (do
        let ranks ← (c.skip 1).skipWhile isRank
        let stop ← expect ']' ranks
        pure (some stop)) = _
      rw [hranks]
      show (do
        let stop ← expect ']' ((c.skip 1).skip commas)
        pure (some stop)) = _
      rw [expect_eq (by decide) hclose, skip_skip, skip_skip]
      simp [Suffix.text, pure, Except.pure, bind, Except.bind, Nat.add_comm, Nat.add_left_comm]

theorem suffixes_eq {row : List Suffix} (hc : c.rest = row.flatMap Suffix.text ++ more)
    (hmore : ∀ x ∈ more.head?, x ∉ ['*', '&', '[']) :
    suffixes c = .ok (c.skip (row.flatMap Suffix.text).length) := by
  refine iterate_flatMap (fun s _ c more hc => suffixStep_eq s hc) ?_ ?_ c hc
  · intro s _
    cases s <;> exact List.cons_ne_nil _ _
  · intro c hc
    have hpeek : ∀ x ∈ c.peek?, x ∉ ['*', '&', '['] := by rw [peek?_eq, hc]; exact hmore
    unfold suffixStep
    split
    next h => exact absurd (hpeek _ h) (by decide)
    next h => exact absurd (hpeek _ h) (by decide)
    next h => exact absurd (hpeek _ h) (by decide)
    next => rfl

/-- **What may follow a name:** nothing, or the bracket that closes an argument. -/
inductive Closes : Ending → List Char → Prop where
  | text : Closes .text []
  | bracket (more : List Char) : Closes .bracket (']' :: more)

variable {ending : Ending}

theorem Closes.head (h : Closes ending more) : ∀ x ∈ more.head?, x = ']' := by
  intro x hx
  cases h with
  | text => cases hx
  | bracket more => exact (Option.some.inj hx).symm

/-- **An assembly is read to its end**, and none where there is none. -/
theorem qualification_eq {assembly : Option String}
    (hplain : ∀ a ∈ assembly, PlainText assemblyMarks a) (hclose : Closes ending more)
    (hc : c.rest = Spelling.assemblyText assembly ++ more) :
    qualification ending c =
      .ok (assembly, c.skip (Spelling.assemblyText assembly).length) := by
  unfold qualification
  cases assembly with
  | none =>
      have hc : c.rest = more := hc
      have hhead : ∀ x ∈ c.rest.head?, x = ']' := by rw [hc]; exact hclose.head
      have hblanks : skipBlanks c = .ok c := by
        refine skipWhile_self fun x hx => ?_
        rw [hhead x hx]
        decide
      have hpeek : c.peek? ≠ some ',' := by
        intro h
        rw [peek?_eq] at h
        exact absurd (hhead ',' h) (by decide)
      rw [hblanks, ok_bind, if_neg (fun h => hpeek h.2)]
      rfl
  | some a =>
      have ha := hplain a rfl
      have hinner : (c.skip 1).rest = (' ' :: a.toList) ++ more := by
        rw [rest_skip, hc]
        rfl
      have hblanks : skipBlanks c = .ok c := skipBlanks_self (by decide) hc
      have hpeek : c.peek? = some ',' := peek?_of_rest hc
      have hending : ending ≠ .argument := by cases hclose <;> decide
      have hchars : ∀ x ∈ ' ' :: a.toList, x ≠ ',' ∧ x ≠ ']' := by
        intro x hx
        rcases List.mem_cons.mp hx with rfl | hx
        · decide
        · simpa [assemblyMarks] using ha.chars x hx
      have hstop : (c.skip 1).skipWhile (fun d => !(d == ']' && ending == .bracket)) =
          .ok ((c.skip 1).skip (' ' :: a.toList).length) := by
        refine skipWhile_eq hinner ?_ ?_
        · intro x hx
          have hx : x ≠ ']' := (hchars x hx).2
          simp [hx]
        · intro x hx
          cases hclose with
          | text => cases hx
          | bracket more =>
              obtain rfl := Option.some.inj hx
              rfl
      obtain ⟨_, hslice⟩ := slice_eq hinner (List.cons_ne_nil _ _)
      have hsimple : trimBlanks ((' ' :: a.toList).takeWhile (· != ',')) = a.toList := by
        rw [List.takeWhile_eq_self_iff.mpr fun x hx => by simp [(hchars x hx).1],
          trimBlanks_cons (by decide), trimBlanks_of_trimmed ha.trimmed]
      have hnonempty : ¬ a.toList.isEmpty = true := by simpa using ha.nonempty
      rw [hblanks, ok_bind, if_pos ⟨hending, hpeek⟩]
      simp only [hstop, ok_bind]
      rw [position_skip (c.skip 1), hslice, ok_bind, hsimple, if_neg hnonempty, skip_skip,
        String.ofList_toList, Nat.add_comm]
      rfl

/-! ## 4. Arguments and suffixes -/

/-- Two brackets open arguments. -/
theorem opensArguments_of_brackets (hc : c.rest = '[' :: '[' :: more) :
    opensArguments c = true := by
  unfold opensArguments
  rw [peek?_eq, peekSecond?_eq, hc]
  rfl

/-- A bracket that opens a suffix opens no arguments. -/
theorem not_opensArguments {row : List Suffix} (hc : c.rest = row.flatMap Suffix.text ++ more)
    (hmore : ∀ x ∈ more.head?, x ≠ '[') : opensArguments c = false := by
  unfold opensArguments
  rw [peek?_eq, peekSecond?_eq, hc]
  cases row with
  | nil =>
      have hhead : ¬ more.head? = some '[' := fun h => hmore '[' h rfl
      simp [hhead]
  | cons s row =>
      cases s with
      | pointer => rfl
      | reference => rfl
      | array commas => cases commas <;> rfl

/-- What starts a text that is put together starts one of its parts. -/
theorem head_append {P : Char → Prop} (hcs : ∀ x ∈ cs.head?, P x) (hmore : ∀ x ∈ more.head?, P x) :
    ∀ x ∈ (cs ++ more).head?, P x := by
  intro x hx
  rw [List.head?_append] at hx
  cases h : cs.head? with
  | none =>
      rw [h] at hx
      exact hmore x hx
  | some y =>
      rw [h] at hx
      exact hcs x (h.trans hx)

theorem head_assembly (assembly : Option String) (hclose : Closes ending more) :
    ∀ x ∈ (Spelling.assemblyText assembly ++ more).head?, x = ',' ∨ x = ']' := by
  refine head_append ?_ fun x hx => Or.inr (hclose.head x hx)
  intro x hx
  cases assembly with
  | none => cases hx
  | some a => exact Or.inl (Option.some.inj hx).symm

theorem head_arguments (texts : List (List Char)) :
    ∀ x ∈ (Spelling.argumentText texts).head?, x = '[' := by
  intro x hx
  cases texts with
  | nil => cases hx
  | cons text texts => exact (Option.some.inj hx).symm

theorem head_suffixes (row : List Suffix) :
    ∀ x ∈ (row.flatMap Suffix.text).head?, x = '*' ∨ x = '&' ∨ x = '[' := by
  intro x hx
  cases row with
  | nil => cases hx
  | cons s row =>
      cases s with
      | pointer => exact Or.inl (Option.some.inj hx).symm
      | reference => exact Or.inr (Or.inl (Option.some.inj hx).symm)
      | array commas => exact Or.inr (Or.inr (Option.some.inj hx).symm)

/-- **Behind the arguments, suffixes and assembly are read to their end.** -/
theorem ending_eq {name : String} {args : List TypeName} {row : List Suffix}
    {assembly : Option String} (hplain : ∀ a ∈ assembly, PlainText assemblyMarks a)
    (hclose : Closes ending more)
    (hc : c.rest = row.flatMap Suffix.text ++ (Spelling.assemblyText assembly ++ more)) :
    (do
      let c ← suffixes c
      let (assembly, c) ← qualification ending c
      return ((⟨name, assembly, args⟩ : TypeName), c)) =
    .ok (⟨name, assembly, args⟩,
      c.skip (row.flatMap Suffix.text ++ Spelling.assemblyText assembly).length) := by
  have hhead : ∀ x ∈ (Spelling.assemblyText assembly ++ more).head?, x ∉ ['*', '&', '['] := by
    intro x hx
    rcases head_assembly assembly hclose x hx with rfl | rfl <;> decide
  rw [suffixes_eq hc hhead, ok_bind, qualification_eq hplain hclose (rest_skip_append hc), ok_bind,
    skip_skip, List.length_append]
  rfl

/-! ## 5. Names and their arguments -/

/-- The arguments of a written name are read to their end. -/
def ArgumentsRead (args : List Spelling) : Prop :=
  ∀ (c : Cursor) (x : Char) (more : List Char),
    c.rest = x :: (Spelling.listed (Spelling.texts args) ++ ']' :: more) →
    arguments c = .ok (Spelling.typeNames args,
      c.skip ((Spelling.listed (Spelling.texts args)).length + 2))

/-- **A written name is read to its end**, if its arguments are. -/
theorem qualified_text_of {name : String} {args : List Spelling} {row : List Suffix}
    {assembly : Option String} (hname : PlainText nameMarks name)
    (hassembly : ∀ a ∈ assembly, PlainText assemblyMarks a)
    (hargs : args ≠ [] → ArgumentsRead args) (hclose : Closes ending more)
    (hc : c.rest = Spelling.text ⟨name, args, row, assembly⟩ ++ more) :
    qualified ending c = .ok (⟨name, assembly, Spelling.typeNames args⟩,
      c.skip (Spelling.text ⟨name, args, row, assembly⟩).length) := by
  rw [Spelling.text] at hc ⊢
  simp only [List.append_assoc] at hc
  have hblanks : skipBlanks c = .ok c := by
    refine skipWhile_self ?_
    rw [hc]
    intro x hx
    rw [List.head?_append, List.head?_eq_some_head hname.nonempty] at hx
    exact hname.trimmed.head x ((List.head?_eq_some_head hname.nonempty).trans hx)
  have hafter : ∀ x ∈ (Spelling.argumentText (Spelling.texts args) ++
      (row.flatMap Suffix.text ++ (Spelling.assemblyText assembly ++ more))).head?,
      endsName x = true := by
    refine head_append ?_ (head_append ?_ ?_)
    · intro x hx
      rw [head_arguments _ x hx]
      rfl
    · intro x hx
      rcases head_suffixes row x hx with rfl | rfl | rfl <;> rfl
    · intro x hx
      rcases head_assembly assembly hclose x hx with rfl | rfl <;> rfl
  have hskip := skipName_eq hc hname.chars hafter
  obtain ⟨hsize, hslice⟩ := slice_eq hc hname.nonempty
  have hstop := rest_skip_append hc
  have hnonempty : ¬ name.toList.isEmpty = true := by simpa using hname.nonempty
  rw [qualified, hblanks, ok_bind, hskip, ok_bind, position_skip, chars_skip, Nat.min_eq_left hsize,
    hslice, ok_bind]
  simp only [trimBlanks_of_trimmed hname.trimmed, if_neg hnonempty, String.ofList_toList]
  cases args with
  | nil =>
      have hopens : opensArguments (c.skip name.toList.length) = false := by
        refine not_opensArguments hstop fun x hx => ?_
        rcases head_assembly assembly hclose x hx with rfl | rfl <;> decide
      rw [if_neg (by simp [hopens])]
      refine (ending_eq hassembly hclose hstop).trans ?_
      rw [skip_skip]
      simp only [Spelling.texts, Spelling.typeNames, Spelling.argumentText, List.length_append,
        List.length_nil, Nat.zero_add]
  | cons s args =>
      obtain ⟨inner, hinner⟩ := Spelling.listed_head s.text (Spelling.texts args)
      have hlength : (Spelling.argumentText (Spelling.texts (s :: args))).length =
          (Spelling.listed (Spelling.texts (s :: args))).length + 2 := by
        simp [Spelling.texts, Spelling.argumentText]
      have hbrackets : (c.skip name.toList.length).rest = '[' :: '[' :: (inner ++ ']' ::
          (row.flatMap Suffix.text ++ (Spelling.assemblyText assembly ++ more))) := by
        rw [hstop]
        simp [Spelling.texts, Spelling.argumentText, hinner]
      have hopens := opensArguments_of_brackets hbrackets
      have hless := left_skip_lt hc hname.nonempty
      have harguments := hargs (List.cons_ne_nil _ _) (c.skip name.toList.length) '['
        (row.flatMap Suffix.text ++ (Spelling.assemblyText assembly ++ more))
        (hstop.trans (by simp [Spelling.texts, Spelling.argumentText]))
      rw [← hlength] at harguments
      rw [if_pos hopens, onward_eq hless, ok_bind, harguments, ok_bind]
      refine (ending_eq hassembly hclose (rest_skip_append hstop)).trans ?_
      rw [skip_skip, skip_skip]
      simp only [List.length_append, Nat.add_assoc]

/-- The first of some arguments is read to its end; then comes a comma or the closing bracket. -/
theorem arguments_first {s : Spelling} {x : Char} {closing : List Char}
    (hs : ∀ (c : Cursor) (more : List Char), c.rest = s.text ++ ']' :: more →
      qualified .bracket c = .ok (s.typeName, c.skip s.text.length))
    (hc : c.rest = x :: '[' :: (s.text ++ ']' :: closing)) :
    (c.skip (s.text.length + 3)).rest = closing ∧
      arguments c = (do
        let stop ← skipBlanks (c.skip (s.text.length + 3))
        match stop.peek? with
        | some ',' =>
          let ⟨next, _⟩ ← c.onward stop
          let (args, stop) ← arguments next
          return (s.typeName :: args, stop)
        | some ']' => return ([s.typeName], stop.skip 1)
        | _ => throw .malformed) := by
  have hstart : (c.skip 1).rest = '[' :: (s.text ++ ']' :: closing) := by
    rw [rest_skip, hc]
    rfl
  have hblanks := skipBlanks_self (by decide) hstart
  have hpeek := peek?_of_rest hstart
  have hinner : ((c.skip 1).skip 1).rest = s.text ++ ']' :: closing := by
    rw [rest_skip, hstart]
    rfl
  have hless : ((c.skip 1).skip 1).left < c.left := by
    rw [left_eq, left_eq, hinner, hc]
    simp only [List.length_cons]
    omega
  have hbracket := rest_skip_append hinner
  have hexpect := expect_eq (by decide) hbracket
  have hstop : (((c.skip 1).skip 1).skip s.text.length).skip 1 = c.skip (s.text.length + 3) := by
    simp only [skip_skip]
    congr 1
    omega
  rw [hstop] at hexpect
  constructor
  · rw [← hstop, rest_skip, hbracket]
    rfl
  · rw [arguments, hblanks, ok_bind, if_pos hpeek, onward_eq hless, ok_bind]
    simp only [hs _ _ hinner, ok_bind, hexpect]
    rfl

/-- **Written arguments are read to their end**, if the first one and the others are. -/
theorem arguments_text_of {s : Spelling} {args : List Spelling}
    (hs : ∀ (c : Cursor) (more : List Char), c.rest = s.text ++ ']' :: more →
      qualified .bracket c = .ok (s.typeName, c.skip s.text.length))
    (hargs : args ≠ [] → ArgumentsRead args) : ArgumentsRead (s :: args) := by
  intro c x more hc
  cases args with
  | nil =>
      have htext : Spelling.listed (Spelling.texts [s]) = '[' :: (s.text ++ [']']) :=
        Spelling.listed_one s.text
      have hc : c.rest = x :: '[' :: (s.text ++ ']' :: ']' :: more) := by
        rw [hc, htext]
        simp
      obtain ⟨hrest, harguments⟩ := arguments_first hs hc
      have hblanks := skipBlanks_self (by decide) hrest
      have hpeek := peek?_of_rest hrest
      rw [harguments, hblanks, ok_bind, hpeek, htext]
      simp only [Spelling.typeNames, List.length_cons, List.length_append, List.length_nil,
        skip_skip]
      rfl
  | cons s' args =>
      have htext : Spelling.listed (Spelling.texts (s :: s' :: args)) =
          '[' :: (s.text ++ ']' :: ',' :: Spelling.listed (Spelling.texts (s' :: args))) :=
        Spelling.listed_cons s.text s'.text (Spelling.texts args)
      have hc : c.rest = x :: '[' :: (s.text ++ ']' :: ',' ::
          (Spelling.listed (Spelling.texts (s' :: args)) ++ ']' :: more)) := by
        rw [hc, htext]
        simp
      obtain ⟨hrest, harguments⟩ := arguments_first hs hc
      have hblanks := skipBlanks_self (by decide) hrest
      have hpeek := peek?_of_rest hrest
      have hless : (c.skip (s.text.length + 3)).left < c.left := by
        rw [left_eq, left_eq, hrest, hc]
        simp only [List.length_cons, List.length_append]
        omega
      have hmore := hargs (List.cons_ne_nil _ _) _ ',' more hrest
      have hskip : (c.skip (s.text.length + 3)).skip
          ((Spelling.listed (Spelling.texts (s' :: args))).length + 2) =
          c.skip ((Spelling.listed (Spelling.texts (s :: s' :: args))).length + 2) := by
        rw [skip_skip, htext]
        simp only [List.length_cons, List.length_append]
        congr 1
        omega
      rw [hskip] at hmore
      rw [harguments, hblanks, ok_bind, hpeek]
      simp only [onward_eq hless, ok_bind, hmore]
      rfl

mutual

/-- **A written name is read to its end.** -/
theorem qualified_text : ∀ (s : Spelling), s.typeName.Plain →
    ∀ (ending : Ending) (c : Cursor) (more : List Char), Closes ending more →
    c.rest = s.text ++ more → qualified ending c = .ok (s.typeName, c.skip s.text.length)
  | ⟨name, args, row, assembly⟩, hplain, ending, c, more, hclose, hc => by
      obtain ⟨hname, hassembly, hargs⟩ := hplain
      exact qualified_text_of hname hassembly (arguments_text args hargs) hclose hc

/-- **Written arguments are read to their end.** -/
theorem arguments_text : ∀ (args : List Spelling), AllPlain (Spelling.typeNames args) →
    args ≠ [] → ArgumentsRead args
  | [], _, h => absurd rfl h
  | s :: args, hplain, _ => by
      obtain ⟨hs, hargs⟩ := hplain
      refine arguments_text_of (fun c more hc => ?_) (arguments_text args hargs)
      exact qualified_text s hs .bracket c _ (.bracket more) hc

end

/-- **Written type names read back.**  Every plain type name can be written, with any suffixes at
    any depth, and whatever is written for it is read as the name itself. -/
theorem parse?_text (t : TypeName) (ht : t.Plain) :
    (∃ s : Spelling, s.typeName = t) ∧
      ∀ s : Spelling, s.typeName = t → parse? (String.ofList s.text) = some t := by
  refine ⟨⟨t.bare, Spelling.typeName_bare t⟩, ?_⟩
  intro s hs
  subst hs
  have hstart : (Cursor.ofString (String.ofList s.text)).rest = s.text ++ [] := by
    simp [Cursor.ofString, Cursor.rest]
  have hname := qualified_text s ht .text _ [] .text hstart
  have hend := rest_skip_append hstart
  have hblanks : skipBlanks ((Cursor.ofString (String.ofList s.text)).skip s.text.length) =
      .ok ((Cursor.ofString (String.ofList s.text)).skip s.text.length) :=
    skipWhile_self (by simp [hend])
  have hatEnd : ((Cursor.ofString (String.ofList s.text)).skip s.text.length).atEnd = true := by
    simp [Cursor.ofString, Cursor.skip, Cursor.atEnd]
  rw [parse?, read, hname, ok_bind]
  simp only [hblanks, ok_bind, hatEnd, if_true]
  rfl

/-- A name with two arguments: one is qualified and has an argument of its own, one is an array. -/
def nested : Spelling :=
  ⟨"Map", [⟨"Set", [⟨"Key", [], [.pointer, .reference], some "Core"⟩], [.array 0], none⟩,
    ⟨"Outer+Value", [], [.array 2, .pointer], none⟩], [.array 0], some "Runtime"⟩

theorem nested_reads_back :
    String.ofList nested.text = "Map[[Set[[Key*&, Core]][]],[Outer+Value[,,]*]][], Runtime" ∧
      nested.typeName.Plain ∧ parse? (String.ofList nested.text) = some nested.typeName := by
  have hkey : Plain ⟨"Key", some "Core", []⟩ :=
    ⟨by decide, fun a ha => Option.some.inj ha ▸ by decide, trivial⟩
  have hset : Plain ⟨"Set", none, [⟨"Key", some "Core", []⟩]⟩ :=
    ⟨by decide, nofun, hkey, trivial⟩
  have hvalue : Plain ⟨"Outer+Value", none, []⟩ := ⟨by decide, nofun, trivial⟩
  have hnested : nested.typeName.Plain :=
    ⟨by decide, fun a ha => Option.some.inj ha ▸ by decide, hset, hvalue, trivial⟩
  exact ⟨by decide, hnested, (parse?_text nested.typeName hnested).2 nested rfl⟩

end TypeName

end ReflectionFlow

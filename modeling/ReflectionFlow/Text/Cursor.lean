/-
  File:      ReflectionFlow/Text/Cursor.lean
  Subject:   A place in a text, and reading on from it.

  A cursor may stand behind the end of its text, because an escape takes two characters along even
  where only one is left.  There is nothing to read there, but a part of the text that starts there
  does not exist either, and a step that reads nothing could be repeated forever.  Both are failures
  of their own, apart from a text that is not what was looked for.

  Main definitions:
  * `ReadFailure`                    why nothing is read
  * `Cursor`, `Cursor.peek?`         a place in a text and the character there
  * `Cursor.slice`                   a part of the text
  * `Cursor.onward`                  a place from which less is left to read
  * `Cursor.iterate`                 a step, again and again
-/

namespace ReflectionFlow.Text

/-- Why nothing is read. -/
inductive ReadFailure where
  /-- The text is not what was looked for. -/
  | malformed
  /-- A part of the text was asked for that is not in it. -/
  | outOfRange (start stop : Nat)
  /-- Something was to be repeated at a place behind which not less is left to read. -/
  | stuck (position : Nat)
  deriving DecidableEq, Repr

/-- A place in a text. -/
structure Cursor where
  chars : Array Char
  position : Nat

namespace Cursor

/-- The start of a text. -/
def ofString (text : String) : Cursor := ⟨text.toList.toArray, 0⟩

/-- The next character. -/
def peek? (c : Cursor) : Option Char := c.chars[c.position]?

/-- The character after the next one. -/
def peekSecond? (c : Cursor) : Option Char := c.chars[c.position + 1]?

/-- Is there nothing more to read? -/
def atEnd (c : Cursor) : Bool := c.chars.size ≤ c.position

/-- The number of characters that are left to read. -/
def left (c : Cursor) : Nat := c.chars.size - c.position

/-- The place some characters further on. -/
def skip (c : Cursor) (n : Nat) : Cursor := { c with position := c.position + n }

/-- The part of the text from one position to another. -/
def slice (c : Cursor) (start stop : Nat) : Except ReadFailure (List Char) :=
  if start ≤ stop ∧ stop ≤ c.chars.size then .ok (c.chars.extract start stop).toList
  else .error (.outOfRange start stop)

@[simp] theorem chars_skip (c : Cursor) (n : Nat) : (c.skip n).chars = c.chars := rfl

@[simp] theorem position_skip (c : Cursor) (n : Nat) : (c.skip n).position = c.position + n := rfl

/-- A character that is there stands before the end. -/
theorem lt_size_of_peek? {c : Cursor} {d : Char} (h : c.peek? = some d) :
    c.position < c.chars.size :=
  (Array.getElem?_eq_some_iff.mp h).1

/-- Goes on at a place from which less is left to read than from `start`. -/
def onward (start c : Cursor) : Except ReadFailure { c : Cursor // c.left < start.left } :=
  if h : c.left < start.left then .ok ⟨c, h⟩ else .error (.stuck start.position)

theorem onward_eq {start c : Cursor} (h : c.left < start.left) : start.onward c = .ok ⟨c, h⟩ :=
  dif_pos h

/-- Repeats a step until it says that there is no more to do. -/
@[semireducible] def iterate (step : Cursor → Except ReadFailure (Option Cursor)) (c : Cursor) :
    Except ReadFailure Cursor := do
  match ← step c with
  | none => return c
  | some next =>
    let ⟨next, _⟩ ← c.onward next
    iterate step next
termination_by c.left

/-- Skips characters of a kind. -/
def skipWhile (p : Char → Bool) : Cursor → Except ReadFailure Cursor :=
  iterate fun c => return (c.peek?.filter p).map fun _ => c.skip 1

end Cursor

end ReflectionFlow.Text

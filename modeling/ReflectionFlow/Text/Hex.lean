/-
  File:      ReflectionFlow/Text/Hex.lean
  Subject:   Hexadecimal and decimal number text.

  Tokens are written with eight hexadecimal digits, code offsets with at least four, all
  in lower case.  `padded` never cuts a number: a wider one is written in full.
-/

namespace ReflectionFlow.Text

/-- The digits of a number in lower-case hexadecimal, without padding. -/
def hex (n : Nat) : String := String.ofList (Nat.toDigits 16 n)

/-- Fills a digit text up to the given width with zeros on the left. -/
def padded (width : Nat) (digits : String) : String :=
  "".pushn '0' (width - digits.length) ++ digits

/-- Hexadecimal with at least the given number of digits. -/
def hexPadded (width n : Nat) : String := padded width (hex n)

/-- The text of a code offset: `IL_` and at least four digits. -/
def offset (n : Nat) : String := "IL_" ++ hexPadded 4 n

/-- Texts put one after the other with a separator between them. -/
def joined (separator : String) (parts : List String) : String :=
  separator.intercalate parts

/-- Numbers in brackets, divided by a comma and a blank. -/
def numberList (ns : List Nat) : String :=
  "[" ++ joined ", " (ns.map toString) ++ "]"

example : hexPadded 8 0x2000001 = "02000001" := by decide +kernel
example : offset 0x12345 = "IL_12345" := by decide +kernel

end ReflectionFlow.Text

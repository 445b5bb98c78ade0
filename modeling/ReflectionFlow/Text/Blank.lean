/-
  File:      ReflectionFlow/Text/Blank.lean
  Subject:   Characters with the White_Space property, and trimming.

  Names in type name texts may be surrounded by blanks of any script, so the whole
  property counts and not only the ASCII part of it.
-/
import ReflectionFlow.Text.Ranges

namespace ReflectionFlow.Text

/-- The code points of the White_Space property. -/
def blankRanges : Ranges :=
  [(0x09, 0x0D), (0x20, 0x20), (0x85, 0x85), (0xA0, 0xA0), (0x1680, 0x1680), (0x2000, 0x200A),
   (0x2028, 0x2029), (0x202F, 0x202F), (0x205F, 0x205F), (0x3000, 0x3000)]

/-- Is the character a blank? -/
def isBlank (c : Char) : Bool := inRanges blankRanges c.toNat

/-- Drops the blanks at both ends. -/
def trimBlanks (cs : List Char) : List Char :=
  ((cs.dropWhile isBlank).reverse.dropWhile isBlank).reverse

example : blankRanges.ascending = true ∧ blankRanges.count = 25 := by decide

end ReflectionFlow.Text

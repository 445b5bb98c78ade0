/-
  File:      ReflectionFlow/Text/Quoted.lean
  Subject:   Text between double quotes, with every invisible character spelled out.

  Quote, backslash, newline, return, tab and the null character have two-character
  escapes.  Every other character that shows nothing of itself, or that would attach itself
  to the character before it, is written as its code point in braces.

  Main definitions:
  * `needsCodePoint`    must a character be spelled out?
  * `quoted`            the quoted text
-/
import ReflectionFlow.Text.Attaching
import ReflectionFlow.Text.Hex
import ReflectionFlow.Text.Invisible

namespace ReflectionFlow.Text

/-- Must the character be written as its code point? -/
def needsCodePoint (c : Char) : Bool := isInvisible c || isAttaching c

/-- How one character is written inside quotes. -/
def quotedChar (c : Char) : String :=
  match c with
  | '"' => "\\\""
  | '\\' => "\\\\"
  | '\n' => "\\n"
  | '\r' => "\\r"
  | '\t' => "\\t"
  | '\x00' => "\\0"
  | c => if needsCodePoint c then "\\u\x7b" ++ hex c.toNat ++ "\x7d" else c.toString

/-- The text between double quotes. -/
def quoted (s : String) : String :=
  "\"" ++ String.join (s.toList.map quotedChar) ++ "\""

end ReflectionFlow.Text

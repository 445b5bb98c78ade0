/-
  File:      ReflectionFlow/Metadata/TypeName.lean
  Subject:   Type names as reflection takes them.

  A type name is a full name, generic arguments in brackets, suffixes for arrays, pointers
  and references, and the name of an assembly after a comma.  An argument that is itself
  qualified by an assembly stands in brackets of its own.  Suffixes are read and dropped:
  what is kept reachable for an array are the members of its element type.

  A backslash takes the next character into the name, whatever it is.  Blanks around names
  do not count.

  Main definitions:
  * `TypeName`           a name, its assembly and its arguments
  * `TypeName.read`      reads a name, or says why not
  * `TypeName.parse?`    reads a name
-/
import ReflectionFlow.Text.Blank
import ReflectionFlow.Text.Cursor

namespace ReflectionFlow

/-- A type name. -/
structure TypeName where
  /-- Full name of the type, nested types after a plus sign. -/
  name : String
  /-- Simple name of the assembly. -/
  assembly : Option String
  /-- Generic arguments. -/
  args : List TypeName
  deriving Repr

namespace TypeName

open Text

/-! ## 1. Pieces of the grammar -/

/-- Where a name can end: with the text, before the bracket that closes an argument of its
    own, or before the next argument of a list, which leaves no room for an assembly. -/
inductive Ending where
  | text
  | bracket
  | argument
  deriving DecidableEq, Repr

/-- Skips blanks. -/
def skipBlanks : Cursor → Except ReadFailure Cursor := Cursor.skipWhile isBlank

/-- The characters that end a name. -/
def endsName (c : Char) : Bool := c == '[' || c == ']' || c == ',' || c == '*' || c == '&'

/-- Takes a character into a name; a backslash takes the next one along. -/
def nameStep (c : Cursor) : Option Cursor :=
  match c.peek? with
  | some '\\' => some (c.skip 2)
  | some d => if endsName d then none else some (c.skip 1)
  | none => none

/-- Skips a name. -/
def skipName : Cursor → Except ReadFailure Cursor := Cursor.iterate fun c => return nameStep c

/-- Reads a character after optional blanks. -/
def expect (d : Char) (c : Cursor) : Except ReadFailure Cursor := do
  let c ← skipBlanks c
  if c.peek? = some d then return c.skip 1 else throw .malformed

/-- Do the brackets that follow a name hold arguments?  They do unless they start like an
    array suffix. -/
def opensArguments (c : Cursor) : Bool :=
  c.peek? == some '[' && !(c.peekSecond?.any fun d => d == ']' || d == ',' || d == '*')

/-- What may stand inside the brackets of an array suffix. -/
def isRank (c : Char) : Bool := c == ',' || c == '*' || c == ' '

/-- Reads a suffix, if there is one. -/
def suffixStep (c : Cursor) : Except ReadFailure (Option Cursor) := do
  match c.peek? with
  | some '*' | some '&' => return some (c.skip 1)
  | some '[' => return some (← expect ']' (← (c.skip 1).skipWhile isRank))
  | _ => return none

/-- Reads and drops suffixes. -/
def suffixes : Cursor → Except ReadFailure Cursor := Cursor.iterate suffixStep

/-- Reads the assembly that may follow a name.  Of a qualification only the part before its
    first comma counts. -/
def qualification (ending : Ending) (c : Cursor) : Except ReadFailure (Option String × Cursor) := do
  let c ← skipBlanks c
  if ending ≠ .argument ∧ c.peek? = some ',' then
    let start := c.skip 1
    let stop ← start.skipWhile fun d => !(d == ']' && ending == .bracket)
    let text ← stop.slice start.position stop.position
    let simple := trimBlanks (text.takeWhile (· != ','))
    if simple.isEmpty then throw .malformed else return (some (String.ofList simple), stop)
  else return (none, c)

/-! ## 2. The grammar -/

mutual

/-- Reads one name with its arguments, suffixes and assembly. -/
@[semireducible] def qualified (ending : Ending) (entry : Cursor) :
    Except ReadFailure (TypeName × Cursor) := do
  let start ← skipBlanks entry
  let stop ← skipName start
  -- an escape at the end of the text leaves the cursor behind the end
  let raw ← stop.slice start.position (min stop.position stop.chars.size)
  let name := trimBlanks raw
  if name.isEmpty then throw .malformed
  else
    let (args, c) ←
      if opensArguments stop then
        let ⟨bracket, _⟩ ← entry.onward stop
        arguments bracket
      else pure ([], stop)
    let c ← suffixes c
    let (assembly, c) ← qualification ending c
    return (⟨String.ofList name, assembly, args⟩, c)
termination_by entry.left

/-- Reads the arguments from an opening bracket or a comma on, up to the closing bracket. -/
@[semireducible] def arguments (c : Cursor) : Except ReadFailure (List TypeName × Cursor) := do
  let start ← skipBlanks (c.skip 1)
  let (arg, stop) ←
    if start.peek? = some '[' then
      let ⟨inner, _⟩ ← c.onward (start.skip 1)
      let (arg, stop) ← qualified .bracket inner
      pure (arg, ← expect ']' stop)
    else
      let ⟨inner, _⟩ ← c.onward start
      qualified .argument inner
  let stop ← skipBlanks stop
  match stop.peek? with
  | some ',' =>
    let ⟨next, _⟩ ← c.onward stop
    let (args, stop) ← arguments next
    return (arg :: args, stop)
  | some ']' => return ([arg], stop.skip 1)
  | _ => throw .malformed
termination_by c.left

end

/-- Reads a type name that takes up the whole text, or says why there is none. -/
def read (text : String) : Except ReadFailure TypeName := do
  let (name, c) ← qualified .text (.ofString text)
  let c ← skipBlanks c
  if c.atEnd then return name else throw .malformed

/-- Reads a type name that takes up the whole text. -/
def parse? (text : String) : Option TypeName := (read text).toOption

end TypeName

end ReflectionFlow

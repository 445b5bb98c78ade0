/-
  File:      ReflectionFlow/Metadata/Token.lean
  Subject:   Metadata tokens: 32-bit handles that name a row of a metadata table.

  The high byte of a token selects the table, the low 24 bits the row.  Rows count from
  one; the zero token names nothing.
-/
import ReflectionFlow.Order.Rank
import ReflectionFlow.Text.Hex

namespace ReflectionFlow

/-- A handle of a metadata item. -/
structure Token where
  value : UInt32
  deriving DecidableEq, Repr

/-- The tables whose rows a token can name. -/
inductive Table where
  | typeRef
  | typeDef
  | field
  | methodDef
  | memberRef
  | standAloneSig
  | event
  | property
  | typeSpec
  | methodSpec
  | userString
  deriving DecidableEq, Repr

/-- The byte that selects a table. -/
def Table.id : Table → Nat
  | .typeRef => 0x01
  | .typeDef => 0x02
  | .field => 0x04
  | .methodDef => 0x06
  | .memberRef => 0x0A
  | .standAloneSig => 0x11
  | .event => 0x14
  | .property => 0x17
  | .typeSpec => 0x1B
  | .methodSpec => 0x2B
  | .userString => 0x70

namespace Token

/-- Tokens are ordered by their value. -/
instance : Ranked Token := Ranked.via Token.value fun {a b} h => by
  cases a; cases b; simpa using h

/-! ## 1. Parts -/

/-- The table byte. -/
def table (t : Token) : Nat := t.value.toNat / 0x1000000

/-- The row number. -/
def row (t : Token) : Nat := t.value.toNat % 0x1000000

/-- The token of a table byte and a row; higher bits of the row are dropped. -/
def ofParts (table row : Nat) : Token :=
  ⟨UInt32.ofNat (table % 0x100 * 0x1000000 + row % 0x1000000)⟩

/-- A token is determined by its parts. -/
theorem ofParts_table_row (t : Token) : ofParts t.table t.row = t := by
  obtain ⟨v⟩ := t
  have := v.toNat_lt
  simp only [ofParts, table, row, Token.mk.injEq]
  apply UInt32.toNat_inj.1
  rw [UInt32.toNat_ofNat']
  omega

/-- The table of a composed token is the table it was composed from. -/
theorem table_ofParts {table row : Nat} (h : table < 0x100) : (ofParts table row).table = table := by
  simp only [ofParts, Token.table, UInt32.toNat_ofNat']
  omega

/-- The row of a composed token keeps the low 24 bits. -/
theorem row_ofParts (table row : Nat) : (ofParts table row).row = row % 0x1000000 := by
  simp only [ofParts, Token.row, UInt32.toNat_ofNat']
  omega

/-! ## 2. Classes -/

/-- Does the token name a row of the given table? -/
def isIn (t : Token) (table : Table) : Bool := t.table == table.id

/-- The token that names nothing. -/
def isNull (t : Token) : Bool := t.value == 0

/-- A token that can name a type. -/
def isType (t : Token) : Bool := t.isIn .typeDef || t.isIn .typeRef || t.isIn .typeSpec

/-- A token that can name a method. -/
def isMethodLike (t : Token) : Bool := t.isIn .methodDef || t.isIn .memberRef || t.isIn .methodSpec

/-- A token that can name a field. -/
def isFieldLike (t : Token) : Bool := t.isIn .field || t.isIn .memberRef

/-! ## 3. Text -/

/-- Eight hexadecimal digits. -/
def render (t : Token) : String := "0x" ++ Text.hexPadded 8 t.value.toNat

/-- The text of a token inside a structured listing. -/
def renderTagged (t : Token) : String := "Token(" ++ t.render ++ ")"

end Token

end ReflectionFlow

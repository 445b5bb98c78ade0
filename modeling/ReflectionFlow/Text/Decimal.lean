/-
  File:      ReflectionFlow/Text/Decimal.lean
  Subject:   The shortest decimal that reads back as a given double.

  A double is known by its 64 bits.  The reals that round to it form an interval, ends
  included when the significand is even.  Of all decimals in that interval those with the
  fewest digits are taken, of those the nearest, and of two equally near the larger one.
  Everything is exact arithmetic on natural numbers.

  Main definitions:
  * `Double`            a double by its meaning: infinite, no number, or sign and magnitude
  * `shortest`          digits and power of ten of a magnitude
  * `positional`        text without an exponent, as code listings show it
  * `general`           text with a point or an exponent, as complaints show it
-/
import ReflectionFlow.Text.Hex

namespace ReflectionFlow.Text

/-! ## 1. Doubles by their meaning -/

/-- What 64 bits mean: `finite negative m q` is `m · 2 ^ (q - 1074)` with a sign. -/
inductive Double where
  | notANumber
  | infinite (negative : Bool)
  | finite (negative : Bool) (m q : Nat)
  deriving DecidableEq, Repr

/-- Reads the sign, the eleven exponent bits and the fraction. -/
def Double.ofBits (bits : UInt64) : Double :=
  let n := bits.toNat
  let negative := n >>> 63 == 1
  let exponent := (n >>> 52) % 2048
  let fraction := n % (1 <<< 52)
  if exponent = 2047 then
    if fraction = 0 then .infinite negative else .notANumber
  else if exponent = 0 then .finite negative fraction 0
  else .finite negative (1 <<< 52 + fraction) (exponent - 1)

/-! ## 2. The shortest decimal -/

/-- A decimal: `digits · 10 ^ (power - 400)`. -/
structure Decimal where
  digits : Nat
  power : Nat
  deriving DecidableEq, Repr

/-- The interval of reals that round to a double, and the double itself, on a scale so fine
    that all three are whole: everything is counted in units of `2 ^ (-1076) · 10 ^ (-400)`. -/
structure Target where
  low : Nat
  value : Nat
  high : Nat
  closed : Bool

/-- One `2 ^ (-1076)`, in the units of `Target`. -/
def Target.step : Nat := Nat.pow 10 400

/-- The interval around `m · 2 ^ (q - 1074)`.  Below a power of two the neighbours stand
    half as far apart, except at the least exponent. -/
def Target.around (m q : Nat) : Target where
  value := (4 * m) <<< q * Target.step
  low := (4 * m - if m = 1 <<< 52 ∧ 0 < q then 1 else 2) <<< q * Target.step
  high := (4 * m + 2) <<< q * Target.step
  closed := m % 2 == 0

/-- Does a real, in the units of `Target`, round to the double? -/
def Target.admits (t : Target) (x : Nat) : Bool :=
  if t.closed then t.low ≤ x && x ≤ t.high else t.low < x && x < t.high

/-- Of the two grid points next to the value the one to take, if any rounds to the double:
    the nearer one, and the upper one when both are equally near. -/
def Target.onGrid (t : Target) (unit : Nat) : Option Nat :=
  let below := t.value / unit
  let above := below + 1
  let okBelow := t.admits (below * unit)
  let okAbove := t.admits (above * unit)
  if t.value % unit = 0 then some below
  else if okBelow && okAbove then
    if above * unit - t.value ≤ t.value - below * unit then some above else some below
  else if okAbove then some above
  else if okBelow then some below
  else none

/-- Searches ever finer grids, starting from the unit `10 ^ (power - 400)`. -/
def Target.search (t : Target) : Nat → Decimal
  | 0 => ⟨t.value >>> 1076, 0⟩
  | power + 1 =>
    match t.onGrid (Nat.pow 10 (power + 1) <<< 1076) with
    | some d => if 0 < d then ⟨d, power + 1⟩ else t.search power
    | none => t.search power

/-- Zeros at the end of the digits go into the power of ten. -/
def Decimal.trimmed : Nat → Decimal → Decimal
  | 0, d => d
  | fuel + 1, d =>
    if 0 < d.digits ∧ d.digits % 10 = 0 then Decimal.trimmed fuel ⟨d.digits / 10, d.power + 1⟩ else d

/-- The shortest decimal of a magnitude other than zero. -/
def shortest (m q : Nat) : Decimal :=
  ((Target.around m q).search 710).trimmed 400

/-! ## 3. Number text -/

/-- Digits with the decimal point at the right place, whole numbers without one. -/
def Decimal.positional (d : Decimal) : String :=
  let text := toString d.digits
  if 400 ≤ d.power then text ++ "".pushn '0' (d.power - 400)
  else
    let places := 400 - d.power
    let text := padded (places + 1) text
    let whole := (text.take (text.length - places)).toString
    let fraction := (text.drop (text.length - places)).toString
    whole ++ "." ++ fraction

/-- Digits with the point after the first one and an exponent of ten. -/
def Decimal.scientific (d : Decimal) : String :=
  let text := toString d.digits
  let exponent : Int := (d.power : Int) - 400 + (text.length - 1 : Nat)
  let fraction := (text.drop 1).toString
  let point := if fraction.isEmpty then "" else "."
  (text.take 1).toString ++ point ++ fraction ++ "e" ++ toString exponent

/-- The sign and the text of the magnitude. -/
def signed (negative : Bool) (text : String) : String :=
  if negative then "-" ++ text else text

/-- A double without an exponent: `1.5`, `-2`, `-0`, `inf`, `NaN`. -/
def positional (bits : UInt64) : String :=
  match Double.ofBits bits with
  | .notANumber => "NaN"
  | .infinite negative => signed negative "inf"
  | .finite negative 0 _ => signed negative "0"
  | .finite negative m q => signed negative (shortest m q).positional

/-- Is the decimal written with an exponent?  Below `10 ^ (-4)` and from `10 ^ 16` on. -/
def Decimal.isExtreme (d : Decimal) : Bool :=
  let leading := d.power + (toString d.digits).length
  leading < 397 || 417 ≤ leading

/-- A double that always shows itself as one: `1.0`, `-0.0`, `1e16`, `1.5e-7`. -/
def general (bits : UInt64) : String :=
  match Double.ofBits bits with
  | .notANumber => "NaN"
  | .infinite negative => signed negative "inf"
  | .finite negative 0 _ => signed negative "0.0"
  | .finite negative m q =>
    let d := shortest m q
    signed negative <|
      if d.isExtreme then d.scientific
      else if 400 ≤ d.power then d.positional ++ ".0"
      else d.positional

end ReflectionFlow.Text

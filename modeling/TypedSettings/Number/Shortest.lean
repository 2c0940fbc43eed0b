import TypedSettings.Number.Digits
import TypedSettings.Number.Binary64

/-!
# Shortest decimal text

A binary value is printed with the fewest decimal digits that still round back to it; among those
with equally few digits the nearest is taken, and of two equally near ones the even one.

The values that round to `m · 2 ^ e` form an interval around it that reaches half way to both
neighbours and contains its ends exactly if `m` is even. For one digit, two digits and so on, the
two points of that decimal grid next to the value are tested; if any point of a grid lies in the
interval, then so does one of these two.

## Main definitions

* `Decimal.shortest` — the shortest decimal that rounds to a binary value
* `Decimal.nearest?` — the binary value that a decimal rounds to
* `Binary64.toText` — the text of a binary value
-/

namespace TypedSettings

/-- The number `digits · 10 ^ exponent`. -/
structure Decimal where
  digits : Nat
  exponent : Int
  deriving DecidableEq, Repr

namespace Decimal

/-- Removes trailing zeros from the digits, at most `fuel` of them. -/
def dropZeros : Nat → Decimal → Decimal
  | 0, d => d
  | fuel + 1, d =>
    if d.digits ≠ 0 ∧ d.digits % 10 = 0 then dropZeros fuel ⟨d.digits / 10, d.exponent + 1⟩ else d

/-- The exponent of the leading digit of `num / den`, for positive `num` and `den`. -/
def leadingExponent (num den : Nat) : Int :=
  if den ≤ num then (Digits.count (num / den) : Int) - 1
  else -(Digits.count ((den - 1) / num) : Int)

/-- The grid point nearest to the value among those inside the interval of values that round to it.

All quantities are multiples of one unit: the value is `4 · mantissa · step`, the interval reaches
from `low · step` to `high · step`, and the grid has the points `n · cell`. -/
def onGrid? (mantissa low high step cell : Nat) : Option Nat :=
  let value := 4 * mantissa * step
  let below := value / cell
  let above := if value % cell = 0 then below else below + 1
  let inside (point : Nat) : Bool :=
    if mantissa % 2 = 0 then low * step ≤ point * cell && point * cell ≤ high * step
    else low * step < point * cell && point * cell < high * step
  let nearerBelow : Bool :=
    let down := value - below * cell
    let up := above * cell - value
    down < up || (down == up && below % 2 == 0)
  match inside below, inside above with
  | true, true => some (if nearerBelow then below else above)
  | true, false => some below
  | false, true => some above
  | false, false => none

/-- The shortest decimal inside the rounding interval of a positive magnitude. -/
def shortest (x : Binary64) : Decimal :=
  let leading := leadingExponent x.fraction.1 x.fraction.2
  -- Below a power of two the values lie twice as dense, so half way is half as far.
  let low := if x.mantissa = 0x10000000000000 ∧ x.exponent > Binary64.minExponent
    then 4 * x.mantissa - 1
    else 4 * x.mantissa - 2
  let high := 4 * x.mantissa + 2
  -- The ends of the interval are whole numbers of quarters of the last place.
  let quarter := x.exponent - 2
  let candidate? (width : Nat) : Option Decimal :=
    let exponent := leading - width
    let step := Nat.pow 10 (-exponent).toNat <<< quarter.toNat
    let cell := Nat.pow 10 exponent.toNat <<< (-quarter).toNat
    (onGrid? x.mantissa low high step cell).map (⟨·, exponent⟩)
  match (List.range 17).findSome? candidate? with
  | some found => dropZeros 17 found
  | none => ⟨0, 0⟩

/-- A decimal whose digits are all below this place is nearer to zero than to any other value. -/
def leastPlace : Int := -330

/-- A decimal with a digit above this place lies beyond the largest finite value. -/
def greatestPlace : Int := 310

/-- The binary value nearest to a decimal, or `none` beyond the largest finite one. -/
def nearest? (d : Decimal) : Option Binary64 :=
  let place := d.exponent + Digits.count d.digits
  -- The places are looked at first, as the power of ten of a far exponent is not worth having.
  if d.digits = 0 ∨ place < leastPlace then some ⟨false, 0, Binary64.minExponent⟩
  else if greatestPlace < place then none
  else Binary64.round? (d.digits * Nat.pow 10 d.exponent.toNat) (Nat.pow 10 (-d.exponent).toNat)

/-! ## Layout

Exponents of the leading digit from `-5` to `15` are written positionally with at least one digit
after the point, all others with an exponent that always carries its sign. -/

/-- The least exponent that is written positionally. -/
def leastPositional : Int := -5

/-- The least exponent above the positional range. -/
def leastScientific : Int := 16

/-- Digits with the decimal point after the first `whole` of them, padded with zeros. -/
def positional (digits : List Char) (whole : Nat) : List Char :=
  let fraction := digits.drop whole
  digits.take whole ++ List.replicate (whole - digits.length) '0' ++ ['.'] ++
    (if fraction.isEmpty then ['0'] else fraction)

/-- Digits with the point after the first one, followed by a signed exponent. -/
def scientific (digits : List Char) (exponent : Int) : List Char :=
  let fraction := digits.drop 1
  digits.take 1 ++ (if fraction.isEmpty then [] else '.' :: fraction) ++
    ['e', if exponent < 0 then '-' else '+'] ++ Digits.ofNat exponent.natAbs

/-- The text of a decimal with positive digits. -/
def toText (d : Decimal) : List Char :=
  let digits := Digits.ofNat d.digits
  let exponent := d.exponent + digits.length - 1
  if leastPositional ≤ exponent ∧ exponent < leastScientific then
    if 0 ≤ exponent then positional digits (exponent.toNat + 1)
    else ['0', '.'] ++ List.replicate ((-exponent).toNat - 1) '0' ++ digits
  else
    scientific digits exponent

end Decimal

/-- The shortest text that rounds back to `x`; zeros keep their sign. -/
def Binary64.toText (x : Binary64) : List Char :=
  (if x.negative then ['-'] else []) ++
    (if x.isZero then ['0', '.', '0'] else (Decimal.shortest x).toText)

end TypedSettings

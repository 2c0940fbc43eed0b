/-!
# Binary floating point

The finite values of the 64-bit binary format as exact integers: a sign, a mantissa below `2 ^ 53`
and an exponent. Every operation rounds its exact result once, to the nearest value and from an
exact half to the even mantissa, and reports overflow as `none`.

## Main definitions

* `Binary64.round?` — the value nearest to a quotient of natural numbers
* `Binary64.mul?`, `Binary64.div?` — product and quotient, each rounded once
* `Binary64.scale?` — a value times a power of ten, by way of correctly rounded powers
* `Binary64.truncate` — the integer part, toward zero
-/

namespace TypedSettings

/-- The finite value `± mantissa · 2 ^ exponent`. -/
structure Binary64 where
  negative : Bool
  mantissa : Nat
  exponent : Int
  deriving DecidableEq, Repr

namespace Binary64

/-- The exponent of the smallest positive value. -/
def minExponent : Int := -1074

/-- The exponent of the largest values. -/
def maxExponent : Int := 971

/-- Mantissas stay below this bound. -/
def mantissaBound : Nat := 0x20000000000000

/-! ## §1 Rounding -/

/-- `num / den` counted in units of `2 ^ unit`, again as a numerator and a denominator. -/
def inUnitsOf (unit : Int) (num den : Nat) : Nat × Nat :=
  (num <<< (-unit).toNat, den <<< unit.toNat)

/-- The largest `k` with `2 ^ k ≤ num / den`, for positive `num` and `den`. -/
def floorLog2 (num den : Nat) : Int :=
  let guess : Int := (num.log2 : Int) - den.log2
  let scaled := inUnitsOf guess num den
  if scaled.2 ≤ scaled.1 then guess else guess - 1

/-- The integer nearest to `num / den`; an exact half goes to the even neighbour. -/
def roundHalfEven (num den : Nat) : Nat :=
  let quotient := num / den
  let twice := 2 * (num % den)
  if twice < den ∨ (twice = den ∧ quotient % 2 = 0) then quotient else quotient + 1

/-- The value nearest to `num / den`, or `none` if that lies beyond the largest finite value. -/
def round? (num den : Nat) : Option Binary64 :=
  if num = 0 then
    some ⟨false, 0, minExponent⟩
  else
    let exponent := max minExponent (floorLog2 num den - 52)
    let scaled := inUnitsOf exponent num den
    let mantissa := roundHalfEven scaled.1 scaled.2
    -- Rounding up may carry into one more binary digit, which is a power of two.
    if mantissa < mantissaBound then
      if exponent ≤ maxExponent then some ⟨false, mantissa, exponent⟩ else none
    else
      if exponent + 1 ≤ maxExponent then some ⟨false, mantissa / 2, exponent + 1⟩ else none

/-! ## §2 Arithmetic on magnitudes -/

/-- The magnitude of a value as a numerator and a denominator. -/
def fraction (x : Binary64) : Nat × Nat :=
  (x.mantissa <<< x.exponent.toNat, 1 <<< (-x.exponent).toNat)

/-- Is the value one of the two zeros? -/
def isZero (x : Binary64) : Bool := x.mantissa == 0

/-- The same magnitude with the given sign. -/
def withSign (negative : Bool) (x : Binary64) : Binary64 := { x with negative }

/-- The rounded product of two magnitudes. -/
def mul? (x y : Binary64) : Option Binary64 :=
  round? (x.fraction.1 * y.fraction.1) (x.fraction.2 * y.fraction.2)

/-- The rounded quotient of two magnitudes, for a divisor other than zero. -/
def div? (x y : Binary64) : Option Binary64 :=
  round? (x.fraction.1 * y.fraction.2) (x.fraction.2 * y.fraction.1)

/-- The correctly rounded power `10 ^ k`. -/
def powerOfTen? (k : Nat) : Option Binary64 := round? (Nat.pow 10 k) 1

/-- The largest power of ten that is applied in one step. -/
def largestPower : Nat := 308

/-- Divides by `10 ^ k`, in steps of at most `10 ^ 308`; a zero ends the division early. -/
def scaleDown? (x : Binary64) (k : Nat) : Option Binary64 :=
  if k ≤ largestPower then
    (powerOfTen? k).bind x.div?
  else if x.isZero then
    some x
  else
    ((powerOfTen? largestPower).bind x.div?).bind fun y => y.scaleDown? (k - largestPower)
termination_by k
decreasing_by simp only [largestPower] at *; omega

/-- Multiplies by `10 ^ k` in one step; only a zero can be scaled by more than `10 ^ 308`. -/
def scaleUp? (x : Binary64) (k : Nat) : Option Binary64 :=
  if k ≤ largestPower then
    (powerOfTen? k).bind x.mul?
  else if x.isZero then
    some x
  else
    none

/-- The magnitude of `x` times `10 ^ exponent`, or `none` on overflow. -/
def scale? (x : Binary64) : Int → Option Binary64
  | .ofNat k => x.scaleUp? k
  | .negSucc k => x.scaleDown? (k + 1)

/-! ## §3 Integer part -/

/-- The magnitude without its fractional part. -/
def wholeMagnitude (x : Binary64) : Nat := x.fraction.1 / x.fraction.2

/-- The integer part, toward zero. -/
def truncate (x : Binary64) : Int :=
  if x.negative then -(x.wholeMagnitude : Int) else x.wholeMagnitude

end Binary64

end TypedSettings

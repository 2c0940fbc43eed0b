import TypedSettings.Number.Shortest

/-!
# Numbers of a document

A number is an exact integer of one of the two 64-bit forms (signed or unsigned) or a binary
floating point value. Whatever its form, it can be read as a signed 64-bit integer if its integer
part fits.
-/

namespace TypedSettings

/-- A number of a document. -/
inductive Number where
  | integer (value : Int)
  | float (value : Binary64)
  deriving DecidableEq, Repr

namespace Number

/-- The least signed 64-bit integer. -/
def leastInteger : Int := -0x8000000000000000

/-- The first integer above the signed 64-bit range. -/
def integerBound : Int := 0x8000000000000000

/-- Does `n` fit a signed 64-bit word? -/
def fits (n : Int) : Bool := leastInteger ≤ n && n < integerBound

/-- The compact text of a number. -/
def toText : Number → List Char
  | .integer (.ofNat n) => Digits.ofNat n
  | .integer (.negSucc n) => '-' :: Digits.ofNat (n + 1)
  | .float x => x.toText

/-- The signed 64-bit integer a number is read as: fractions are cut off toward zero, and a number
outside the range is none. -/
def toInteger? : Number → Option Int
  | .integer n => if fits n then some n else none
  | .float x => if fits x.truncate then some x.truncate else none

end Number

end TypedSettings

import TypedSettings.Number.Basic

/-!
# Numerals

A numeral is a number as a document spells it. Which number it denotes:

* significand digits count while they fit an unsigned 64-bit word; later digits before the point
  only scale the value, later digits after it are ignored;
* a numeral without point, exponent and surplus digits is an integer, unless it is a negative zero
  or a negative number below the signed range;
* everything else is the significand, rounded, times a power of ten (`Binary64.scale?`).
-/

namespace TypedSettings

/-- A spelled number: its digits before the point, after the point, and of the exponent with whether
that is negative. -/
structure Numeral where
  negative : Bool
  whole : List Char
  fraction : List Char
  exponent : Option (Bool × List Char)
  deriving DecidableEq, Repr

namespace Numeral

/-- The largest significand. -/
def significandLimit : Nat := 0xFFFFFFFFFFFFFFFF

/-- The largest exponent. -/
def exponentLimit : Nat := 0x7FFFFFFF

/-- The number of a numeral that has neither point nor exponent and fits an unsigned word. -/
def integral? (negative : Bool) (significand : Nat) : Option Number :=
  if !negative then
    some (.integer significand)
  else if significand = 0 ∨ 0x8000000000000000 < significand then
    (Binary64.round? significand 1).map fun x => .float (x.withSign true)
  else
    some (.integer (-significand))

/-- The rounded significand times a power of ten. -/
def scaled? (negative : Bool) (significand : Nat) (exponent : Int) : Option Number :=
  ((Binary64.round? significand 1).bind (·.scale? exponent)).map fun x =>
    .float (x.withSign negative)

/-- The number a numeral denotes, or how many exponent digits were read when it was found to be out
of range. -/
def evaluate (n : Numeral) : Except Nat Number :=
  let (kept, surplus) := Digits.accumulate significandLimit 0 n.whole
  if surplus.isEmpty && n.fraction.isEmpty && n.exponent.isNone then
    (integral? n.negative kept).elim (.error 0) .ok
  else
    let (significand, ignored) := Digits.accumulate significandLimit kept n.fraction
    -- A surplus digit before the point is worth a factor of ten; one after it is worth nothing.
    let shift : Int := surplus.length - (n.fraction.length - ignored.length : Nat)
    match n.exponent with
    | none => (scaled? n.negative significand shift).elim (.error 0) .ok
    | some (negative, digits) =>
      let (exponent, unread) := Digits.accumulate exponentLimit 0 digits
      if unread.isEmpty then
        let total := if negative then shift - exponent else shift + exponent
        (scaled? n.negative significand total).elim (.error digits.length) .ok
      -- An exponent past the limit leaves nothing between zero and too large.
      else if significand ≠ 0 ∧ !negative then
        .error (digits.length - unread.length + 1)
      else
        .ok (.float ⟨n.negative, 0, Binary64.minExponent⟩)

end Numeral

end TypedSettings

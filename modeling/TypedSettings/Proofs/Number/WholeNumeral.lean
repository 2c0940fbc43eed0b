import Mathlib
import TypedSettings.Proofs.Document.Lexeme
import TypedSettings.Proofs.Number.Rounding

/-!
# Whole numerals

A numeral without point and exponent spells an integer. Up to 64 bits it denotes that integer, as a
number of one of the two integer forms or as a negative number that is rounded. With more digits
some of them are only counted, and the rounded rest times a rounded power of ten is rounded again.
However it is rounded, a number outside the signed 64-bit range stays outside, unless it lies below
the range by half a unit in the last place at most. Rounding keeps the order, so there is a least
number that is out of range of the binary values, and no larger one is in range again.

Main facts:
- `Digits.exists_accumulate`: the digits that count and those that only scale
- `Numeral.toInteger?_of_denotes`: what a whole numeral is read as
- `Numeral.exists_scaled?_mono`: smaller factors leave a number in range
- `Numeral.exists_denotes_iff`: which whole numerals denote a number
-/

namespace TypedSettings

/-! ## §1 Digits -/

namespace Digits

theorem value_le {c : Char} (h : c.isDigit = true) : value c ≤ 9 := by
  simp only [Char.isDigit, ge_iff_le, Bool.and_eq_true, decide_eq_true_eq] at h
  have hc : c.toNat ≤ 57 := UInt32.le_iff_toNat_le.mp h.2
  exact Nat.sub_le_sub_right hc 48

/-- More digits scale a number and add less than one unit of it. -/
theorem toNat_bounds {ds : List Char} (h : ∀ c ∈ ds, c.isDigit) (start : Nat) :
    start * 10 ^ ds.length ≤ toNat ds start ∧ toNat ds start < (start + 1) * 10 ^ ds.length := by
  induction ds generalizing start with
  | nil => simp
  | cons c rest ih =>
    have hc := value_le (h c List.mem_cons_self)
    obtain ⟨hlow, hhigh⟩ := ih (fun d hd => h d (List.mem_cons_of_mem _ hd)) (start * 10 + value c)
    rw [toNat_cons, List.length_cons, pow_succ]
    constructor
    · calc start * (10 ^ rest.length * 10) = start * 10 * 10 ^ rest.length := by ring
        _ ≤ (start * 10 + value c) * 10 ^ rest.length := by gcongr; omega
        _ ≤ _ := hlow
    · calc _ < (start * 10 + value c + 1) * 10 ^ rest.length := hhigh
        _ ≤ (start + 1) * 10 * 10 ^ rest.length := by gcongr; omega
        _ = (start + 1) * (10 ^ rest.length * 10) := by ring

/-- What counts are the first digits, up to the first one that no longer fits. -/
theorem accumulate_spec {limit start : Nat} (ds : List Char) (hstart : start ≤ limit) :
    (accumulate limit start ds).1 ≤ limit ∧
      toNat (accumulate limit start ds).2 (accumulate limit start ds).1 = toNat ds start ∧
      (accumulate limit start ds).2 <:+ ds ∧
      ∀ c rest, (accumulate limit start ds).2 = c :: rest →
        limit < (accumulate limit start ds).1 * 10 + value c := by
  induction ds generalizing start with
  | nil => exact ⟨hstart, rfl, List.suffix_rfl, nofun⟩
  | cons c rest ih =>
    rw [accumulate]
    split
    next hfits =>
      obtain ⟨hlimit, hvalue, hsuffix, hnext⟩ := ih hfits
      exact ⟨hlimit, hvalue, hsuffix.trans (List.suffix_cons c rest), hnext⟩
    next hlarge =>
      refine ⟨hstart, rfl, List.suffix_rfl, fun d others heq => ?_⟩
      obtain ⟨rfl, rfl⟩ := List.cons.inj heq
      exact Nat.lt_of_not_le hlarge

/-- All digits count exactly if they spell a number within the limit. -/
theorem accumulate_eq_nil_iff {limit start : Nat} {ds : List Char} (hstart : start ≤ limit) :
    (accumulate limit start ds).2 = [] ↔ toNat ds start ≤ limit := by
  constructor
  · intro hnil
    obtain ⟨hlimit, hvalue, -⟩ := accumulate_spec ds hstart
    rw [hnil, toNat_nil] at hvalue
    exact hvalue ▸ hlimit
  · intro hlimit
    rw [accumulate_eq hlimit]

/-- **Surplus digits**: of a number past the 64-bit limit a large first part counts, and the other
digits scale it. -/
theorem exists_accumulate {ds : List Char} (h : ∀ c ∈ ds, c.isDigit)
    (hlarge : Numeral.significandLimit < toNat ds 0) :
    ∃ kept surplus, accumulate Numeral.significandLimit 0 ds = (kept, surplus) ∧
      surplus ≠ [] ∧ Numeral.significandLimit / 10 ≤ kept ∧ kept ≤ Numeral.significandLimit ∧
      kept * 10 ^ surplus.length ≤ toNat ds 0 ∧ toNat ds 0 < (kept + 1) * 10 ^ surplus.length := by
  obtain ⟨hlimit, hvalue, hsuffix, hnext⟩ :=
    accumulate_spec ds (Nat.zero_le Numeral.significandLimit)
  generalize accumulate Numeral.significandLimit 0 ds = scanned at *
  obtain ⟨kept, surplus⟩ := scanned
  dsimp only at *
  have hdigits : ∀ c ∈ surplus, c.isDigit := fun c hc => h c (hsuffix.subset hc)
  cases surplus with
  | nil =>
    rw [toNat_nil] at hvalue
    omega
  | cons c rest =>
    have hc := value_le (hdigits c List.mem_cons_self)
    have hkept := hnext c rest rfl
    obtain ⟨hlow, hhigh⟩ := toNat_bounds hdigits kept
    rw [hvalue] at hlow hhigh
    exact ⟨kept, c :: rest, rfl, List.cons_ne_nil _ _, by omega, hlimit, hlow, hhigh⟩

end Digits

/-! ## §2 Powers of ten -/

namespace Binary64

theorem pow_ten_le_largest {k : Nat} (hk : k ≤ 308) : 10 ^ k ≤ largest :=
  (Nat.pow_le_pow_right (by norm_num) hk).trans (by decide +kernel)

variable {x y : Binary64} {k m n : Nat}

theorem le_rounded_natCast {a j : Nat} (ha : 0 < a) (hbound : a ≤ 2 ^ 53) (h : a * 2 ^ j ≤ n) :
    (a * 2 ^ j : ℚ) ≤ rounded n 1 := by
  have hn : (a * 2 ^ (j : Int) : ℚ) ≤ n / (1 : Nat) := by
    rw [Nat.cast_one, div_one, zpow_natCast]
    exact_mod_cast h
  have hpos : 0 < n := (Nat.mul_pos ha (by positivity)).trans_le h
  have hj : minExponent ≤ j := by
    rw [minExponent]
    omega
  rw [← zpow_natCast]
  exact le_rounded hpos Nat.one_pos hbound hj hn

theorem rounded_natCast_pos (h : 0 < n) : 0 < rounded n 1 := by
  have hone : ((1 : Nat) * 2 ^ 0 : ℚ) ≤ rounded n 1 :=
    le_rounded_natCast Nat.one_pos (by norm_num) (by rwa [one_mul, pow_zero])
  exact lt_of_lt_of_le (by norm_num) hone

theorem rounded_natCast_mono (hm : 0 < m) (h : m ≤ n) : rounded m 1 ≤ rounded n 1 := by
  apply rounded_mono hm Nat.one_pos (hm.trans_le h) Nat.one_pos
  rw [Nat.cast_one, div_one, div_one]
  exact_mod_cast h

theorem exists_round?_natCast (hpos : 0 < n) (h : n ≤ largest) :
    ∃ x, round? n 1 = some x ∧ x.magnitude = rounded n 1 := by
  have hn : ((n : ℚ) / (1 : Nat)) ≤ largest := by
    rw [Nat.cast_one, div_one]
    exact_mod_cast h
  obtain ⟨x, hx, -⟩ := exists_round?_of_le Nat.one_pos hn
  exact ⟨x, hx, (magnitude_of_round? hpos Nat.one_pos hx).2⟩

/-- Scaling by a power of ten rounds the product with the rounded power. -/
theorem exists_scaleUp?_eq (hx : 0 < x.magnitude) (hk : k ≤ 308) :
    ∃ num den : Nat, 0 < num ∧ 0 < den ∧ (num / den : ℚ) = x.magnitude * rounded (10 ^ k) 1 ∧
      x.scaleUp? k = round? num den := by
  have hpos : 0 < 10 ^ k := Nat.pow_pos (by norm_num)
  obtain ⟨y, hy, hmagnitude⟩ := exists_round?_natCast hpos (pow_ten_le_largest hk)
  have hypos : 0 < y.magnitude := hmagnitude ▸ rounded_natCast_pos hpos
  obtain ⟨num, den, hnum, hden, hproduct, hmul⟩ := exists_mul?_eq hx hypos
  refine ⟨num, den, hnum, hden, by rw [hproduct, hmagnitude], ?_⟩
  rw [← hmul, scaleUp?, if_pos (show k ≤ largestPower from hk), powerOfTen?]
  show (round? (10 ^ k) 1).bind x.mul? = _
  rw [hy]
  rfl

theorem scaleUp?_eq_none (hx : 0 < x.magnitude) (hk : 308 < k) : x.scaleUp? k = none := by
  have hzero : x.isZero = false := by
    rw [isZero, beq_eq_false_iff_ne]
    intro hzero
    rw [magnitude, hzero, Nat.cast_zero, zero_mul] at hx
    exact lt_irrefl _ hx
  rw [scaleUp?, if_neg (show ¬ k ≤ largestPower from Nat.not_le.mpr hk),
    hzero]
  rfl

/-- A magnitude past `2 ^ 63` is no signed 64-bit integer, whatever its sign. -/
theorem toInteger?_withSign {negative : Bool} (h : 2 ^ 63 < y.wholeMagnitude) :
    (Number.float (y.withSign negative)).toInteger? = none := by
  have hwhole : (y.withSign negative).wholeMagnitude = y.wholeMagnitude := rfl
  have hfits : Number.fits (y.withSign negative).truncate = false := by
    rw [truncate, hwhole, Number.fits, Number.leastInteger, Number.integerBound]
    cases negative
    · simp only [withSign, Bool.false_eq_true, if_false, Bool.and_eq_false_iff,
        decide_eq_false_iff_not]
      omega
    · simp only [withSign, if_true, Bool.and_eq_false_iff, decide_eq_false_iff_not]
      omega
  rw [Number.toInteger?, hfits]
  rfl

end Binary64

/-! ## §3 Scaled significands -/

namespace Numeral

open Binary64 (rounded)

variable {negative : Bool} {kept k : Nat} {number : Number}

theorem exists_scaled?_eq (negative : Bool) (hpos : 0 < kept) (hlimit : kept ≤ significandLimit) :
    ∃ x : Binary64, x.magnitude = rounded kept 1 ∧ scaled? negative kept k =
      (x.scaleUp? k).map fun y => .float (y.withSign negative) := by
  obtain ⟨x, hx, hmagnitude⟩ := Binary64.exists_round?_natCast hpos
    (hlimit.trans (by decide +kernel))
  refine ⟨x, hmagnitude, ?_⟩
  rw [scaled?, hx]
  rfl

/-- A large significand with a surplus digit stays outside the signed range. -/
theorem toInteger?_of_scaled? (hkept : significandLimit / 10 ≤ kept)
    (hlimit : kept ≤ significandLimit) (hk : 1 ≤ k) (h : scaled? negative kept k = some number) :
    number.toInteger? = none := by
  have hlarge : 3 * 2 ^ 59 ≤ kept :=
    (show 3 * 2 ^ 59 ≤ significandLimit / 10 by decide).trans hkept
  obtain ⟨x, hmagnitude, hscaled⟩ := exists_scaled?_eq negative (by omega) hlimit
  rw [hscaled] at h
  obtain ⟨y, hy, rfl⟩ := Option.map_eq_some_iff.mp h
  have hx : (3 * 2 ^ 59 : ℚ) ≤ x.magnitude := by
    rw [hmagnitude]
    exact Binary64.le_rounded_natCast (by norm_num) (by norm_num) hlarge
  have hxpos : 0 < x.magnitude := lt_of_lt_of_le (by norm_num) hx
  rcases Nat.lt_or_ge 308 k with hlarge | hsmall
  · rw [Binary64.scaleUp?_eq_none hxpos hlarge] at hy
    cases hy
  · -- The product is at least `15 * 2 ^ 60`, which is a value of the format and past the range.
    obtain ⟨num, den, hnum, hden, hproduct, hround⟩ := Binary64.exists_scaleUp?_eq hxpos hsmall
    rw [hround] at hy
    have hpower : ((10 : Nat) * 2 ^ 0 : ℚ) ≤ rounded (10 ^ k) 1 :=
      Binary64.le_rounded_natCast (by norm_num) (by norm_num)
        (by simpa using Nat.pow_le_pow_right (by norm_num : 0 < 10) hk)
    have hlow : ((15 : Nat) * 2 ^ (60 : Int) : ℚ) ≤ num / den := by
      rw [hproduct]
      calc ((15 : Nat) * 2 ^ (60 : Int) : ℚ) = (3 * 2 ^ 59) * ((10 : Nat) * 2 ^ 0) := by norm_num
        _ ≤ x.magnitude * rounded (10 ^ k) 1 := by gcongr
    have hrounded := Binary64.le_rounded hnum hden (by norm_num) (by decide) hlow
    apply Binary64.toInteger?_withSign
    apply Nat.lt_of_lt_of_le (by norm_num : 2 ^ 63 < 15 * 2 ^ 60)
    rw [Binary64.le_wholeMagnitude_iff, (Binary64.magnitude_of_round? hnum hden hy).2]
    exact_mod_cast hrounded

/-- The rounded significand times the rounded power of ten, before it is rounded once more. -/
theorem exists_scaled?_eq_round? (negative : Bool) (hpos : 0 < kept)
    (hlimit : kept ≤ significandLimit) (hk : k ≤ 308) : ∃ num den : Nat, 0 < num ∧ 0 < den ∧
      (num / den : ℚ) = rounded kept 1 * rounded (10 ^ k) 1 ∧
      scaled? negative kept k =
        (Binary64.round? num den).map fun y => .float (y.withSign negative) := by
  obtain ⟨x, hmagnitude, hscaled⟩ := exists_scaled?_eq negative hpos hlimit
  have hx : 0 < x.magnitude := hmagnitude ▸ Binary64.rounded_natCast_pos hpos
  obtain ⟨num, den, hnum, hden, hproduct, hround⟩ := Binary64.exists_scaleUp?_eq hx hk
  exact ⟨num, den, hnum, hden, by rw [hproduct, hmagnitude], by rw [hscaled, hround]⟩

/-- **When a scaled significand is in range**: if the power is applied in one step, and the product
of the rounded factors does not overflow. -/
theorem exists_scaled?_iff (hpos : 0 < kept) (hlimit : kept ≤ significandLimit) :
    (∃ number, scaled? negative kept k = some number) ↔
      k ≤ 308 ∧ rounded kept 1 * rounded (10 ^ k) 1 < Binary64.overflowThreshold := by
  by_cases hk : k ≤ 308
  · obtain ⟨num, den, hnum, hden, hproduct, hscaled⟩ :=
      exists_scaled?_eq_round? negative hpos hlimit hk
    rw [← hproduct, ← Binary64.exists_round?_iff_lt hnum hden, hscaled]
    constructor
    · rintro ⟨number, hnumber⟩
      obtain ⟨x, hx, -⟩ := Option.map_eq_some_iff.mp hnumber
      exact ⟨hk, x, hx⟩
    · rintro ⟨-, x, hx⟩
      exact ⟨_, by rw [hx, Option.map_some]⟩
  · obtain ⟨x, hmagnitude, hscaled⟩ := exists_scaled?_eq negative hpos hlimit
    have hx : 0 < x.magnitude := hmagnitude ▸ Binary64.rounded_natCast_pos hpos
    rw [hscaled, Binary64.scaleUp?_eq_none hx (Nat.lt_of_not_le hk)]
    exact iff_of_false nofun fun h => hk h.1

/-- **Smaller factors**: they leave a number in range that larger ones leave in range. -/
theorem exists_scaled?_mono {negative' : Bool} {kept' k' : Nat} (negative : Bool) (hpos : 0 < kept)
    (hkept : kept ≤ kept') (hk : k ≤ k') (hlimit : kept' ≤ significandLimit)
    (h : ∃ number, scaled? negative' kept' k' = some number) :
    ∃ number, scaled? negative kept k = some number := by
  rw [exists_scaled?_iff (hpos.trans_le hkept) hlimit] at h
  rw [exists_scaled?_iff hpos (hkept.trans hlimit)]
  have hpower : 0 < 10 ^ k := Nat.pow_pos (by norm_num)
  have hle : rounded kept 1 * rounded (10 ^ k) 1 ≤ rounded kept' 1 * rounded (10 ^ k') 1 :=
    mul_le_mul (Binary64.rounded_natCast_mono hpos hkept)
      (Binary64.rounded_natCast_mono hpower (Nat.pow_le_pow_right (by norm_num) hk))
      (Binary64.rounded_natCast_pos hpower).le
      (Binary64.rounded_natCast_pos (hpos.trans_le hkept)).le
  exact ⟨hk.trans h.1, hle.trans_lt h.2⟩

/-- The least number that is out of range. It is smaller than the least one without a nearest binary
value: its first twenty digits are rounded up before they are scaled. -/
def leastOutOfRange : Nat := 17976931348623156225 * 10 ^ 289

theorem exists_scaled?_of_lt (negative : Bool) (hkept : significandLimit / 10 ≤ kept)
    (hlimit : kept ≤ significandLimit) (h : kept * 10 ^ k < leastOutOfRange) :
    ∃ number, scaled? negative kept k = some number := by
  have hpos : 0 < kept := (show 0 < significandLimit / 10 by decide).trans_le hkept
  -- The exponent decides, except the one at which the significands part.
  rcases Nat.lt_trichotomy k 289 with hsmall | rfl | hlarge
  · have htop : ∃ number, scaled? false significandLimit (288 : Nat) = some number :=
      Option.isSome_iff_exists.mp (by decide +kernel)
    exact exists_scaled?_mono negative hpos hlimit (Nat.le_of_lt_succ hsmall) le_rfl htop
  · have hlast : ∃ number, scaled? false 17976931348623156224 (289 : Nat) = some number :=
      Option.isSome_iff_exists.mp (by decide +kernel)
    have hlt : kept < 17976931348623156225 := Nat.lt_of_mul_lt_mul_right h
    exact exists_scaled?_mono negative hpos (Nat.le_of_lt_succ hlt) le_rfl (by decide) hlast
  · refine absurd h (Nat.not_lt.mpr ?_)
    calc leastOutOfRange ≤ significandLimit / 10 * 10 ^ 290 := by decide +kernel
      _ ≤ kept * 10 ^ k :=
        Nat.mul_le_mul hkept (Nat.pow_le_pow_right (by norm_num) hlarge)

theorem scaled?_eq_none (hkept : significandLimit / 10 ≤ kept) (hlimit : kept ≤ significandLimit)
    (h : leastOutOfRange < (kept + 1) * 10 ^ k) : scaled? negative kept k = none := by
  rw [Option.eq_none_iff_forall_ne_some]
  intro number hnumber
  rcases Nat.lt_trichotomy k 289 with hsmall | rfl | hlarge
  · refine absurd h (Nat.not_lt.mpr ?_)
    calc (kept + 1) * 10 ^ k ≤ (significandLimit + 1) * 10 ^ 288 :=
        Nat.mul_le_mul (Nat.succ_le_succ hlimit)
          (Nat.pow_le_pow_right (by norm_num) (Nat.le_of_lt_succ hsmall))
      _ ≤ leastOutOfRange := by decide +kernel
  · have hnone : scaled? false 17976931348623156225 (289 : Nat) = none := by decide +kernel
    have hlt : 17976931348623156225 < kept + 1 := Nat.lt_of_mul_lt_mul_right h
    obtain ⟨found, hfound⟩ := exists_scaled?_mono false (by norm_num) (Nat.le_of_lt_succ hlt)
      (Nat.le_refl 289) hlimit ⟨number, hnumber⟩
    cases hnone.symm.trans hfound
  · have hnone : scaled? false (significandLimit / 10) (290 : Nat) = none := by decide +kernel
    obtain ⟨found, hfound⟩ := exists_scaled?_mono false (by decide) hkept hlarge hlimit
      ⟨number, hnumber⟩
    cases hnone.symm.trans hfound

/-! ## §4 Whole numerals -/

/-- A magnitude with a sign. -/
def signedInteger (negative : Bool) (n : Nat) : Int :=
  if negative then -n else n

theorem natAbs_signedInteger (negative : Bool) (n : Nat) :
    (signedInteger negative n).natAbs = n := by
  cases negative
  · exact Int.natAbs_natCast n
  · exact (Int.natAbs_neg n).trans (Int.natAbs_natCast n)

theorem signedInteger_lt_zero_iff {negative : Bool} {n : Nat} (hpos : 0 < n) :
    signedInteger negative n < 0 ↔ negative = true := by
  rw [signedInteger]
  cases negative
  · simp
  · simpa using hpos

/-- A number past the 64-bit limit is a scaled significand. -/
theorem exists_evaluate_eq {ds : List Char} (h : ∀ c ∈ ds, c.isDigit)
    (hlarge : significandLimit < Digits.toNat ds 0) (negative : Bool) :
    ∃ kept k : Nat, significandLimit / 10 ≤ kept ∧ kept ≤ significandLimit ∧ 1 ≤ k ∧
      kept * 10 ^ k ≤ Digits.toNat ds 0 ∧ Digits.toNat ds 0 < (kept + 1) * 10 ^ k ∧
      (Numeral.mk negative ds [] none).evaluate =
        (scaled? negative kept k).elim (.error 0) .ok := by
  obtain ⟨kept, surplus, hscan, hsurplus, hkept, hlimit, hlow, hhigh⟩ :=
    Digits.exists_accumulate h hlarge
  refine ⟨kept, surplus.length, hkept, hlimit, List.length_pos_iff.mpr hsurplus, hlow, hhigh, ?_⟩
  have hempty : surplus.isEmpty = false := List.isEmpty_eq_false_iff.mpr hsurplus
  simp [evaluate, hscan, hempty, Digits.accumulate]

end Numeral

namespace Number

/-- Integers below the signed 64-bit range, by half a unit in the last place of their binary value
at most: they are rounded onto the least integer of the range. -/
def IsClamped (n : Int) : Prop := leastInteger - 1024 ≤ n ∧ n < leastInteger

/-- An integer that is read exactly or not at all. -/
def exactInteger? (n : Int) : Option Int := if fits n then some n else none

theorem exactInteger?_eq_none {n : Int} (h : 2 ^ 63 < n.natAbs) : exactInteger? n = none := by
  have hfits : fits n = false := by
    rw [fits, leastInteger, integerBound, Bool.and_eq_false_iff, decide_eq_false_iff_not,
      decide_eq_false_iff_not]
    omega
  rw [exactInteger?, hfits]
  rfl

end Number

namespace Numeral

open Digits (toNat)
open Number (IsClamped exactInteger?)

variable {negative : Bool} {n : Nat} {ds : List Char} {number : Number}

/-- A number past the range by more than half a unit in the last place stays outside. -/
theorem lt_wholeMagnitude_of_round? {x : Binary64} (hlow : 2 ^ 63 + 1024 < n)
    (hlimit : n ≤ significandLimit) (h : Binary64.round? n 1 = some x) :
    2 ^ 63 < x.wholeMagnitude := by
  have hpos : 0 < n := by omega
  have hunit : Binary64.unit n 1 ≤ 11 := by
    by_contra hlarge
    have hle := Binary64.mul_unit_le hpos Nat.one_pos
      (show Binary64.minExponent < _ by rw [Binary64.minExponent]; omega)
    have htwelve := Binary64.two_zpow_le (show 12 ≤ Binary64.unit n 1 by omega)
    have hn : (n : ℚ) ≤ 0xFFFFFFFFFFFFFFFF := by exact_mod_cast hlimit
    norm_num at hle htwelve
    linarith
  -- Half of a last place is at most 1024, so rounding down does not get back into the range.
  have herror := (abs_le.mp (Binary64.abs_rounded_sub_le n Nat.one_pos)).1
  have hhalf := Binary64.two_zpow_le hunit
  have hn : (2 ^ 63 + 1024 + 1 : ℚ) ≤ n := by exact_mod_cast hlow
  apply Nat.lt_of_lt_of_le (Nat.lt_succ_self (2 ^ 63))
  rw [Binary64.le_wholeMagnitude_iff, (Binary64.magnitude_of_round? hpos Nat.one_pos h).2]
  norm_num at herror hhalf ⊢
  linarith

/-- Up to 64 bits a number is one of the integer forms, or a negative number that is rounded. -/
theorem toInteger?_of_integral? (hlimit : n ≤ significandLimit)
    (hclamped : ¬ IsClamped (signedInteger negative n))
    (h : integral? negative n = some number) :
    number.toInteger? = exactInteger? (signedInteger negative n) := by
  cases negative with
  | false =>
    cases h
    rfl
  | true =>
    rw [integral?, Bool.not_true, if_neg Bool.false_ne_true] at h
    split at h
    next hrounded =>
      obtain ⟨x, hx, rfl⟩ := Option.map_eq_some_iff.mp h
      rcases hrounded with rfl | hlarge
      · -- Negative zero is zero.
        cases hx
        rfl
      · have hoff : 2 ^ 63 + 1024 < n := by
          by_contra hnear
          apply hclamped
          rw [IsClamped, Number.leastInteger, signedInteger, if_pos rfl]
          omega
        rw [Binary64.toInteger?_withSign (lt_wholeMagnitude_of_round? hoff hlimit hx),
          Number.exactInteger?_eq_none]
        rwa [natAbs_signedInteger]
    next =>
      cases h
      rfl

theorem exists_integral? (negative : Bool) (hlimit : n ≤ significandLimit) :
    ∃ number, integral? negative n = some number := by
  rcases Nat.eq_zero_or_pos n with rfl | hpos
  · cases negative <;> exact ⟨_, rfl⟩
  · obtain ⟨x, hx, -⟩ := Binary64.exists_round?_natCast hpos (hlimit.trans (by decide +kernel))
    rw [integral?]
    split
    next => exact ⟨_, rfl⟩
    next =>
      split
      next => exact ⟨_, by rw [hx]; rfl⟩
      next => exact ⟨_, rfl⟩

/-- **What a whole numeral is read as**: the integer it spells or none at all, unless that integer
is rounded into the range. -/
theorem toInteger?_of_denotes (h : ∀ c ∈ ds, c.isDigit)
    (hclamped : ¬ IsClamped (signedInteger negative (toNat ds 0)))
    (hnumber : (Numeral.mk negative ds [] none).Denotes number) :
    number.toInteger? = exactInteger? (signedInteger negative (toNat ds 0)) := by
  rw [Denotes] at hnumber
  rcases Nat.lt_or_ge significandLimit (toNat ds 0) with hlarge | hlimit
  · -- With surplus digits neither side is an integer.
    obtain ⟨kept, k, hkept, hlimit, hk, -, -, heval⟩ := exists_evaluate_eq h hlarge negative
    have houtside : exactInteger? (signedInteger negative (toNat ds 0)) = none := by
      apply Number.exactInteger?_eq_none
      rw [natAbs_signedInteger]
      exact hlarge.trans' (by decide)
    rw [heval] at hnumber
    cases hscaled : scaled? negative kept k with
    | none =>
      rw [hscaled] at hnumber
      cases hnumber
    | some found =>
      rw [hscaled] at hnumber
      cases hnumber
      rw [toInteger?_of_scaled? hkept hlimit hk hscaled, houtside]
  · rw [evaluate_whole hlimit] at hnumber
    cases hintegral : integral? negative (toNat ds 0) with
    | none =>
      rw [hintegral] at hnumber
      cases hnumber
    | some found =>
      rw [hintegral] at hnumber
      cases hnumber
      exact toInteger?_of_integral? hlimit hclamped hintegral

/-- **What whole numerals are in range**: all below the least one that is not. -/
theorem exists_denotes_iff (h : ∀ c ∈ ds, c.isDigit) (negative : Bool) :
    (∃ number, (Numeral.mk negative ds [] none).Denotes number) ↔ toNat ds 0 < leastOutOfRange := by
  have hbound : significandLimit < leastOutOfRange := by decide +kernel
  rcases Nat.lt_or_ge significandLimit (toNat ds 0) with hlarge | hsmall
  · obtain ⟨kept, k, hkept, hlimit, -, hlow, hhigh, heval⟩ := exists_evaluate_eq h hlarge negative
    constructor
    · rintro ⟨number, hnumber⟩
      by_contra hle
      have hnone : scaled? negative kept k = none :=
        scaled?_eq_none hkept hlimit ((Nat.not_lt.mp hle).trans_lt hhigh)
      rw [Denotes, heval, hnone] at hnumber
      cases hnumber
    · intro hlt
      obtain ⟨number, hscaled⟩ := exists_scaled?_of_lt negative hkept hlimit (hlow.trans_lt hlt)
      exact ⟨number, by rw [Denotes, heval, hscaled]; rfl⟩
  · obtain ⟨number, hintegral⟩ := exists_integral? negative hsmall
    refine iff_of_true ⟨number, ?_⟩ (hsmall.trans_lt hbound)
    rw [Denotes, evaluate_whole hsmall, hintegral]
    rfl

end Numeral

end TypedSettings

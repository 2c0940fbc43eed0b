import Mathlib
import TypedSettings.Proofs.Number.WholeNumeral

/-!
# Numerals with a point or an exponent

A numeral with a point or an exponent denotes a significand times a power of ten: the digits that
count, and the exponent shifted by the digits between the point and the last one that counts.
A power below one takes no significand out of the range of the binary values; any other one takes it
out if the rounded product overflows. An exponent past its own limit leaves zero, or nothing.

Main facts:
- `Numeral.significand`, `Numeral.power`: what a numeral spells
- `Numeral.significand_eq`: it is as spelled if all digits count
- `Numeral.denotes_iff`: the numbers that such numerals denote
- `Numeral.exists_denotes_iff_isFinite`, `Numeral.exists_denotes_iff_inRange`: which numerals denote
  a number
-/

namespace TypedSettings

/-! ## §1 Powers of ten below one -/

namespace Binary64

theorem one_le_rounded_pow_ten (k : Nat) : 1 ≤ rounded (10 ^ k) 1 := by
  have hone : ((1 : Nat) * 2 ^ 0 : ℚ) ≤ rounded (10 ^ k) 1 :=
    le_rounded_natCast Nat.one_pos (by norm_num) (Nat.one_le_pow k 10 (by norm_num))
  simpa using hone

/-- Scaling down, in however many steps, leaves a finite value finite. -/
theorem exists_scaleDown? {x : Binary64} (hx : x.magnitude ≤ largest) (k : Nat) :
    ∃ y, x.scaleDown? k = some y := by
  induction k using Nat.strong_induction_on generalizing x with
  | _ k ih =>
    have hstep {k : Nat} (hk : k ≤ 308) :
        ∃ y, (powerOfTen? k).bind x.div? = some y ∧ y.magnitude ≤ largest := by
      obtain ⟨power, hpower, hmagnitude⟩ :=
        exists_round?_natCast (Nat.pow_pos (by norm_num)) (pow_ten_le_largest hk)
      obtain ⟨y, hy, hle⟩ := exists_div? hx (hmagnitude ▸ one_le_rounded_pow_ten k)
      refine ⟨y, ?_, hle⟩
      rw [powerOfTen?]
      show (round? (10 ^ k) 1).bind x.div? = _
      rw [hpower, Option.bind_some, hy]
    rw [scaleDown?]
    split
    next hk =>
      obtain ⟨y, hy, -⟩ := hstep hk
      exact ⟨y, hy⟩
    next hk =>
      split
      next => exact ⟨x, rfl⟩
      next =>
        obtain ⟨y, hy, hle⟩ := hstep (Nat.le_refl 308)
        rw [largestPower] at hk ⊢
        rw [hy, Option.bind_some]
        exact ih (k - 308) (by omega) hle

/-- Zero stays zero, however far it is scaled up. -/
theorem exists_scaleUp?_zero (k : Nat) :
    ∃ y, (Binary64.mk false 0 minExponent).scaleUp? k = some y := by
  rw [scaleUp?]
  split
  next hk =>
    obtain ⟨power, hpower, -⟩ :=
      exists_round?_natCast (Nat.pow_pos (by norm_num)) (pow_ten_le_largest hk)
    have hfraction : (Binary64.mk false 0 minExponent).fraction.1 = 0 := rfl
    refine ⟨⟨false, 0, minExponent⟩, ?_⟩
    rw [powerOfTen?]
    show (round? (10 ^ k) 1).bind _ = _
    rw [hpower, Option.bind_some, mul?, hfraction, Nat.zero_mul, round?, if_pos rfl]
  next => exact ⟨_, rfl⟩

end Binary64

namespace Numeral

open Digits (accumulate toNat)
open Binary64 (rounded)

variable {n : Numeral} {number : Number} {negative : Bool} {kept : Nat}

theorem exists_scaled?_negSucc (negative : Bool) (hlimit : kept ≤ significandLimit) (k : Nat) :
    ∃ number, scaled? negative kept (.negSucc k) = some number := by
  have hle : kept ≤ Binary64.largest := hlimit.trans (by decide +kernel)
  have hkept : ((kept : ℚ) / (1 : Nat)) ≤ Binary64.largest := by
    rw [Nat.cast_one, div_one]
    exact Nat.cast_le.mpr hle
  obtain ⟨x, hx, hfinite⟩ := Binary64.exists_round?_of_le Nat.one_pos hkept
  obtain ⟨y, hy⟩ := Binary64.exists_scaleDown? hfinite (k + 1)
  exact ⟨_, by rw [scaled?, hx, Option.bind_some, Binary64.scale?, hy, Option.map_some]⟩

theorem exists_scaled?_zero (negative : Bool) (power : Int) :
    ∃ number, scaled? negative 0 power = some number := by
  cases power with
  | ofNat k =>
    have hzero : Binary64.round? 0 1 = some ⟨false, 0, Binary64.minExponent⟩ := rfl
    obtain ⟨y, hy⟩ := Binary64.exists_scaleUp?_zero k
    exact ⟨_, by rw [scaled?, hzero, Option.bind_some, Binary64.scale?, hy, Option.map_some]⟩
  | negSucc k => exact exists_scaled?_negSucc negative (Nat.zero_le _) k

/-- A significand times a power of ten is within the finite values. -/
def IsFinite (significand : Nat) (power : Int) : Prop :=
  ∀ k : Nat, power = k →
    k ≤ 308 ∧ rounded significand 1 * rounded (10 ^ k) 1 < Binary64.overflowThreshold

/-- **When a scaled significand is in range**, whatever the sign of the exponent is. -/
theorem exists_scaled?_iff_isFinite (hpos : 0 < kept) (hlimit : kept ≤ significandLimit)
    (power : Int) :
    (∃ number, scaled? negative kept power = some number) ↔ IsFinite kept power := by
  cases power with
  | ofNat k =>
    rw [Int.ofNat_eq_natCast, exists_scaled?_iff hpos hlimit]
    constructor
    · intro h k' heq
      exact Int.ofNat_inj.mp heq ▸ h
    · exact fun h => h k rfl
  | negSucc k => exact iff_of_true (exists_scaled?_negSucc negative hlimit k) nofun

/-! ## §2 What is spelled -/

/-- The digits that count, as a number. -/
def significand (n : Numeral) : Nat :=
  (accumulate significandLimit (accumulate significandLimit 0 n.whole).1 n.fraction).1

/-- The power of ten that stands for the place of the last digit that counts. -/
def shift (n : Numeral) : Int :=
  let (kept, surplus) := accumulate significandLimit 0 n.whole
  let ignored := (accumulate significandLimit kept n.fraction).2
  surplus.length - (n.fraction.length - ignored.length : Nat)

/-- The exponent, with its sign. -/
def spelledExponent (n : Numeral) : Int :=
  match n.exponent with
  | none => 0
  | some (negative, ds) => signedInteger negative (toNat ds 0)

/-- The power of ten that the significand is multiplied by. -/
def power (n : Numeral) : Int := n.shift + n.spelledExponent

theorem significand_le (n : Numeral) : n.significand ≤ significandLimit := by
  have hwhole := (Digits.accumulate_spec n.whole (Nat.zero_le significandLimit)).1
  exact (Digits.accumulate_spec n.fraction hwhole).1

/-- **All digits count** if they fit 64 bits, and the point is where it is spelled. -/
theorem significand_eq (h : toNat (n.whole ++ n.fraction) 0 ≤ significandLimit) :
    n.significand = toNat (n.whole ++ n.fraction) 0 ∧ n.shift = -n.fraction.length := by
  rw [Digits.toNat_append] at h ⊢
  have hwhole : accumulate significandLimit 0 n.whole = (toNat n.whole 0, []) :=
    Digits.accumulate_eq ((Digits.le_toNat _ _).trans h)
  have hfraction := Digits.accumulate_eq h
  rw [significand, shift, hwhole]
  dsimp only
  rw [hfraction]
  simp

/-! ## §3 Numbers of numerals -/

theorem elim_eq_ok_iff {found : Option Number} {read : Nat} :
    found.elim (Except.error read) Except.ok = .ok number ↔ found = some number := by
  cases found <;> simp

/-- **What a numeral with a point or an exponent denotes**: the scaled significand, or zero if the
exponent is past its limit. -/
theorem denotes_iff (h : n.fraction ≠ [] ∨ n.exponent ≠ none) :
    n.Denotes number ↔
      if n.spelledExponent.natAbs ≤ exponentLimit then
        scaled? n.negative n.significand n.power = some number
      else
        (n.significand = 0 ∨ n.spelledExponent < 0) ∧
          number = .float ⟨n.negative, 0, Binary64.minExponent⟩ := by
  obtain ⟨negative, whole, fraction, exponent⟩ := n
  have hwhole : (fraction.isEmpty && exponent.isNone) = false := by
    rw [Bool.and_eq_false_iff, List.isEmpty_eq_false_iff, Option.isNone_eq_false_iff,
      Option.isSome_iff_ne_none]
    exact h
  rw [Denotes, evaluate]
  simp only [Bool.and_assoc, hwhole, Bool.and_false, Bool.false_eq_true, if_false]
  cases exponent with
  | none =>
    have hexponent : spelledExponent ⟨negative, whole, fraction, none⟩ = 0 := rfl
    rw [power, hexponent, Int.add_zero, if_pos (by decide)]
    exact elim_eq_ok_iff
  | some spelled =>
    obtain ⟨below, ds⟩ := spelled
    have hexponent : spelledExponent ⟨negative, whole, fraction, some (below, ds)⟩ =
        signedInteger below (toNat ds 0) := rfl
    rw [power, hexponent, natAbs_signedInteger]
    dsimp only
    by_cases hlimit : toNat ds 0 ≤ exponentLimit
    · rw [if_pos hlimit, Digits.accumulate_eq hlimit]
      simp only [List.isEmpty_nil, if_true]
      rw [elim_eq_ok_iff]
      cases below
      · exact Iff.rfl
      · exact Iff.rfl
    · have hunread : (accumulate exponentLimit 0 ds).2.isEmpty = false := by
        rw [List.isEmpty_eq_false_iff, ne_eq, Digits.accumulate_eq_nil_iff (Nat.zero_le _)]
        exact hlimit
      have hpos : 0 < toNat ds 0 := Nat.pos_of_ne_zero fun hzero => hlimit (by simp [hzero])
      rw [if_neg hlimit, hunread, if_neg Bool.false_ne_true, signedInteger_lt_zero_iff hpos]
      split
      next hlarge =>
        rw [Bool.not_eq_true'] at hlarge
        have hsmall : ¬ (significand ⟨negative, whole, fraction, some (below, ds)⟩ = 0 ∨
            below = true) := fun h => h.elim hlarge.1 (hlarge.2 ▸ Bool.false_ne_true)
        simp only [reduceCtorEq, false_iff, not_and]
        exact fun h => absurd h hsmall
      next hzero =>
        rw [not_and_or, not_not, Bool.not_eq_true', Bool.not_eq_false] at hzero
        exact ⟨fun h => ⟨hzero, (Except.ok.inj h).symm⟩, fun h => congrArg Except.ok h.2.symm⟩

/-- It is no integer form. -/
theorem isFloat_of_denotes (h : n.fraction ≠ [] ∨ n.exponent ≠ none) (hnumber : n.Denotes number) :
    ∃ x, number = .float x := by
  rw [denotes_iff h] at hnumber
  split at hnumber
  next =>
    obtain ⟨x, -, rfl⟩ := Option.map_eq_some_iff.mp hnumber
    exact ⟨_, rfl⟩
  next => exact ⟨_, hnumber.2⟩

/-- **Which numerals with a point or an exponent are in range**: those of a significand that is zero
or that its power of ten leaves finite. No negative exponent is too large. -/
theorem exists_denotes_iff_isFinite (h : n.fraction ≠ [] ∨ n.exponent ≠ none) :
    (∃ number, n.Denotes number) ↔ n.significand = 0 ∨ n.spelledExponent < -exponentLimit ∨
      n.spelledExponent ≤ exponentLimit ∧ IsFinite n.significand n.power := by
  simp only [denotes_iff h]
  by_cases hlimit : n.spelledExponent.natAbs ≤ exponentLimit
  · have hlow : ¬ n.spelledExponent < -exponentLimit := by omega
    have hhigh : n.spelledExponent ≤ exponentLimit := by omega
    simp only [if_pos hlimit, hlow, hhigh, false_or, true_and]
    rcases Nat.eq_zero_or_pos n.significand with hzero | hpos
    · rw [hzero]
      exact iff_of_true (exists_scaled?_zero _ _) (.inl rfl)
    · rw [or_iff_right hpos.ne', exists_scaled?_iff_isFinite hpos n.significand_le]
  · -- The sign of the exponent is all that is left to know of it.
    simp only [if_neg hlimit, exists_and_left, exists_eq, and_true]
    refine or_congr_right ⟨fun hsign => .inl (by omega), ?_⟩
    rintro (hlow | ⟨hhigh, -⟩) <;> omega

/-- The range of numerals. -/
def InRange (n : Numeral) : Prop :=
  if n.fraction = [] ∧ n.exponent = none then toNat n.whole 0 < leastOutOfRange
  else n.significand = 0 ∨ n.spelledExponent < -exponentLimit ∨
    n.spelledExponent ≤ exponentLimit ∧ IsFinite n.significand n.power

/-- **Which numerals denote a number.** -/
theorem exists_denotes_iff_inRange (h : ∀ c ∈ n.whole, c.isDigit) :
    (∃ number, n.Denotes number) ↔ n.InRange := by
  rw [InRange]
  split
  next hwhole =>
    obtain ⟨negative, whole, fraction, exponent⟩ := n
    obtain ⟨rfl, rfl⟩ := hwhole
    exact exists_denotes_iff h negative
  next hother =>
    apply exists_denotes_iff_isFinite
    rwa [not_and_or] at hother

end Numeral

end TypedSettings

import Mathlib
import TypedSettings.Number.Binary64

/-!
# Rounding to binary values

What the arithmetic on binary values computes, said with rational numbers. A positive rational lies
between two powers of two, which fixes the unit of its last place; it is rounded to the nearest
multiple of that unit. This is at most half a unit away and on the same side of every value that the
format holds. Only what then reaches `2 ^ 1024` has no finite value.

Main facts:
- `Binary64.abs_rounded_sub_le`: the error is at most half a unit in the last place
- `Binary64.le_rounded`, `Binary64.rounded_le`: rounding does not pass a value of the format
- `Binary64.rounded_mono`: rounding keeps the order
- `Binary64.magnitude_of_round?`: the value a number is rounded to
- `Binary64.exists_round?_iff_lt`: which numbers are rounded to a finite value
-/

namespace TypedSettings.Binary64

/-- The magnitude of a value. -/
def magnitude (x : Binary64) : ℚ := x.mantissa * 2 ^ x.exponent

variable {num den : Nat}

/-! ## §1 Powers of two -/

theorem two_zpow_pos (k : Int) : (0 : ℚ) < 2 ^ k := zpow_pos (by norm_num) k

theorem two_zpow_add (j k : Int) : (2 : ℚ) ^ (j + k) = 2 ^ j * 2 ^ k :=
  zpow_add₀ (by norm_num) j k

theorem two_pow_mul_two_zpow (m : Nat) (k : Int) : (2 : ℚ) ^ m * 2 ^ k = 2 ^ (m + k) := by
  rw [two_zpow_add, zpow_natCast]

theorem two_zpow_le {j k : Int} (h : j ≤ k) : (2 : ℚ) ^ j ≤ 2 ^ k :=
  zpow_le_zpow_right₀ (by norm_num) h

/-- A shift is a multiplication in one direction or in the other. -/
theorem shift_div_shift (unit : Int) (num den : Nat) :
    ((num <<< unit.toNat : Nat) : ℚ) / (den <<< (-unit).toNat : Nat) = num / den * 2 ^ unit := by
  simp only [Nat.shiftLeft_eq, Nat.cast_mul, Nat.cast_pow, Nat.cast_ofNat]
  obtain ⟨k, rfl | rfl⟩ := Int.eq_nat_or_neg unit
  · simp
    ring
  · simp
    ring

theorem inUnitsOf_ratio (unit : Int) (num den : Nat) :
    ((inUnitsOf unit num den).1 : ℚ) / (inUnitsOf unit num den).2 = num / den / 2 ^ unit := by
  have h := shift_div_shift (-unit) num den
  rw [neg_neg] at h
  rw [inUnitsOf, h, zpow_neg]
  exact (div_eq_mul_inv _ _).symm

theorem inUnitsOf_pos (unit : Int) (hden : 0 < den) : 0 < (inUnitsOf unit num den).2 := by
  simp only [inUnitsOf, Nat.shiftLeft_eq]
  positivity

/-- The numbers of digits tell the leading binary digit up to one. -/
theorem log2_bounds (hnum : 0 < num) (hden : 0 < den) :
    (2 : ℚ) ^ ((num.log2 : Int) - den.log2 - 1) ≤ num / den ∧
      (num / den : ℚ) < 2 ^ ((num.log2 : Int) - den.log2 + 1) := by
  have hpos : (0 : ℚ) < den := Nat.cast_pos.mpr hden
  constructor
  · have hn : ((2 ^ num.log2 : Nat) : ℚ) ≤ num := Nat.cast_le.mpr (Nat.log2_self_le hnum.ne')
    have hd : (den : ℚ) ≤ (2 ^ (den.log2 + 1) : Nat) := Nat.cast_le.mpr Nat.lt_log2_self.le
    have hexponent : (num.log2 : Int) - den.log2 - 1 + ((den.log2 + 1 : Nat) : Int) =
        (num.log2 : Nat) := by
      push_cast
      ring
    rw [le_div_iff₀ hpos]
    calc (2 : ℚ) ^ ((num.log2 : Int) - den.log2 - 1) * den
        ≤ 2 ^ ((num.log2 : Int) - den.log2 - 1) * (2 ^ (den.log2 + 1) : Nat) := by gcongr
      _ = 2 ^ num.log2 := by
        rw [Nat.cast_pow, Nat.cast_ofNat, ← zpow_natCast, ← two_zpow_add, hexponent, zpow_natCast]
      _ ≤ num := by exact_mod_cast hn
  · have hn : (num : ℚ) < (2 ^ (num.log2 + 1) : Nat) := Nat.cast_lt.mpr Nat.lt_log2_self
    have hd : ((2 ^ den.log2 : Nat) : ℚ) ≤ den := Nat.cast_le.mpr (Nat.log2_self_le hden.ne')
    have hexponent : (num.log2 : Int) - den.log2 + 1 + ((den.log2 : Nat) : Int) =
        ((num.log2 + 1 : Nat) : Int) := by
      push_cast
      ring
    rw [div_lt_iff₀ hpos]
    calc (num : ℚ) < (2 ^ (num.log2 + 1) : Nat) := hn
      _ = 2 ^ ((num.log2 : Int) - den.log2 + 1) * (2 ^ den.log2 : Nat) := by
        rw [Nat.cast_pow, Nat.cast_pow, Nat.cast_ofNat, ← zpow_natCast, ← zpow_natCast,
          ← two_zpow_add, hexponent]
      _ ≤ 2 ^ ((num.log2 : Int) - den.log2 + 1) * den := by gcongr

/-- **The leading binary digit**: the number lies between its power of two and the next one. -/
theorem floorLog2_bounds (hnum : 0 < num) (hden : 0 < den) :
    (2 : ℚ) ^ floorLog2 num den ≤ num / den ∧
      (num / den : ℚ) < 2 ^ (floorLog2 num den + 1) := by
  obtain ⟨hlow, hhigh⟩ := log2_bounds hnum hden
  generalize hguess : (num.log2 : Int) - den.log2 = guess at hlow hhigh
  -- The test settles which of the two it is.
  have htest : (inUnitsOf guess num den).2 ≤ (inUnitsOf guess num den).1 ↔
      (2 : ℚ) ^ guess ≤ num / den := by
    have hunit : (0 : ℚ) < (inUnitsOf guess num den).2 := Nat.cast_pos.mpr (inUnitsOf_pos _ hden)
    rw [← Nat.cast_le (α := ℚ), ← one_le_div hunit, inUnitsOf_ratio,
      one_le_div (two_zpow_pos guess)]
  simp only [floorLog2, hguess]
  split
  next h => exact ⟨htest.mp h, hhigh⟩
  next h =>
    rw [sub_add_cancel]
    exact ⟨hlow, lt_of_not_ge fun hle => h (htest.mpr hle)⟩

/-! ## §2 The nearest integer -/

theorem two_mul_roundHalfEven (num : Nat) (hden : 0 < den) :
    2 * num ≤ 2 * (roundHalfEven num den * den) + den ∧
      2 * (roundHalfEven num den * den) ≤ 2 * num + den := by
  have hdivision : num / den * den + num % den = num := Nat.div_add_mod' num den
  have hsmall : num % den < den := Nat.mod_lt num hden
  simp only [roundHalfEven]
  split
  next h => omega
  next h =>
    rw [Nat.add_mul, Nat.one_mul]
    omega

theorem abs_roundHalfEven_sub_le (num : Nat) (hden : 0 < den) :
    |(roundHalfEven num den : ℚ) - num / den| ≤ 1 / 2 := by
  have hpos : (0 : ℚ) < den := Nat.cast_pos.mpr hden
  obtain ⟨hlow, hhigh⟩ := two_mul_roundHalfEven num hden
  have hlow : (2 * num : ℚ) ≤ 2 * (roundHalfEven num den * den) + den := by exact_mod_cast hlow
  have hhigh : (2 * (roundHalfEven num den * den) : ℚ) ≤ 2 * num + den := by exact_mod_cast hhigh
  have hquotient : (num / den * den : ℚ) = num := div_mul_cancel₀ _ hpos.ne'
  rw [abs_le]
  constructor
  · apply le_of_mul_le_mul_right _ hpos
    linarith
  · apply le_of_mul_le_mul_right _ hpos
    linarith

theorem div_le_roundHalfEven (num den : Nat) : num / den ≤ roundHalfEven num den := by
  simp only [roundHalfEven]
  split
  next => exact Nat.le_refl _
  next => exact Nat.le_succ _

theorem roundHalfEven_le_div_add_one (num den : Nat) : roundHalfEven num den ≤ num / den + 1 := by
  simp only [roundHalfEven]
  split
  next => exact Nat.le_succ _
  next => exact Nat.le_refl _

/-- A larger quotient is not rounded to a smaller integer. -/
theorem roundHalfEven_mono {num' den' : Nat} (hden : 0 < den) (hden' : 0 < den')
    (h : num * den' ≤ num' * den) : roundHalfEven num den ≤ roundHalfEven num' den' := by
  have hquotient : num / den ≤ num' / den' := by
    rw [Nat.le_div_iff_mul_le hden']
    apply Nat.le_of_mul_le_mul_right _ hden
    calc num / den * den' * den = num / den * den * den' := by ring
      _ ≤ num * den' := Nat.mul_le_mul_right _ (Nat.div_mul_le_self num den)
      _ ≤ num' * den := h
  rcases Nat.lt_or_eq_of_le hquotient with hlt | heq
  · calc roundHalfEven num den ≤ num / den + 1 := roundHalfEven_le_div_add_one num den
      _ ≤ num' / den' := hlt
      _ ≤ roundHalfEven num' den' := div_le_roundHalfEven num' den'
  · -- The rests decide: if the larger one is rounded down, so is the smaller one.
    have hrests : num % den * den' ≤ num' % den' * den := by
      rw [← Nat.div_add_mod' num den, ← Nat.div_add_mod' num' den', heq, Nat.add_mul, Nat.add_mul,
        Nat.mul_right_comm _ den' den] at h
      exact Nat.le_of_add_le_add_left h
    have htwice : 2 * (num % den) * den' ≤ 2 * (num' % den') * den := by
      rw [Nat.mul_assoc, Nat.mul_assoc]
      exact Nat.mul_le_mul_left 2 hrests
    have hdown : 2 * (num' % den') ≤ den' → 2 * (num % den) ≤ den := fun hle =>
      Nat.le_of_mul_le_mul_right (htwice.trans ((Nat.mul_le_mul_right den hle).trans_eq
        (Nat.mul_comm den' den))) hden'
    have hbelow : 2 * (num' % den') < den' → 2 * (num % den) < den := fun hlt =>
      Nat.lt_of_mul_lt_mul_right (htwice.trans_lt ((Nat.mul_lt_mul_of_pos_right hlt hden).trans_eq
        (Nat.mul_comm den' den)))
    simp only [roundHalfEven, heq]
    split
    next => split <;> omega
    next hup =>
      rw [if_neg]
      omega

/-! ## §3 Rounding -/

/-- The exponent of the last place that a number is rounded at. -/
def unit (num den : Nat) : Int := max minExponent (floorLog2 num den - 52)

/-- The number of units that a number is rounded to. -/
def units (num den : Nat) : Nat :=
  let scaled := inUnitsOf (unit num den) num den
  roundHalfEven scaled.1 scaled.2

/-- A number rounded to its last place, however large it is. -/
def rounded (num den : Nat) : ℚ := units num den * 2 ^ unit num den

theorem minExponent_le_unit : minExponent ≤ unit num den := le_max_left _ _

/-- A number has at most 53 digits up to its last place. -/
theorem lt_mul_unit (hnum : 0 < num) (hden : 0 < den) :
    (num / den : ℚ) < 2 ^ 53 * 2 ^ unit num den := by
  have hunit : floorLog2 num den - 52 ≤ unit num den := le_max_right _ _
  rw [two_pow_mul_two_zpow]
  exact (floorLog2_bounds hnum hden).2.trans_le (two_zpow_le (by omega))

/-- Unless its last place is the least one there is, it has as many. -/
theorem mul_unit_le (hnum : 0 < num) (hden : 0 < den) (h : minExponent < unit num den) :
    (2 ^ 52 * 2 ^ unit num den : ℚ) ≤ num / den := by
  have hunit : unit num den = floorLog2 num den - 52 := by
    rcases max_choice minExponent (floorLog2 num den - 52) with hmax | hmax
    · exact absurd hmax h.ne'
    · exact hmax
  rw [two_pow_mul_two_zpow]
  exact (two_zpow_le (by omega)).trans (floorLog2_bounds hnum hden).1

theorem abs_units_sub_le (num : Nat) (hden : 0 < den) :
    |(units num den : ℚ) - num / den / 2 ^ unit num den| ≤ 1 / 2 := by
  rw [← inUnitsOf_ratio]
  exact abs_roundHalfEven_sub_le _ (inUnitsOf_pos _ hden)

/-- **The error is at most half a unit in the last place.** -/
theorem abs_rounded_sub_le (num : Nat) (hden : 0 < den) :
    |rounded num den - num / den| ≤ 2 ^ unit num den / 2 := by
  have hunit := two_zpow_pos (unit num den)
  have herror := mul_le_mul_of_nonneg_right (abs_units_sub_le num hden) hunit.le
  rw [← abs_of_pos hunit, ← abs_mul, abs_of_pos hunit, sub_mul,
    div_mul_cancel₀ _ hunit.ne'] at herror
  rw [rounded]
  linarith

theorem le_units (hden : 0 < den) {k : Nat} (h : (k * 2 ^ unit num den : ℚ) ≤ num / den) :
    k ≤ units num den := by
  have herror := abs_le.mp (abs_units_sub_le num hden)
  have hk : (k : ℚ) ≤ num / den / 2 ^ unit num den := (le_div_iff₀ (two_zpow_pos _)).mpr h
  have : (k : ℚ) < units num den + 1 := by linarith
  exact Nat.lt_succ_iff.mp (by exact_mod_cast this)

theorem units_le (hden : 0 < den) {k : Nat} (h : (num / den : ℚ) ≤ k * 2 ^ unit num den) :
    units num den ≤ k := by
  have herror := abs_le.mp (abs_units_sub_le num hden)
  have hk : (num / den / 2 ^ unit num den : ℚ) ≤ k := (div_le_iff₀ (two_zpow_pos _)).mpr h
  have : (units num den : ℚ) < k + 1 := by linarith
  exact Nat.lt_succ_iff.mp (by exact_mod_cast this)

/-- Rounding up reaches the next power of two at most. -/
theorem units_le_bound (hnum : 0 < num) (hden : 0 < den) : units num den ≤ 2 ^ 53 := by
  apply units_le hden
  exact_mod_cast (lt_mul_unit hnum hden).le

theorem le_units_of_lt (hnum : 0 < num) (hden : 0 < den) (h : minExponent < unit num den) :
    2 ^ 52 ≤ units num den := by
  apply le_units hden
  exact_mod_cast mul_unit_le hnum hden h

/-- A value with a larger last place is a whole number of units. -/
theorem exists_units_of_le (a : Nat) {j : Int} (h : unit num den ≤ j) :
    ∃ k : Nat, (a * 2 ^ j : ℚ) = k * 2 ^ unit num den := by
  obtain ⟨k, rfl⟩ := Int.le.dest h
  refine ⟨a * 2 ^ k, ?_⟩
  rw [two_zpow_add, zpow_natCast]
  push_cast
  ring

/-- Rounding does not fall below a value of the format. -/
theorem le_rounded (hnum : 0 < num) (hden : 0 < den) {a : Nat} {j : Int} (ha : a ≤ 2 ^ 53)
    (hj : minExponent ≤ j) (h : (a * 2 ^ j : ℚ) ≤ num / den) : a * 2 ^ j ≤ rounded num den := by
  rcases le_or_gt (unit num den) j with hle | hlt
  · obtain ⟨k, hk⟩ := exists_units_of_le a hle
    rw [hk] at h ⊢
    rw [rounded]
    gcongr
    exact le_units hden h
  · -- The value lies below the power of two that the number starts from.
    have hunits : 2 ^ 52 ≤ units num den := le_units_of_lt hnum hden (hj.trans_lt hlt)
    calc (a * 2 ^ j : ℚ) ≤ 2 ^ 53 * 2 ^ j := by gcongr; exact_mod_cast ha
      _ ≤ 2 ^ 52 * 2 ^ unit num den := by
        rw [two_pow_mul_two_zpow, two_pow_mul_two_zpow]
        exact two_zpow_le (by omega)
      _ ≤ rounded num den := by
        rw [rounded]
        gcongr
        exact_mod_cast hunits

/-- Rounding does not rise above a value of the format. -/
theorem rounded_le (hnum : 0 < num) (hden : 0 < den) {a : Nat} {j : Int} (ha : a < 2 ^ 53)
    (hj : minExponent ≤ j) (h : (num / den : ℚ) ≤ a * 2 ^ j) : rounded num den ≤ a * 2 ^ j := by
  rcases le_or_gt (unit num den) j with hle | hlt
  · obtain ⟨k, hk⟩ := exists_units_of_le a hle
    rw [hk] at h ⊢
    rw [rounded]
    gcongr
    exact units_le hden h
  · -- A value of smaller units is below the number.
    exfalso
    have hlarge := mul_unit_le hnum hden (hj.trans_lt hlt)
    have hsmall : (a * 2 ^ j : ℚ) < 2 ^ 52 * 2 ^ unit num den := by
      calc (a * 2 ^ j : ℚ) < 2 ^ 53 * 2 ^ j := by
            gcongr
            exact_mod_cast ha
        _ ≤ 2 ^ 52 * 2 ^ unit num den := by
          rw [two_pow_mul_two_zpow, two_pow_mul_two_zpow]
          exact two_zpow_le (by omega)
    linarith

section

variable {num' den' : Nat}

theorem floorLog2_mono (hnum : 0 < num) (hden : 0 < den) (hnum' : 0 < num') (hden' : 0 < den')
    (h : (num / den : ℚ) ≤ num' / den') : floorLog2 num den ≤ floorLog2 num' den' := by
  have hlt : (2 : ℚ) ^ floorLog2 num den < 2 ^ (floorLog2 num' den' + 1) :=
    ((floorLog2_bounds hnum hden).1.trans h).trans_lt (floorLog2_bounds hnum' hden').2
  exact Int.lt_add_one_iff.mp ((zpow_lt_zpow_iff_right₀ (by norm_num)).mp hlt)

theorem unit_mono (hnum : 0 < num) (hden : 0 < den) (hnum' : 0 < num') (hden' : 0 < den')
    (h : (num / den : ℚ) ≤ num' / den') : unit num den ≤ unit num' den' :=
  max_le_max_left _ (Int.sub_le_sub_right (floorLog2_mono hnum hden hnum' hden' h) 52)

/-- With one and the same last place a larger number has as many units at least. -/
theorem units_le_units (hden : 0 < den) (hden' : 0 < den') (heq : unit num den = unit num' den')
    (h : (num / den : ℚ) ≤ num' / den') : units num den ≤ units num' den' := by
  have hpos : 0 < (inUnitsOf (unit num den) num den).2 := inUnitsOf_pos _ hden
  have hpos' : 0 < (inUnitsOf (unit num' den') num' den').2 := inUnitsOf_pos _ hden'
  have hratio : ((inUnitsOf (unit num den) num den).1 : ℚ) / (inUnitsOf (unit num den) num den).2 ≤
      (inUnitsOf (unit num' den') num' den').1 / (inUnitsOf (unit num' den') num' den').2 := by
    rw [inUnitsOf_ratio, inUnitsOf_ratio, heq]
    exact div_le_div_of_nonneg_right h (two_zpow_pos _).le
  rw [div_le_div_iff₀ (Nat.cast_pos.mpr hpos) (Nat.cast_pos.mpr hpos')] at hratio
  exact roundHalfEven_mono hpos hpos' (by exact_mod_cast hratio)

/-- **Rounding keeps the order.** -/
theorem rounded_mono (hnum : 0 < num) (hden : 0 < den) (hnum' : 0 < num') (hden' : 0 < den')
    (h : (num / den : ℚ) ≤ num' / den') : rounded num den ≤ rounded num' den' := by
  rcases (unit_mono hnum hden hnum' hden' h).lt_or_eq with hlt | heq
  · -- A power of two separates numbers with different last places.
    have hunits : 2 ^ 52 ≤ units num' den' :=
      le_units_of_lt hnum' hden' (minExponent_le_unit.trans_lt hlt)
    calc rounded num den ≤ 2 ^ 53 * 2 ^ unit num den := by
          rw [rounded]
          gcongr
          exact_mod_cast units_le_bound hnum hden
      _ ≤ 2 ^ 52 * 2 ^ unit num' den' := by
        rw [two_pow_mul_two_zpow, two_pow_mul_two_zpow]
        exact two_zpow_le (by omega)
      _ ≤ rounded num' den' := by
        rw [rounded]
        gcongr
        exact_mod_cast hunits
  · rw [rounded, rounded, ← heq]
    gcongr
    exact units_le_units hden hden' heq h

end

/-! ## §4 Finite values -/

theorem magnitude_of_round? {x : Binary64} (hnum : 0 < num) (hden : 0 < den)
    (h : round? num den = some x) : x.negative = false ∧ x.magnitude = rounded num den := by
  have hbound := units_le_bound hnum hden
  rw [round?, if_neg hnum.ne'] at h
  dsimp only at h
  rw [← unit, ← units] at h
  split at h
  next =>
    split at h
    next =>
      cases h
      exact ⟨rfl, rfl⟩
    next => cases h
  next hcarry =>
    split at h
    next =>
      cases h
      -- The carry leaves a power of two.
      have hunits : units num den = 2 ^ 53 := by
        rw [mantissaBound] at hcarry
        omega
      refine ⟨rfl, ?_⟩
      rw [magnitude, rounded, hunits, two_zpow_add]
      norm_num
      ring
    next => cases h

/-- **Overflow**: only what reaches `2 ^ 1024` has no finite value. -/
theorem exists_round?_iff (hnum : 0 < num) (hden : 0 < den) :
    (∃ x, round? num den = some x) ↔ rounded num den < 2 ^ (1024 : Int) := by
  have hbound := units_le_bound hnum hden
  have hmantissa : mantissaBound = 2 ^ 53 := by norm_num [mantissaBound]
  rw [round?, if_neg hnum.ne']
  dsimp only
  rw [← unit, ← units, hmantissa, maxExponent]
  by_cases hcarry : units num den < 2 ^ 53
  · -- The units fit the mantissa, so the last place decides.
    rw [if_pos hcarry]
    by_cases hunit : unit num den ≤ 971
    · rw [if_pos hunit]
      refine iff_of_true ⟨_, rfl⟩ ?_
      calc rounded num den < 2 ^ 53 * 2 ^ unit num den := by
            rw [rounded]
            gcongr
            exact_mod_cast hcarry
        _ ≤ 2 ^ (1024 : Int) := by
          rw [two_pow_mul_two_zpow]
          exact two_zpow_le (by omega)
    · rw [if_neg hunit]
      refine iff_of_false nofun (not_lt.mpr ?_)
      have hunits : 2 ^ 52 ≤ units num den :=
        le_units_of_lt hnum hden (by rw [minExponent]; omega)
      calc (2 : ℚ) ^ (1024 : Int) ≤ 2 ^ 52 * 2 ^ unit num den := by
            rw [two_pow_mul_two_zpow]
            exact two_zpow_le (by omega)
        _ ≤ rounded num den := by
          rw [rounded]
          gcongr
          exact_mod_cast hunits
  · -- The units were rounded up to a power of two, which has a greater exponent.
    rw [if_neg hcarry]
    have hunits : units num den = 2 ^ 53 := by omega
    have hrounded : rounded num den = 2 ^ (53 + unit num den) := by
      rw [rounded, hunits, Nat.cast_pow, Nat.cast_ofNat, two_pow_mul_two_zpow]
      norm_cast
    rw [hrounded, zpow_lt_zpow_iff_right₀ (by norm_num)]
    by_cases hunit : unit num den + 1 ≤ 971
    · rw [if_pos hunit]
      exact iff_of_true ⟨_, rfl⟩ (by omega)
    · rw [if_neg hunit]
      exact iff_of_false nofun (by omega)

/-- The largest finite value. -/
def largest : Nat := (2 ^ 53 - 1) * 2 ^ 971

theorem largest_eq : (largest : ℚ) = (2 ^ 53 - 1 : Nat) * 2 ^ (971 : Int) := by
  rw [largest, Nat.cast_mul, Nat.cast_pow, Nat.cast_ofNat, ← zpow_natCast]
  rfl

/-- The least number that is rounded up past the largest value: half a unit of its last place above
it, which goes to the even neighbour. -/
def overflowThreshold : Nat := largest + 2 ^ 970

theorem overflowThreshold_add : (overflowThreshold : ℚ) + 2 ^ (970 : Int) = 2 ^ (1024 : Int) := by
  have hplace : (2 : ℚ) ^ (971 : Int) = 2 ^ 1 * 2 ^ (970 : Int) :=
    (two_pow_mul_two_zpow 1 970).symm
  have hpower : (2 : ℚ) ^ (1024 : Int) = 2 ^ 54 * 2 ^ (970 : Int) :=
    (two_pow_mul_two_zpow 54 970).symm
  have hhalf : ((2 ^ 970 : Nat) : ℚ) = 2 ^ (970 : Int) := by
    rw [Nat.cast_pow, Nat.cast_ofNat, ← zpow_natCast]
    rfl
  rw [overflowThreshold, Nat.cast_add, largest_eq, hhalf, hplace, hpower]
  generalize (2 : ℚ) ^ (970 : Int) = half
  norm_num
  ring

theorem rounded_overflowThreshold : rounded overflowThreshold 1 = 2 ^ (1024 : Int) := by
  have hunit : unit overflowThreshold 1 = 971 := by decide +kernel
  have hunits : units overflowThreshold 1 = 2 ^ 53 := by decide +kernel
  rw [rounded, hunit, hunits, Nat.cast_pow, Nat.cast_ofNat, two_pow_mul_two_zpow]
  rfl

/-- **Where overflow begins**: at the number in the middle between the largest value and the next
power of two. -/
theorem exists_round?_iff_lt (hnum : 0 < num) (hden : 0 < den) :
    (∃ x, round? num den = some x) ↔ (num / den : ℚ) < overflowThreshold := by
  rw [exists_round?_iff hnum hden]
  constructor
  · intro hfinite
    by_contra hlarge
    have hmono := rounded_mono (by decide +kernel : 0 < overflowThreshold) Nat.one_pos hnum hden
      (by rw [Nat.cast_one, div_one]; exact not_lt.mp hlarge)
    rw [rounded_overflowThreshold] at hmono
    exact absurd hfinite (not_lt.mpr hmono)
  · intro hsmall
    have hpos := two_zpow_pos 970
    -- The last place is at most that of the largest value, so half of it does not reach the power.
    have hunit : unit num den ≤ 971 := by
      by_contra hunit
      have hle := mul_unit_le hnum hden (by rw [minExponent]; omega)
      rw [two_pow_mul_two_zpow] at hle
      have hpower : (2 : ℚ) ^ (1024 : Int) ≤ _ := (two_zpow_le (by omega)).trans hle
      rw [← overflowThreshold_add] at hpower
      exact absurd (hsmall.trans (lt_add_of_pos_right _ hpos)) (not_lt.mpr hpower)
    have hhalf : (2 : ℚ) ^ unit num den / 2 ≤ 2 ^ (970 : Int) := by
      rw [div_le_iff₀ two_pos, mul_comm]
      exact (two_zpow_le hunit).trans_eq (two_pow_mul_two_zpow 1 970).symm
    calc rounded num den ≤ num / den + 2 ^ unit num den / 2 :=
          sub_le_iff_le_add'.mp (abs_le.mp (abs_rounded_sub_le num hden)).2
      _ < overflowThreshold + 2 ^ (970 : Int) := add_lt_add_of_lt_of_le hsmall hhalf
      _ = 2 ^ (1024 : Int) := overflowThreshold_add

/-- Up to the largest value there is no overflow. -/
theorem exists_round?_of_le (hden : 0 < den) (h : (num / den : ℚ) ≤ largest) :
    ∃ x, round? num den = some x ∧ x.magnitude ≤ largest := by
  rcases Nat.eq_zero_or_pos num with rfl | hnum
  · refine ⟨⟨false, 0, minExponent⟩, by rw [round?, if_pos rfl], ?_⟩
    rw [magnitude, Nat.cast_zero, zero_mul]
    exact Nat.cast_nonneg _
  · have hlt : largest < overflowThreshold := by decide +kernel
    obtain ⟨x, hx⟩ := (exists_round?_iff_lt hnum hden).mpr (h.trans_lt (Nat.cast_lt.mpr hlt))
    refine ⟨x, hx, ?_⟩
    rw [(magnitude_of_round? hnum hden hx).2, largest_eq]
    exact rounded_le hnum hden (by norm_num) (by decide) (largest_eq ▸ h)

/-! ## §5 Arithmetic -/

section

variable {x y : Binary64}

theorem magnitude_nonneg (x : Binary64) : 0 ≤ x.magnitude :=
  mul_nonneg (Nat.cast_nonneg _) (two_zpow_pos _).le

theorem fraction_pos (x : Binary64) : 0 < x.fraction.2 := by
  simp only [fraction, Nat.shiftLeft_eq]
  positivity

theorem fraction_ratio (x : Binary64) : (x.fraction.1 : ℚ) / x.fraction.2 = x.magnitude := by
  have h := shift_div_shift x.exponent x.mantissa 1
  rw [Nat.cast_one, div_one] at h
  exact h

theorem fraction_fst_pos (h : 0 < x.magnitude) : 0 < x.fraction.1 := by
  rw [← fraction_ratio] at h
  by_contra hzero
  rw [Nat.eq_zero_of_not_pos hzero] at h
  simp at h

/-- The integer part of a magnitude. -/
theorem le_wholeMagnitude_iff {n : Nat} : n ≤ x.wholeMagnitude ↔ (n : ℚ) ≤ x.magnitude := by
  have hpos : (0 : ℚ) < x.fraction.2 := Nat.cast_pos.mpr x.fraction_pos
  rw [wholeMagnitude, Nat.le_div_iff_mul_le x.fraction_pos, ← fraction_ratio, le_div_iff₀ hpos]
  norm_cast

/-- A product is the exact one, rounded. -/
theorem exists_mul?_eq (hx : 0 < x.magnitude) (hy : 0 < y.magnitude) :
    ∃ num den : Nat, 0 < num ∧ 0 < den ∧ (num / den : ℚ) = x.magnitude * y.magnitude ∧
      x.mul? y = round? num den := by
  refine ⟨_, _, Nat.mul_pos (fraction_fst_pos hx) (fraction_fst_pos hy),
    Nat.mul_pos x.fraction_pos y.fraction_pos, ?_, rfl⟩
  rw [← fraction_ratio, ← fraction_ratio]
  push_cast
  ring

/-- A divisor that is not below one leaves a finite value finite. -/
theorem exists_div? (hx : x.magnitude ≤ largest) (hy : 1 ≤ y.magnitude) :
    ∃ z, x.div? y = some z ∧ z.magnitude ≤ largest := by
  have hypos : 0 < y.magnitude := one_pos.trans_le hy
  apply exists_round?_of_le (Nat.mul_pos x.fraction_pos (fraction_fst_pos hypos))
  rw [Nat.cast_mul, Nat.cast_mul, ← div_div_div_eq, fraction_ratio, fraction_ratio]
  exact (div_le_self x.magnitude_nonneg hy).trans hx

end

end TypedSettings.Binary64

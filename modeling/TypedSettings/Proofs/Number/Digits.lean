import Mathlib
import TypedSettings.Number.Digits

/-!
# Spelled naturals

The digits of a natural number have no leading zero, and as long as the number stays within a limit
they are read back to the last one.

Main facts:
- `Digits.whole_ofNat`: written numbers are whole numerals
- `Digits.accumulate_eq`: digits within the limit are all read
-/

namespace TypedSettings.Digits

/-- The digits of a whole number: there is one at least, and none follows a leading zero. -/
structure Whole (ds : List Char) : Prop where
  ne_nil : ds ≠ []
  isDigit : ∀ c ∈ ds, c.isDigit
  eq_nil_of_zero : ∀ rest, ds = '0' :: rest → rest = []

theorem ofNat_of_lt {n : Nat} (h : n < 10) : ofNat n = [char n] := by
  rw [ofNat, if_pos h]

theorem ofNat_of_le {n : Nat} (h : 10 ≤ n) : ofNat n = ofNat (n / 10) ++ [char (n % 10)] := by
  rw [ofNat, if_neg (Nat.not_lt.mpr h)]

theorem char_ne_zero : ∀ digit < 10, digit ≠ 0 → char digit ≠ '0' := by decide

/-- A positive number starts with a digit other than zero. -/
theorem exists_head_ofNat {n : Nat} (h : 0 < n) : ∃ c rest, ofNat n = c :: rest ∧ c ≠ '0' := by
  fun_induction ofNat n with
  | case1 n small => exact ⟨char n, [], rfl, char_ne_zero n small (Nat.ne_of_gt h)⟩
  | case2 n large ih =>
    obtain ⟨c, rest, heq, hc⟩ := ih (by omega)
    exact ⟨c, rest ++ [char (n % 10)], by rw [heq, List.cons_append], hc⟩

theorem whole_ofNat (n : Nat) : Whole (ofNat n) where
  ne_nil := by
    by_cases h : n < 10
    · simp [ofNat_of_lt h]
    · simp [ofNat_of_le (Nat.not_lt.mp h)]
  isDigit := fun c hc => isDigit_of_mem_ofNat hc
  eq_nil_of_zero := by
    intro rest hzero
    rcases Nat.eq_zero_or_pos n with rfl | hpos
    · rw [ofNat_of_lt (by decide)] at hzero
      exact (List.cons.inj hzero).2.symm
    · obtain ⟨c, others, heq, hc⟩ := exists_head_ofNat hpos
      rw [heq] at hzero
      exact absurd (List.cons.inj hzero).1 hc

/-- Digits never make a number smaller. -/
theorem le_toNat (ds : List Char) (start : Nat) : start ≤ toNat ds start := by
  induction ds generalizing start with
  | nil => exact Nat.le_refl _
  | cons c rest ih =>
    have := ih (start * 10 + value c)
    rw [toNat_cons]
    omega

/-- **Digits within the limit are all read.** -/
theorem accumulate_eq {limit : Nat} {ds : List Char} {start : Nat}
    (h : toNat ds start ≤ limit) : accumulate limit start ds = (toNat ds start, []) := by
  induction ds generalizing start with
  | nil => rfl
  | cons c rest ih =>
    rw [toNat_cons] at h ⊢
    -- The number read so far is below the whole number, so the digit still fits.
    have hfits : start * 10 + value c ≤ limit := Nat.le_trans (le_toNat rest _) h
    rw [accumulate, if_pos hfits, ih h]

end TypedSettings.Digits

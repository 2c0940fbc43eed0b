/-!
# Decimal digits

Natural numbers as lists of decimal digit characters, most significant first.
-/

namespace TypedSettings.Digits

/-- The character of a single decimal digit. -/
def char (digit : Nat) : Char := Char.ofNat ('0'.toNat + digit)

/-- The number a digit character stands for. -/
def value (c : Char) : Nat := c.toNat - '0'.toNat

/-- The decimal digits of `n`, without leading zeros. -/
def ofNat (n : Nat) : List Char :=
  if n < 10 then [char n] else ofNat (n / 10) ++ [char (n % 10)]

/-- The number that a list of digit characters spells, continuing from `start`. -/
def toNat : List Char → (start : Nat) → Nat
  | [], start => start
  | c :: rest, start => toNat rest (start * 10 + value c)

/-- Appends digits to `n` while the result stays within `limit`; returns the digits that no longer
fit. -/
def accumulate (limit n : Nat) : List Char → Nat × List Char
  | [] => (n, [])
  | c :: rest =>
    if n * 10 + value c ≤ limit then accumulate limit (n * 10 + value c) rest else (n, c :: rest)

/-- How many decimal digits `n` has. -/
def count (n : Nat) : Nat := (ofNat n).length

/-! ## §1 Laws -/

theorem value_char : ∀ digit < 10, value (char digit) = digit := by decide

theorem isDigit_char : ∀ digit < 10, (char digit).isDigit := by decide

@[simp] theorem toNat_nil (start : Nat) : toNat [] start = start := rfl

@[simp] theorem toNat_cons (c : Char) (rest : List Char) (start : Nat) :
    toNat (c :: rest) start = toNat rest (start * 10 + value c) := rfl

theorem toNat_append (first second : List Char) (start : Nat) :
    toNat (first ++ second) start = toNat second (toNat first start) := by
  induction first generalizing start with
  | nil => rfl
  | cons c rest ih => exact ih _

/-- Every character of a written number is a digit. -/
theorem isDigit_of_mem_ofNat {n : Nat} {c : Char} (h : c ∈ ofNat n) : c.isDigit := by
  fun_induction ofNat n with
  | case1 n small => simp_all [isDigit_char]
  | case2 n large ih =>
    rcases List.mem_append.mp h with h | h
    · exact ih h
    · simp only [List.mem_singleton] at h
      exact h ▸ isDigit_char _ (Nat.mod_lt _ (by decide))

/-- A written number is read back. -/
theorem toNat_ofNat (n : Nat) : toNat (ofNat n) 0 = n := by
  fun_induction ofNat n with
  | case1 n small => rw [toNat_cons, toNat_nil, value_char n small, Nat.zero_mul, Nat.zero_add]
  | case2 n large ih =>
    rw [toNat_append, ih, toNat_cons, toNat_nil, value_char _ (Nat.mod_lt n (by decide))]
    omega

end TypedSettings.Digits

import Mathlib
import TypedSettings.Document.Scan.Numeral
import TypedSettings.Proofs.Number.Digits

/-!
# The grammar of numerals

A numeral is an optional minus sign, digits without a leading zero, optionally a point with digits,
and optionally an exponent with digits. At the start of a text exactly such a numeral is read, up to
its last digit. If it is the text of an integer of one of the two 64-bit forms, that integer is what
it denotes.

Main facts:
- `Numeral.Spells`: the grammar
- `Numeral.Spells.exists_scanSpelling`, `Numeral.spells_of_scanSpelling`: what is read is what it
  admits
- `Number.IsInteger.exists_spells_toText`: the text of an integer of the two forms denotes it
-/

namespace TypedSettings.Numeral

open Digits (Whole)

/-! ## §1 Grammar -/

/-- A numeral with a sign or without one. -/
def signed (negative : Bool) (ds : List Char) : List Char :=
  if negative then '-' :: ds else ds

/-- The digits that a point or an exponent mark asks for: one at least. -/
structure IsRun (ds : List Char) : Prop where
  ne_nil : ds ≠ []
  isDigit : ∀ c ∈ ds, c.isDigit

/-- `SpellsFraction text ds`: the text is a point and the digits `ds`, or nothing. -/
inductive SpellsFraction : List Char → List Char → Prop where
  | none : SpellsFraction [] []
  | digits {ds : List Char} (run : IsRun ds) : SpellsFraction ('.' :: ds) ds

inductive SpellsSign : List Char → Bool → Prop where
  | none : SpellsSign [] false
  | plus : SpellsSign ['+'] false
  | minus : SpellsSign ['-'] true

/-- `SpellsExponent text exponent`: the text is a mark, an optional sign and digits, or nothing. -/
inductive SpellsExponent : List Char → Option (Bool × List Char) → Prop where
  | none : SpellsExponent [] none
  | digits {mark : Char} {sign ds : List Char} {negative : Bool} (hmark : mark = 'e' ∨ mark = 'E')
      (hsign : SpellsSign sign negative) (run : IsRun ds) :
      SpellsExponent (mark :: (sign ++ ds)) (some (negative, ds))

/-- `Spells text n`: the text is the numeral `n`. -/
inductive Spells : List Char → Numeral → Prop where
  | mk {negative : Bool} {whole point fraction power : List Char}
      {exponent : Option (Bool × List Char)} (hwhole : Whole whole)
      (hpoint : SpellsFraction point fraction) (hpower : SpellsExponent power exponent) :
      Spells (signed negative (whole ++ (point ++ power))) ⟨negative, whole, fraction, exponent⟩

theorem isExponentMark_iff {c : Char} : isExponentMark c = true ↔ c = 'e' ∨ c = 'E' := by
  simp [isExponentMark]

/-! ## §2 Numerals are read -/

/-- Nothing at the start of the text continues a numeral. -/
def Ends : List Char → Prop
  | [] => True
  | c :: _ => c.isDigit = false ∧ c ≠ '.' ∧ isExponentMark c = false

theorem Ends.startsWithDigit {rest : List Char} (h : Ends rest) : startsWithDigit rest = false := by
  cases rest with
  | nil => rfl
  | cons c rest => exact h.1

theorem digits_append {ds rest : List Char} (hds : ∀ c ∈ ds, c.isDigit)
    (hrest : startsWithDigit rest = false) :
    digits (ds ++ rest) = ds ∧ afterDigits (ds ++ rest) = rest := by
  induction ds with
  | nil =>
    cases rest with
    | nil => exact ⟨rfl, rfl⟩
    | cons c rest =>
      have hc : c.isDigit = false := hrest
      simp [digits, afterDigits, hc]
  | cons c others ih =>
    have hc : c.isDigit = true := hds c List.mem_cons_self
    obtain ⟨hdigits, hafter⟩ := ih fun d hd => hds d (List.mem_cons_of_mem _ hd)
    rw [digits] at hdigits
    rw [afterDigits] at hafter
    simp [digits, afterDigits, hc, hdigits, hafter]

theorem scanWhole_append {ds rest : List Char} (h : Whole ds)
    (hrest : startsWithDigit rest = false) : scanWhole (ds ++ rest) = .ok (ds, rest) := by
  cases ds with
  | nil => exact absurd rfl h.ne_nil
  | cons c others =>
    have hc : c.isDigit = true := h.isDigit c List.mem_cons_self
    -- A leading zero stands alone; any other digit is followed by all digits there are.
    by_cases hzero : c = '0'
    · subst hzero
      obtain rfl : others = [] := h.eq_nil_of_zero others rfl
      simp [scanWhole, hrest]
    · obtain ⟨hdigits, hafter⟩ :=
        digits_append (fun d hd => h.isDigit d (List.mem_cons_of_mem _ hd)) hrest
      simp [scanWhole, hc, hzero, hdigits, hafter]

theorem IsRun.startsWithDigit {ds : List Char} (run : IsRun ds) (rest : List Char) :
    startsWithDigit (ds ++ rest) = true := by
  cases ds with
  | nil => exact absurd rfl run.ne_nil
  | cons c ds => exact run.isDigit c List.mem_cons_self

theorem IsRun.scanDigits_append {ds rest : List Char} (run : IsRun ds)
    (hrest : Numeral.startsWithDigit rest = false) : scanDigits (ds ++ rest) = .ok (ds, rest) := by
  obtain ⟨hdigits, hafter⟩ := digits_append run.isDigit hrest
  simp only [scanDigits, run.startsWithDigit rest, if_true, hdigits, hafter]

theorem SpellsSign.exponentSign_append {sign ds : List Char} {negative : Bool}
    (h : SpellsSign sign negative) (run : IsRun ds) (rest : List Char) :
    exponentSign (sign ++ (ds ++ rest)) = (negative, ds ++ rest) := by
  cases h with
  | plus => rfl
  | minus => rfl
  | none =>
    cases ds with
    | nil => exact absurd rfl run.ne_nil
    | cons c ds =>
      -- A digit is no sign.
      have hc : c.isDigit = true := run.isDigit c List.mem_cons_self
      simp only [List.nil_append, List.cons_append]
      unfold exponentSign
      split
      next heq =>
        cases heq
        exact absurd hc (by decide)
      next heq =>
        cases heq
        exact absurd hc (by decide)
      next => rfl

theorem SpellsExponent.exists_scanExponent {power rest : List Char}
    {exponent : Option (Bool × List Char)} (h : SpellsExponent power exponent)
    (hends : Ends rest) :
    ∃ atExponent, scanExponent (power ++ rest) = .ok (exponent, atExponent, rest) := by
  cases h with
  | none =>
    refine ⟨rest, ?_⟩
    cases rest with
    | nil => rfl
    | cons c rest =>
      simp only [List.nil_append, scanExponent, hends.2.2, Bool.false_eq_true, if_false]
  | @digits mark sign ds negative hmark hsign run =>
    refine ⟨ds ++ rest, ?_⟩
    have hdigits := run.scanDigits_append hends.startsWithDigit
    simp only [List.cons_append, List.append_assoc, scanExponent, isExponentMark_iff.mpr hmark,
      if_true, hsign.exponentSign_append run rest, hdigits]

/-- No exponent begins like a fraction or with a digit. -/
theorem SpellsExponent.exists_head {power rest : List Char} {exponent : Option (Bool × List Char)}
    (h : SpellsExponent power exponent) (hends : Ends rest) :
    startsWithDigit (power ++ rest) = false ∧ ∀ others, power ++ rest ≠ '.' :: others := by
  cases h with
  | none =>
    refine ⟨hends.startsWithDigit, ?_⟩
    rintro others rfl
    exact hends.2.1 rfl
  | digits hmark _ _ => rcases hmark with rfl | rfl <;> exact ⟨rfl, nofun⟩

theorem SpellsFraction.scanFraction_append {point fraction rest : List Char}
    (h : SpellsFraction point fraction) (hdigit : startsWithDigit rest = false)
    (hpoint : ∀ others, rest ≠ '.' :: others) :
    scanFraction (point ++ rest) = .ok (fraction, rest) := by
  cases h with
  | none =>
    rw [List.nil_append]
    unfold scanFraction
    split
    next others => exact absurd rfl (hpoint others)
    next => rfl
  | digits run => exact run.scanDigits_append hdigit

theorem scanSign_signed {negative : Bool} {ds rest : List Char} (h : Whole ds) :
    scanSign (signed negative (ds ++ rest)) = (negative, ds ++ rest) := by
  cases negative with
  | true => rfl
  | false =>
    cases ds with
    | nil => exact absurd rfl h.ne_nil
    | cons c others =>
      -- Without a sign the numeral starts with a digit.
      have hc : c ≠ '-' := by
        rintro rfl
        exact absurd (h.isDigit '-' List.mem_cons_self) (by decide)
      simp only [signed, Bool.false_eq_true, if_false, List.cons_append]
      unfold scanSign
      split
      next heq => exact absurd (List.cons.inj heq).1 hc
      next => rfl

theorem signed_append (negative : Bool) (ds rest : List Char) :
    signed negative ds ++ rest = signed negative (ds ++ rest) := by
  cases negative <;> rfl

/-- A numeral begins with a sign or a digit. -/
theorem Spells.exists_head {text : List Char} {n : Numeral} (h : Spells text n) :
    ∃ c rest, text = c :: rest ∧ (c = '-' ∨ c.isDigit = true) := by
  cases h with
  | @mk negative whole point _ power _ hwhole _ _ =>
    cases negative with
    | true => exact ⟨'-', whole ++ (point ++ power), rfl, Or.inl rfl⟩
    | false =>
      cases whole with
      | nil => exact absurd rfl hwhole.ne_nil
      | cons c ds => exact ⟨c, ds ++ (point ++ power), rfl,
          Or.inr (hwhole.isDigit c List.mem_cons_self)⟩

/-- **Numerals are read to their last digit.** -/
theorem Spells.exists_scanSpelling {text rest : List Char} {n : Numeral} (h : Spells text n)
    (hends : Ends rest) :
    ∃ atExponent, scanSpelling (text ++ rest) = .ok (n, atExponent, rest) := by
  cases h with
  | @mk negative whole point fraction power exponent hwhole hpoint hpower =>
    obtain ⟨hdigit, hdot⟩ := hpower.exists_head hends
    obtain ⟨atExponent, hexponent⟩ := hpower.exists_scanExponent hends
    have hfraction := hpoint.scanFraction_append hdigit hdot
    have hafter : startsWithDigit (point ++ (power ++ rest)) = false := by
      cases hpoint with
      | none => exact hdigit
      | digits => rfl
    refine ⟨atExponent, ?_⟩
    rw [signed_append, List.append_assoc, List.append_assoc]
    simp only [scanSpelling, scanSign_signed hwhole, scanWhole_append hwhole hafter, hfraction,
      hexponent]

theorem Spells.scan_append {text rest : List Char} {n : Numeral} {number : Number}
    (h : Spells text n) (hnumber : n.evaluate = .ok number) (hends : Ends rest) :
    scan (text ++ rest) = .ok (number, rest) := by
  obtain ⟨atExponent, hspelling⟩ := h.exists_scanSpelling hends
  simp only [scan, hspelling, hnumber]

/-! ## §3 What is read is a numeral -/

theorem isDigit_of_mem_digits {text : List Char} : ∀ c ∈ digits text, c.isDigit := by
  induction text with
  | nil => exact nofun
  | cons c rest ih =>
    rw [digits, List.takeWhile_cons]
    split
    next hc => exact List.forall_mem_cons.mpr ⟨hc, ih⟩
    next => exact nofun

theorem digits_append_afterDigits (text : List Char) : digits text ++ afterDigits text = text :=
  List.takeWhile_append_dropWhile

theorem whole_of_scanWhole {text ds rest : List Char} (h : scanWhole text = .ok (ds, rest)) :
    text = ds ++ rest ∧ Whole ds := by
  cases text with
  | nil => cases h
  | cons c others =>
    rw [scanWhole] at h
    split at h
    next => cases h
    next hdigit =>
      have hc : c.isDigit = true := by simpa using hdigit
      -- A zero stands alone, and any other digit starts a run.
      split at h
      next hzero =>
        subst hzero
        split at h
        next => cases h
        next =>
          cases h
          refine ⟨rfl, nofun, List.forall_mem_singleton.mpr rfl, ?_⟩
          exact fun others heq => (List.cons.inj heq).2.symm
      next hzero =>
        cases h
        rw [List.cons_append, digits_append_afterDigits]
        exact ⟨rfl, nofun, List.forall_mem_cons.mpr ⟨hc, isDigit_of_mem_digits⟩,
          fun _ heq => absurd (List.cons.inj heq).1 hzero⟩

theorem isRun_of_scanDigits {text ds rest : List Char} (h : scanDigits text = .ok (ds, rest)) :
    text = ds ++ rest ∧ IsRun ds := by
  cases text with
  | nil => cases h
  | cons c others =>
    cases hc : c.isDigit with
    | true =>
      simp only [scanDigits, startsWithDigit, hc, if_true, Except.ok.injEq, Prod.mk.injEq] at h
      obtain ⟨rfl, rfl⟩ := h
      refine ⟨(digits_append_afterDigits _).symm, ?_, isDigit_of_mem_digits⟩
      simp [digits, hc]
    | false => simp [scanDigits, startsWithDigit, hc] at h

theorem spells_of_scanFraction {text ds rest : List Char} (h : scanFraction text = .ok (ds, rest)) :
    ∃ point, text = point ++ rest ∧ SpellsFraction point ds := by
  unfold scanFraction at h
  split at h
  next others =>
    obtain ⟨rfl, run⟩ := isRun_of_scanDigits h
    exact ⟨'.' :: ds, rfl, .digits run⟩
  next =>
    cases h
    exact ⟨[], rfl, .none⟩

theorem spells_exponentSign (text : List Char) :
    ∃ sign, text = sign ++ (exponentSign text).2 ∧ SpellsSign sign (exponentSign text).1 := by
  unfold exponentSign
  split
  next rest => exact ⟨['-'], rfl, .minus⟩
  next rest => exact ⟨['+'], rfl, .plus⟩
  next => exact ⟨[], rfl, .none⟩

theorem spells_of_scanExponent {text atExponent rest : List Char}
    {exponent : Option (Bool × List Char)}
    (h : scanExponent text = .ok (exponent, atExponent, rest)) :
    ∃ power, text = power ++ rest ∧ SpellsExponent power exponent := by
  unfold scanExponent at h
  split at h
  next =>
    cases h
    exact ⟨[], rfl, .none⟩
  next c others =>
    split at h
    next hmark =>
      obtain ⟨sign, hothers, hsign⟩ := spells_exponentSign others
      cases hdigits : scanDigits (exponentSign others).2 with
      | error e => simp [hdigits] at h
      | ok scanned =>
        obtain ⟨ds, left⟩ := scanned
        simp only [hdigits] at h
        cases h
        obtain ⟨htext, run⟩ := isRun_of_scanDigits hdigits
        refine ⟨c :: (sign ++ ds), ?_, .digits (isExponentMark_iff.mp hmark) hsign run⟩
        rw [List.cons_append, List.append_assoc, ← htext, ← hothers]
    next =>
      cases h
      exact ⟨[], rfl, .none⟩

theorem signed_scanSign (text : List Char) :
    text = signed (scanSign text).1 (scanSign text).2 := by
  unfold scanSign
  split <;> rfl

/-- **What is read is a numeral.** -/
theorem spells_of_scanSpelling {text atExponent rest : List Char} {n : Numeral}
    (h : scanSpelling text = .ok (n, atExponent, rest)) :
    ∃ word, text = word ++ rest ∧ Spells word n := by
  unfold scanSpelling at h
  have hsign := signed_scanSign text
  generalize scanSign text = sign at h hsign
  obtain ⟨negative, unsigned⟩ := sign
  dsimp only at h hsign
  split at h
  next => cases h
  next whole afterWhole hwhole =>
    split at h
    next => cases h
    next fraction afterFraction hfraction =>
      split at h
      next => cases h
      next exponent atExponent' rest' hexponent =>
        cases h
        obtain ⟨htext, hdigits⟩ := whole_of_scanWhole hwhole
        obtain ⟨point, rfl, hpoint⟩ := spells_of_scanFraction hfraction
        obtain ⟨power, rfl, hpower⟩ := spells_of_scanExponent hexponent
        refine ⟨_, ?_, .mk hdigits hpoint hpower⟩
        rw [signed_append, List.append_assoc, List.append_assoc, ← htext, hsign]

theorem spells_of_scan {text rest : List Char} {number : Number}
    (h : scan text = .ok (number, rest)) :
    ∃ word n, text = word ++ rest ∧ Spells word n ∧ n.evaluate = .ok number := by
  unfold scan at h
  split at h
  next => cases h
  next n atExponent left hspelling =>
    obtain ⟨word, rfl, hword⟩ := spells_of_scanSpelling hspelling
    split at h
    next hnumber =>
      cases h
      exact ⟨word, n, rfl, hword, hnumber⟩
    next => cases h

/-! ## §4 Whole numerals -/

theorem spells_whole {negative : Bool} {ds : List Char} (h : Whole ds) :
    Spells (signed negative ds) ⟨negative, ds, [], none⟩ := by
  have hspells : Spells (signed negative (ds ++ ([] ++ []))) ⟨negative, ds, [], none⟩ :=
    .mk h .none .none
  rwa [List.append_nil, List.append_nil] at hspells

theorem evaluate_whole {negative : Bool} {ds : List Char}
    (h : Digits.toNat ds 0 ≤ significandLimit) :
    (Numeral.mk negative ds [] none).evaluate =
      (integral? negative (Digits.toNat ds 0)).elim (.error 0) .ok := by
  simp [evaluate, Digits.accumulate_eq h]

theorem exists_spells_of_integral? (negative : Bool) {n : Nat} {number : Number}
    (hlimit : n ≤ significandLimit) (hnumber : integral? negative n = some number) :
    ∃ numeral, Spells (signed negative (Digits.ofNat n)) numeral ∧
      numeral.evaluate = .ok number := by
  have hn : Digits.toNat (Digits.ofNat n) 0 = n := Digits.toNat_ofNat n
  refine ⟨_, spells_whole (Digits.whole_ofNat n), ?_⟩
  rw [evaluate_whole (hn.symm ▸ hlimit), hn, hnumber, Option.elim_some]

end TypedSettings.Numeral

namespace TypedSettings.Number

/-- A number that has one of the two 64-bit integer forms. -/
inductive IsInteger : Number → Prop where
  | unsigned {n : Nat} (h : n ≤ Numeral.significandLimit) : IsInteger (.integer n)
  | signed {n : Nat} (hpos : 0 < n) (h : n ≤ 2 ^ 63) : IsInteger (.integer (-n))

/-- A signed 64-bit integer has one of the two forms. -/
theorem isInteger_of_fits {n : Int} (h : fits n = true) : IsInteger (.integer n) := by
  obtain ⟨hleast, hbound⟩ : leastInteger ≤ n ∧ n < integerBound := by simpa [fits] using h
  rw [leastInteger] at hleast
  rw [integerBound] at hbound
  obtain ⟨m, rfl | rfl⟩ := Int.eq_nat_or_neg n
  · exact .unsigned (by simp only [Numeral.significandLimit]; omega)
  · rcases Nat.eq_zero_or_pos m with rfl | hpos
    · exact .unsigned (Nat.zero_le _)
    · exact .signed hpos (by omega)

theorem toText_neg {n : Nat} (h : 0 < n) :
    toText (.integer (-n)) = '-' :: Digits.ofNat n := by
  obtain ⟨m, rfl⟩ : ∃ m, n = m + 1 := Nat.exists_eq_add_one_of_ne_zero (Nat.ne_of_gt h)
  rfl

/-- **Integers are spelled by their text**: it is a numeral that denotes the number. -/
theorem IsInteger.exists_spells_toText {number : Number} (h : number.IsInteger) :
    ∃ n, Numeral.Spells number.toText n ∧ n.evaluate = .ok number := by
  cases h with
  | @unsigned n h => exact Numeral.exists_spells_of_integral? false h rfl
  | @signed n hpos h =>
    have hnumber : Numeral.integral? true n = some (.integer (-n)) := by
      have hrange : ¬ (n = 0 ∨ 0x8000000000000000 < n) := by omega
      simp only [Numeral.integral?, hrange, Bool.not_true, Bool.false_eq_true, if_false]
    have hlimit : n ≤ Numeral.significandLimit := by
      simp only [Numeral.significandLimit]
      omega
    rw [toText_neg hpos]
    exact Numeral.exists_spells_of_integral? true hlimit hnumber

end TypedSettings.Number

import Mathlib
import TypedSettings.Document.Quoted
import TypedSettings.Document.Scan.Quoted

/-!
# The grammar of strings

A string is made of characters that stand for themselves and of escapes. An escape is a letter or
mark with a meaning of its own, or one or two UTF-16 units in hexadecimal digits. Between quotation
marks exactly such a string is read, up to the closing mark. A string that has been written is one
of these spellings, so it is read back whatever characters it holds.

Main facts:
- `Quoted.Spells`: the grammar
- `Quoted.Spells.scanBody_append`, `Quoted.spells_of_scanBody`: what is read is what it admits
- `Quoted.scanBody_encodeBody`: written strings are read back
-/

namespace TypedSettings.Quoted

open Hexadecimal (value?)

/-! ## §1 Grammar -/

/-- `SpellsUnit text unit`: the text is four hexadecimal digits of value `unit`. -/
inductive SpellsUnit : List Char → Nat → Prop where
  | mk {a b c d : Char} {m n p q : Nat} (ha : value? a = some m) (hb : value? b = some n)
      (hc : value? c = some p) (hd : value? d = some q) :
      SpellsUnit [a, b, c, d] (((m * 16 + n) * 16 + p) * 16 + q)

/-- The escapes of one character, and what they stand for. -/
def shortEscapes : List (Char × Char) :=
  [('"', '"'), ('\\', '\\'), ('/', '/'), ('b', '\x08'), ('f', '\x0c'), ('n', '\n'), ('r', '\r'),
    ('t', '\t')]

/-- `SpellsEscape text c`: after a backslash the text stands for the character `c`. -/
inductive SpellsEscape : List Char → Char → Prop where
  | short {mark c : Char} (h : (mark, c) ∈ shortEscapes) : SpellsEscape [mark] c
  | unit {digits : List Char} {c : Char} (h : SpellsUnit digits c.toNat) :
      SpellsEscape ('u' :: digits) c
  /-- A high surrogate and a low one are a character together. -/
  | pair {first second : List Char} {high low : Nat} {c : Char} (hfirst : SpellsUnit first high)
      (hsecond : SpellsUnit second low) (hhigh : 0xD800 ≤ high ∧ high ≤ 0xDBFF)
      (hlow : 0xDC00 ≤ low ∧ low ≤ 0xDFFF)
      (hc : c.toNat = 0x10000 + (high - 0xD800) * 0x400 + (low - 0xDC00)) :
      SpellsEscape ('u' :: (first ++ '\\' :: 'u' :: second)) c

/-- `Spells body text`: between quotation marks the characters of `body` stand for `text`. -/
inductive Spells : List Char → List Char → Prop where
  | nil : Spells [] []
  | plain {c : Char} {body text : List Char} (hquote : c ≠ '"') (hbackslash : c ≠ '\\')
      (hcontrol : 0x20 ≤ c.toNat) (more : Spells body text) : Spells (c :: body) (c :: text)
  | escape {escape body text : List Char} {c : Char} (h : SpellsEscape escape c)
      (more : Spells body text) : Spells ('\\' :: (escape ++ body)) (c :: text)

/-! ## §2 Units and characters -/

theorem isHighSurrogate_iff {unit : Nat} :
    isHighSurrogate unit = true ↔ 0xD800 ≤ unit ∧ unit ≤ 0xDBFF := by
  simp [isHighSurrogate]

theorem isLowSurrogate_iff {unit : Nat} :
    isLowSurrogate unit = true ↔ 0xDC00 ≤ unit ∧ unit ≤ 0xDFFF := by
  simp [isLowSurrogate]

theorem toNat_ofNat {n : Nat} (h : n.isValidChar) : (Char.ofNat n).toNat = n := by
  rw [Char.ofNat, dif_pos h]
  rfl

/-- No character is a surrogate. -/
theorem not_surrogate (c : Char) :
    isHighSurrogate c.toNat = false ∧ isLowSurrogate c.toNat = false := by
  have hvalid : c.toNat < 0xD800 ∨ 0xDFFF < c.toNat ∧ c.toNat < 0x110000 := c.valid
  simp only [Bool.eq_false_iff, ne_eq, isHighSurrogate_iff, isLowSurrogate_iff]
  omega

/-- Any other unit is a character. -/
theorem toNat_ofNat_of_not_surrogate {unit : Nat} (hunit : unit < 0x10000)
    (hhigh : ¬ isHighSurrogate unit = true) (hlow : ¬ isLowSurrogate unit = true) :
    (Char.ofNat unit).toNat = unit := by
  rw [isHighSurrogate_iff] at hhigh
  rw [isLowSurrogate_iff] at hlow
  refine toNat_ofNat ?_
  show unit < 0xD800 ∨ 0xDFFF < unit ∧ unit < 0x110000
  omega

theorem toNat_pairedChar {high low : Nat} (hhigh : 0xD800 ≤ high ∧ high ≤ 0xDBFF)
    (hlow : 0xDC00 ≤ low ∧ low ≤ 0xDFFF) :
    (pairedChar high low).toNat = 0x10000 + (high - 0xD800) * 0x400 + (low - 0xDC00) := by
  refine toNat_ofNat (Or.inr ?_)
  omega

theorem value?_lt {c : Char} {n : Nat} (h : value? c = some n) : n < 16 := by
  have hc : c.toNat = c.val.toNat := rfl
  unfold value? at h
  simp only [Char.le_def, UInt32.le_iff_toNat_le] at h
  -- In each of the three ranges the value is the distance from its first digit.
  split at h
  next hrange =>
    have hlast : c.val.toNat ≤ 57 := hrange.2
    have hn : c.toNat - 48 = n := Option.some.inj h
    omega
  next =>
    split at h
    next hrange =>
      have hlast : c.val.toNat ≤ 102 := hrange.2
      have hn : c.toNat - 97 + 10 = n := Option.some.inj h
      omega
    next =>
      split at h
      next hrange =>
        have hlast : c.val.toNat ≤ 70 := hrange.2
        have hn : c.toNat - 65 + 10 = n := Option.some.inj h
        omega
      next => cases h

theorem SpellsUnit.lt {digits : List Char} {unit : Nat} (h : SpellsUnit digits unit) :
    unit < 0x10000 := by
  cases h with
  | mk ha hb hc hd =>
    have := value?_lt ha
    have := value?_lt hb
    have := value?_lt hc
    have := value?_lt hd
    omega

/-! ## §3 Strings are read -/

theorem SpellsUnit.scanUnit_append {digits : List Char} {unit : Nat} (h : SpellsUnit digits unit)
    (rest : List Char) : scanUnit (digits ++ rest) = .ok (unit, rest) := by
  cases h with
  | mk ha hb hc hd => simp only [scanUnit, List.cons_append, List.nil_append, ha, hb, hc, hd]

theorem SpellsEscape.scanEscape_append {escape : List Char} {c : Char} (h : SpellsEscape escape c)
    (rest : List Char) : scanEscape (escape ++ rest) = .ok (c, rest) := by
  cases h with
  | @short mark _ h =>
    simp only [shortEscapes, List.mem_cons, Prod.mk.injEq, List.not_mem_nil, or_false] at h
    rcases h with ⟨rfl, rfl⟩ | ⟨rfl, rfl⟩ | ⟨rfl, rfl⟩ | ⟨rfl, rfl⟩ | ⟨rfl, rfl⟩ | ⟨rfl, rfl⟩ |
      ⟨rfl, rfl⟩ | ⟨rfl, rfl⟩ <;> rfl
  | unit h =>
    obtain ⟨hhigh, hlow⟩ := not_surrogate c
    simp only [List.cons_append, scanEscape, h.scanUnit_append, hhigh, hlow, Bool.false_eq_true,
      if_false, Char.ofNat_toNat]
  | @pair first second high low _ hfirst hsecond hhigh hlow hc =>
    have hnotLow : isLowSurrogate high = false := by
      rw [Bool.eq_false_iff, ne_eq, isLowSurrogate_iff]
      omega
    have hpaired : pairedChar high low = c := by rw [pairedChar, ← hc, Char.ofNat_toNat]
    simp only [List.cons_append, List.append_assoc, scanEscape, hfirst.scanUnit_append, hnotLow,
      isHighSurrogate_iff.mpr hhigh, Bool.false_eq_true, if_false, if_true, scanLowSurrogate,
      hsecond.scanUnit_append, isLowSurrogate_iff.mpr hlow, hpaired]

theorem scanBody_escape {text left body rest : List Char} {c : Char}
    (h : scanEscape text = .ok (c, left)) (hbody : scanBody left = .ok (body, rest)) :
    scanBody ('\\' :: text) = .ok (c :: body, rest) := by
  rw [scanBody, if_neg (by decide), if_pos rfl]
  split
  next e he => cases h.symm.trans he
  next escaped left' hescaped =>
    cases h.symm.trans hescaped
    simp only [hbody]

/-- **Strings are read up to the closing mark** and no further. -/
theorem Spells.scanBody_append {body text : List Char} (h : Spells body text) (rest : List Char) :
    scanBody (body ++ '"' :: rest) = .ok (text, rest) := by
  induction h with
  | nil => simp [scanBody]
  | plain hquote hbackslash hcontrol _ ih =>
    rw [List.cons_append, scanBody, if_neg hquote, if_neg hbackslash,
      if_neg (Nat.not_lt.mpr hcontrol)]
    simp only [ih]
  | escape h _ ih =>
    rw [List.cons_append, List.append_assoc]
    exact scanBody_escape (h.scanEscape_append _) ih

/-! ## §4 What is read is a string -/

theorem spells_of_scanUnit {text rest : List Char} {unit : Nat}
    (h : scanUnit text = .ok (unit, rest)) :
    ∃ digits, text = digits ++ rest ∧ SpellsUnit digits unit := by
  unfold scanUnit at h
  dsimp only at h
  split at h
  next a b c d others =>
    split at h
    next ha hb hc hd =>
      cases h
      exact ⟨[a, b, c, d], rfl, .mk ha hb hc hd⟩
    next => cases h
  next => cases h

theorem spells_of_scanLowSurrogate {high : Nat} {text rest : List Char} {c : Char}
    (h : scanLowSurrogate high text = .ok (c, rest)) :
    ∃ second low, text = '\\' :: 'u' :: (second ++ rest) ∧ SpellsUnit second low ∧
      (0xDC00 ≤ low ∧ low ≤ 0xDFFF) ∧ c = pairedChar high low := by
  unfold scanLowSurrogate at h
  split at h
  next => cases h
  next => cases h
  next others =>
    split at h
    next => cases h
    next low left hunit =>
      obtain ⟨second, rfl, hsecond⟩ := spells_of_scanUnit hunit
      split at h
      next hlow =>
        rw [Except.ok.injEq, Prod.mk.injEq] at h
        obtain ⟨rfl, rfl⟩ := h
        exact ⟨second, low, rfl, hsecond, isLowSurrogate_iff.mp hlow, rfl⟩
      next => cases h
  next => cases h
  next => cases h

theorem spells_of_scanEscape {text rest : List Char} {c : Char}
    (h : scanEscape text = .ok (c, rest)) :
    ∃ escape, text = escape ++ rest ∧ SpellsEscape escape c := by
  unfold scanEscape at h
  split at h
  next => cases h
  -- The eight escapes of one character.
  iterate 8
    next =>
      cases h
      exact ⟨[_], rfl, .short (by decide)⟩
  next others =>
    split at h
    next => cases h
    next unit left hunit =>
      obtain ⟨digits, rfl, hdigits⟩ := spells_of_scanUnit hunit
      split at h
      next => cases h
      next hlow =>
        split at h
        next hhigh =>
          rw [isHighSurrogate_iff] at hhigh
          obtain ⟨second, low, rfl, hsecond, hlow, hc⟩ := spells_of_scanLowSurrogate h
          refine ⟨'u' :: (digits ++ '\\' :: 'u' :: second), by simp, ?_⟩
          refine .pair hdigits hsecond hhigh hlow ?_
          rw [hc, toNat_pairedChar hhigh hlow]
        next hhigh =>
          rw [Except.ok.injEq, Prod.mk.injEq] at h
          obtain ⟨rfl, rfl⟩ := h
          refine ⟨'u' :: digits, rfl, .unit ?_⟩
          rwa [toNat_ofNat_of_not_surrogate hdigits.lt hhigh hlow]
  next => cases h

/-- **What is read is a string.** -/
theorem spells_of_scanBody {text content rest : List Char}
    (h : scanBody text = .ok (content, rest)) :
    ∃ body, text = body ++ '"' :: rest ∧ Spells body content := by
  fun_induction scanBody text generalizing content rest with
  | case2 left =>
    cases h
    exact ⟨[], rfl, .nil⟩
  | case5 text c afterEscape hescape body left hbody _ ih =>
    cases h
    obtain ⟨escape, rfl, hspelled⟩ := spells_of_scanEscape hescape
    obtain ⟨others, rfl, hothers⟩ := ih hbody
    exact ⟨'\\' :: (escape ++ others), by simp, .escape hspelled hothers⟩
  | case8 c text hquote hbackslash hcontrol body left hbody ih =>
    cases h
    obtain ⟨others, rfl, hothers⟩ := ih hbody
    exact ⟨c :: others, rfl, .plain hquote hbackslash (Nat.not_lt.mp hcontrol) hothers⟩
  | _ => cases h

/-! ## §5 Written strings -/

/-- A written character is an escape that stands for it, or the character itself where that may
stand. -/
theorem encodeChar_cases (c : Char) :
    (∃ escape, encodeChar c = '\\' :: escape ∧ SpellsEscape escape c) ∨
      encodeChar c = [c] ∧ c ≠ '"' ∧ c ≠ '\\' ∧ 0x20 ≤ c.toNat := by
  unfold encodeChar
  -- The seven short forms.
  iterate 7
    split
    next h =>
      subst h
      exact Or.inl ⟨_, rfl, .short (by decide)⟩
  split
  next hcontrol =>
    have hhigh : value? (Hexadecimal.digit (c.toNat / 16)) = some (c.toNat / 16) :=
      Hexadecimal.value?_digit _ (by omega)
    have hlow : value? (Hexadecimal.digit (c.toNat % 16)) = some (c.toNat % 16) :=
      Hexadecimal.value?_digit _ (by omega)
    have hzero : value? '0' = some 0 := by decide
    have hunit : ((0 * 16 + 0) * 16 + c.toNat / 16) * 16 + c.toNat % 16 = c.toNat := by omega
    refine Or.inl ⟨_, rfl, .unit ?_⟩
    have hspelled := SpellsUnit.mk hzero hzero hhigh hlow
    rwa [hunit] at hspelled
  next hquote hbackslash _ _ _ _ _ hplain =>
    exact Or.inr ⟨rfl, hquote, hbackslash, Nat.not_lt.mp hplain⟩

theorem spells_encodeBody (text : List Char) : Spells (encodeBody text) text := by
  induction text with
  | nil => exact .nil
  | cons c others ih =>
    rw [encodeBody, List.flatMap_cons, ← encodeBody]
    rcases encodeChar_cases c with ⟨escape, hencoded, h⟩ | ⟨hencoded, hquote, hbackslash, hplain⟩
    · rw [hencoded, List.cons_append]
      exact .escape h ih
    · rw [hencoded]
      exact .plain hquote hbackslash hplain ih

/-- **Written strings are read back**, up to the closing mark and no further. -/
theorem scanBody_encodeBody (text rest : List Char) :
    scanBody (encodeBody text ++ '"' :: rest) = .ok (text, rest) :=
  (spells_encodeBody text).scanBody_append rest

end TypedSettings.Quoted

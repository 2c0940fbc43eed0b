import Mathlib
import TypedSettings.Text.Literal

/-!
# Written literals

A literal gives back the text it was made of, wherever it stands: the mark that ends it is the first
one that is not part of an escape. It does so whichever characters are written by their code points
for having no printed form. No literal spans two lines.

Main facts:
- `Literal.piece_encodeCharWith`: every character is written in one of the ways that there are
- `Literal.decode?_append_with`: literals are read back, whatever follows
- `Literal.decodeItems?_append`: so are lists of literals
- `Literal.newline_notMem`: a literal has no line feed
-/

namespace TypedSettings

namespace Hexadecimal

/-- The number that digits spell after those that spell `start`. -/
def ofDigits? (start : Nat) (ds : List Char) : Option Nat :=
  ds.foldlM (fun n d => (value? d).map (n * 16 + ·)) start

theorem ofDigits?_cons (start : Nat) (d : Char) (ds : List Char) :
    ofDigits? start (d :: ds) =
      ((value? d).map (start * 16 + ·)).bind fun next => ofDigits? next ds := rfl

/-- The digits of a number are read back. -/
theorem ofDigits?_digits (n : Nat) : ofDigits? 0 (digits n) = some n := by
  fun_induction digits n with
  | case1 n small => simp [ofDigits?, value?_digit n small]
  | case2 n large ih =>
    have hdigit : n % 16 < 16 := Nat.mod_lt n (by decide)
    rw [ofDigits?] at ih ⊢
    rw [List.foldlM_append, ih]
    simp [value?_digit _ hdigit, Nat.div_add_mod']

theorem digits_ne_nil (n : Nat) : digits n ≠ [] := by
  rw [digits]
  split_ifs <;> simp

/-- A number has as many digits as its bound. -/
theorem length_digits_le {k n : Nat} (h : n < 16 ^ (k + 1)) : (digits n).length ≤ k + 1 := by
  induction k generalizing n with
  | zero => rw [digits, if_pos (by simpa using h), List.length_singleton]
  | succ k ih =>
    rw [digits]
    split_ifs
    · simp
    · have hdiv : n / 16 < 16 ^ (k + 1) := Nat.div_lt_of_lt_mul (by rwa [← pow_succ'])
      simpa using ih hdiv

/-- Digits neither end a literal or its line nor escape another character. -/
theorem digit_ne : ∀ n < 16, digit n ≠ '"' ∧ digit n ≠ '\\' ∧ digit n ≠ '\n' := by decide

/-- Every digit of a number is the digit of something below sixteen. -/
theorem exists_of_mem_digits {n : Nat} {c : Char} (h : c ∈ digits n) : ∃ k < 16, digit k = c := by
  fun_induction digits n with
  | case1 n small => exact ⟨n, small, (List.mem_singleton.mp h).symm⟩
  | case2 n large ih =>
    rcases List.mem_append.mp h with hfirst | hlast
    · exact ih hfirst
    · exact ⟨n % 16, Nat.mod_lt n (by decide), (List.mem_singleton.mp hlast).symm⟩

end Hexadecimal

namespace Literal

/-! ## §1 Written characters -/

/-- `Piece piece c`: the character can be written as the piece, inside a literal. -/
inductive Piece : List Char → Char → Prop where
  | plain {c : Char} (h : c ∉ ['"', '\\', '\r']) : Piece [c] c
  | short {e c : Char} (h : shortEscape? e = some c) : Piece ['\\', e] c
  /-- A code point has between one and six digits. -/
  | code {ds : List Char} {n : Nat} {c : Char} (hne : ds ≠ []) (hlength : ds.length ≤ 6)
      (hvalue : Hexadecimal.ofDigits? 0 ds = some n) (hchar : charOfCode? n = some c) :
      Piece (['\\', 'u', '\x7b'] ++ ds ++ ['\x7d']) c

section

variable (unprintable : Char → Bool)

/-- The written form of one character, where `unprintable` tells which characters are written by
their code points. -/
def encodeCharWith (c : Char) : List Char :=
  if c = '\x00' then ['\\', '0']
  else if c = '\t' then ['\\', 't']
  else if c = '\n' then ['\\', 'n']
  else if c = '\r' then ['\\', 'r']
  else if c = '"' then ['\\', '"']
  else if c = '\\' then ['\\', '\\']
  else if unprintable c then ['\\', 'u', '\x7b'] ++ Hexadecimal.digits c.toNat ++ ['\x7d']
  else [c]

/-- The characters of a literal with its quotation marks. -/
def encodeCharsWith (text : List Char) : List Char :=
  '"' :: text.flatMap (encodeCharWith unprintable) ++ ['"']

end

theorem charOfCode?_toNat (c : Char) : charOfCode? c.toNat = some c := by
  rw [charOfCode?, if_pos (show c.toNat.isValidChar from c.valid), Char.ofNat_toNat]

/-- **Every character is written in one of the ways that there are.** -/
theorem piece_encodeCharWith (unprintable : Char → Bool) (c : Char) :
    Piece (encodeCharWith unprintable c) c := by
  unfold encodeCharWith
  split_ifs with hnul htab hfeed hreturn hquote hbackslash hcode
  · subst hnul; exact .short rfl
  · subst htab; exact .short rfl
  · subst hfeed; exact .short rfl
  · subst hreturn; exact .short rfl
  · subst hquote; exact .short rfl
  · subst hbackslash; exact .short rfl
  · have hbound : c.toNat < 16 ^ 6 := by
      have hvalid : c.toNat.isValidChar := c.valid
      unfold Nat.isValidChar at hvalid
      omega
    exact .code (Hexadecimal.digits_ne_nil _) (Hexadecimal.length_digits_le hbound)
      (Hexadecimal.ofDigits?_digits _) (charOfCode?_toNat c)
  · exact .plain (by simp [hquote, hbackslash, hreturn])

/-! ## §2 Reading back -/

theorem ne_brace_of_value? {d : Char} {k : Nat} (h : Hexadecimal.value? d = some k) :
    d ≠ '\x7d' := by
  rintro rfl
  cases h

/-- Digits are read after the code point so far. -/
theorem decodeBody?_code_digits {ds : List Char} {start n : Nat} (value : Option Nat)
    (hstart : value.getD 0 = start) (hne : ds ≠ [])
    (h : Hexadecimal.ofDigits? start ds = some n) (rest : List Char) :
    decodeBody? (.code value) (ds ++ rest) = decodeBody? (.code (some n)) rest := by
  induction ds generalizing start value with
  | nil => exact absurd rfl hne
  | cons d ds ih =>
    rw [Hexadecimal.ofDigits?_cons, Option.bind_eq_some_iff] at h
    obtain ⟨next, hnext, hrest⟩ := h
    obtain ⟨k, hk, rfl⟩ := Option.map_eq_some_iff.mp hnext
    rw [List.cons_append, decodeBody?, if_neg (ne_brace_of_value? hk), hk]
    dsimp only
    rw [hstart]
    cases ds with
    | nil =>
      cases hrest
      rfl
    | cons d' ds => exact ih _ rfl (List.cons_ne_nil _ _) hrest

/-- **A written character is read back**, before whatever follows. -/
theorem Piece.decodeBody?_append {piece : List Char} {c : Char} (h : Piece piece c)
    (rest : List Char) :
    decodeBody? .plain (piece ++ rest) =
      (decodeBody? .plain rest).map fun (text, left) => (c :: text, left) := by
  cases h with
  | plain h =>
    simp only [List.mem_cons, List.not_mem_nil, or_false, not_or] at h
    rw [List.singleton_append, decodeBody?, if_neg h.1, if_neg h.2.1]
  | @short e c h =>
    have hcode : e ≠ 'u' := by
      rintro rfl
      cases h
    simp [decodeBody?, hcode, h]
  | @code ds n c hne hlength hvalue hchar =>
    have hopen : decodeBody? .plain (['\\', 'u', '\x7b'] ++ ds ++ ['\x7d'] ++ rest) =
        decodeBody? (.code none) (ds ++ '\x7d' :: rest) := by
      simp [decodeBody?]
    rw [hopen, decodeBody?_code_digits none rfl hne hvalue, decodeBody?, if_pos rfl,
      Option.bind_some, hchar]

/-- **Literals are read back**, whatever follows them. -/
theorem decode?_append_with (unprintable : Char → Bool) (text rest : List Char) :
    decode? (encodeCharsWith unprintable text ++ rest) = some (text, rest) := by
  have hbody : decodeBody? .plain (text.flatMap (encodeCharWith unprintable) ++ '"' :: rest) =
      some (text, rest) := by
    induction text with
    | nil => rfl
    | cons c text ih =>
      rw [List.flatMap_cons, List.append_assoc,
        (piece_encodeCharWith unprintable c).decodeBody?_append, ih]
      rfl
  have hopen : decode? (encodeCharsWith unprintable text ++ rest) =
      decodeBody? .plain (text.flatMap (encodeCharWith unprintable) ++ '"' :: rest) := by
    simp [encodeCharsWith, decode?]
  rw [hopen, hbody]

/-- The literal of a text is read back as that text, and ends where it ends. -/
theorem decode?_encode_append (text : String) (rest : List Char) :
    decode? ((encode text).toList ++ rest) = some (text.toList, rest) := by
  rw [encode, String.toList_ofList]
  exact decode?_append_with isUnprintable text.toList rest

/-! ## §3 Lists of literals -/

theorem length_decodeBody? {mode : Mode} {text body left : List Char}
    (h : decodeBody? mode text = some (body, left)) : left.length < text.length := by
  fun_induction decodeBody? mode text generalizing body <;> grind [Option.map_eq_some_iff]

theorem length_decode? {text body left : List Char} (h : decode? text = some (body, left)) :
    left.length < text.length := by
  unfold decode? at h
  split at h
  · exact Nat.lt_succ_of_lt (length_decodeBody? h)
  · cases h

/-- The texts of literals that commas separate, up to a closing bracket, and what follows that. The
last literal may be followed by a comma of its own, and blanks may stand before each. -/
def decodeItems? (text : List Char) : Option (List (List Char) × List Char) :=
  match text with
  | ']' :: rest => some ([], rest)
  | ' ' :: rest => decodeItems? rest
  | text =>
    match _h : decode? text with
    | some (item, ']' :: rest) => some ([item], rest)
    | some (item, ',' :: rest) =>
      (decodeItems? rest).map fun (items, left) => (item :: items, left)
    | _ => none
termination_by text.length
decreasing_by
  · simp
  · have := length_decode? _h
    simp only [List.length_cons] at this
    omega

section

variable {text rest item : List Char}

theorem decodeItems?_close (rest : List Char) : decodeItems? (']' :: rest) = some ([], rest) := by
  rw [decodeItems?]

theorem decodeItems?_blank (rest : List Char) :
    decodeItems? (' ' :: rest) = decodeItems? rest := by
  rw [decodeItems?]

/-- A literal starts with its quotation mark. -/
theorem exists_of_decode? (h : decode? text = some (item, rest)) :
    ∃ others, text = '"' :: others := by
  unfold decode? at h
  split at h
  next others => exact ⟨others, rfl⟩
  · cases h

theorem decodeItems?_last (h : decode? text = some (item, ']' :: rest)) :
    decodeItems? text = some ([item], rest) := by
  obtain ⟨others, rfl⟩ := exists_of_decode? h
  rw [decodeItems?]
  · split <;> simp_all
  · simp
  · simp

theorem decodeItems?_more (h : decode? text = some (item, ',' :: rest)) :
    decodeItems? text = (decodeItems? rest).map fun (items, left) => (item :: items, left) := by
  obtain ⟨others, rfl⟩ := exists_of_decode? h
  rw [decodeItems?]
  · split <;> simp_all
  · simp
  · simp

end

/-- The literal of a text, where `unprintable` tells which characters are written by their code
points. -/
def encodeWith (unprintable : Char → Bool) (text : String) : String :=
  String.ofList (encodeCharsWith unprintable text.toList)

/-- **Lists of literals are read back**, whatever follows them. -/
theorem decodeItems?_append (unprintable : Char → Bool) (texts : List String) (rest : List Char) :
    decodeItems? ((", ".intercalate (texts.map (encodeWith unprintable))).toList ++ ']' :: rest) =
      some (texts.map String.toList, rest) := by
  induction texts with
  | nil => exact decodeItems?_close rest
  | cons text texts ih =>
    cases texts with
    | nil =>
      have hlast := decode?_append_with unprintable text.toList (']' :: rest)
      rw [List.map_singleton, String.intercalate_singleton, encodeWith, String.toList_ofList,
        decodeItems?_last hlast]
      rfl
    | cons next texts =>
      -- After the first literal there are a comma, a blank and the others.
      have hmore := decode?_append_with unprintable text.toList (',' :: ' ' ::
        ((", ".intercalate ((next :: texts).map (encodeWith unprintable))).toList ++ ']' :: rest))
      have hsplit :
          (", ".intercalate ((text :: next :: texts).map (encodeWith unprintable))).toList ++
              ']' :: rest =
            encodeCharsWith unprintable text.toList ++ (',' :: ' ' ::
              ((", ".intercalate ((next :: texts).map (encodeWith unprintable))).toList ++
                ']' :: rest)) := by
        simp [encodeWith, String.intercalate_cons_cons]
      rw [hsplit, decodeItems?_more hmore, decodeItems?_blank, ih]
      rfl

/-! ## §4 One line -/

theorem newline_notMem_encodeChar (c : Char) : '\n' ∉ encodeChar c := by
  unfold encodeChar
  split_ifs with hnul htab hfeed hreturn hquote hbackslash hcode
  any_goals decide
  · intro hmem
    simp at hmem
    obtain ⟨k, hk, hnewline⟩ := Hexadecimal.exists_of_mem_digits hmem
    exact (Hexadecimal.digit_ne k hk).2.2 hnewline
  · exact fun hmem => hfeed (List.mem_singleton.mp hmem).symm

theorem newline_notMem (text : String) : '\n' ∉ (encode text).toList := by
  rw [encode, String.toList_ofList, encodeChars]
  simp [newline_notMem_encodeChar]

end Literal

end TypedSettings

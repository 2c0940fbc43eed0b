import Mathlib
import TypedSettings.Document.Token
import TypedSettings.Proofs.Document.Grammar

/-!
# Tokens and the texts they are cut from

A text is cut into tokens at filler. Every token that is not faulty is cut from one lexeme: a
punctuation mark or a value without parts. And each lexeme makes one token, unless it is a numeral
that the following text continues.

Main facts:
- `Token.ofChars_gap`, `Token.ofChars_eq_nil_iff`: filler makes no tokens, and nothing else does
- `Token.exists_mark`, `Token.exists_scalar`: the lexeme of a token
- `Token.exists_of_scalar`: the token of a lexeme
-/

namespace TypedSettings

open Filler (Gap Trailing)

/-- The number that a numeral is read as. There is none if it is out of range, which
`Numeral.InRange` tells from the digits. -/
def Numeral.Denotes (n : Numeral) (number : Number) : Prop := n.evaluate = .ok number

namespace Numeral

variable {c : Char}

/-- What a numeral begins with is no character of any other kind. -/
theorem ne_of_begins (h : c = '-' ∨ c.isDigit = true) (d : Char)
    (hd : ¬ (d = '-' ∨ d.isDigit = true)) : c ≠ d := by
  rintro rfl
  exact hd h

theorem isBlank_of_begins (h : c = '-' ∨ c.isDigit = true) : Filler.isBlank c = false := by
  rw [Bool.eq_false_iff, ne_eq, Filler.isBlank_iff]
  intro hmem
  simp only [List.mem_cons, List.not_mem_nil, or_false] at hmem
  rcases hmem with rfl | rfl | rfl | rfl <;> exact absurd h (by decide)

end Numeral

namespace Token

/-! ## §1 Filler -/

/-- The tokens of a text, wherever they stand. -/
def ofChars (text : List Char) : List Token := (scanAll text).map Prod.fst

theorem ofChars_of_skip_error {text : List Char} {e : LocalError}
    (h : Filler.skip .gap text = .error e) : ofChars text = [.broken .filler e] := by
  rw [ofChars, scanAll]
  split
  next he =>
    cases h.symm.trans he
    rfl
  next hnil => cases h.symm.trans hnil
  next hcons => cases h.symm.trans hcons

theorem ofChars_of_skip_nil {text : List Char} (h : Filler.skip .gap text = .ok []) :
    ofChars text = [] := by
  rw [ofChars, scanAll]
  split
  next he => cases h.symm.trans he
  next => rfl
  next hcons => cases h.symm.trans hcons

theorem ofChars_of_skip_cons {text rest : List Char} {c : Char}
    (h : Filler.skip .gap text = .ok (c :: rest)) :
    ofChars text = (scan c rest).1 :: ofChars (scan c rest).2 := by
  rw [ofChars, scanAll]
  split
  next he => cases h.symm.trans he
  next hnil => cases h.symm.trans hnil
  next hcons =>
    cases h.symm.trans hcons
    rfl

/-- A text with nothing but filler before it has the same tokens. -/
theorem ofChars_congr {first second : List Char}
    (h : Filler.skip .gap first = Filler.skip .gap second) : ofChars first = ofChars second := by
  cases hskip : Filler.skip .gap second with
  | error e => rw [ofChars_of_skip_error (h.trans hskip), ofChars_of_skip_error hskip]
  | ok left =>
    cases left with
    | nil => rw [ofChars_of_skip_nil (h.trans hskip), ofChars_of_skip_nil hskip]
    | cons c rest => rw [ofChars_of_skip_cons (h.trans hskip), ofChars_of_skip_cons hskip]

theorem ofChars_gap {gap : List Char} (h : Gap gap) (rest : List Char) :
    ofChars (gap ++ rest) = ofChars rest :=
  ofChars_congr (h.skip_append rest)

/-- **A text without tokens** is filler up to its end. -/
theorem ofChars_eq_nil_iff {text : List Char} : ofChars text = [] ↔ Trailing text := by
  rw [← Filler.skip_eq_nil_iff]
  constructor
  · intro h
    cases hskip : Filler.skip .gap text with
    | error e => cases (ofChars_of_skip_error hskip).symm.trans h
    | ok left =>
      cases left with
      | nil => rfl
      | cons c rest => cases (ofChars_of_skip_cons hskip).symm.trans h
  · exact ofChars_of_skip_nil

theorem ofChars_nil : ofChars [] = [] := ofChars_of_skip_nil rfl

/-- A character that is no filler begins a token. -/
theorem ofChars_cons {c : Char} (rest : List Char) (hblank : Filler.isBlank c = false)
    (hslash : c ≠ '/') : ofChars (c :: rest) = (scan c rest).1 :: ofChars (scan c rest).2 :=
  ofChars_of_skip_cons (Filler.skip_gap_eq_self hblank hslash rest)

/-! ## §2 Lexemes -/

/-- The character of a punctuation token. -/
def mark? : Token → Option Char
  | .listOpen => some '['
  | .listClose => some ']'
  | .objectOpen => some '\x7b'
  | .objectClose => some '\x7d'
  | .comma => some ','
  | .colon => some ':'
  | _ => none

/-- The value that a token is by itself. -/
def value? : Token → Option Value
  | .null => some .null
  | .boolean b => some (.boolean b)
  | .number n => some (.number n)
  | .string text => some (.string text)
  | _ => none

/-- `Lexeme word token`: the token is spelled as the word. -/
inductive Lexeme : List Char → Token → Prop where
  | mark {c : Char} {token : Token} (h : token.mark? = some c) : Lexeme [c] token
  | scalar {word : List Char} {value : Value} {token : Token} (h : token.value? = some value)
      (hword : Value.Scalar Numeral.Denotes word value) : Lexeme word token

/-- Tokens that are spelled as nothing. -/
def IsFaulty : Token → Prop
  | .stray => True
  | .broken _ _ => True
  | _ => False

theorem mark?_of_value? {token : Token} {value : Value} (h : token.value? = some value) :
    token.mark? = none := by
  cases token <;> first | rfl | cases h

theorem punctuation?_eq_some_iff {c : Char} {token : Token} :
    punctuation? c = some token ↔ token.mark? = some c := by
  constructor
  · intro h
    unfold punctuation? at h
    iterate 6
      split at h
      next hc =>
        cases h
        exact congrArg some hc.symm
    cases h
  · intro h
    cases token <;> cases h <;> rfl

theorem append_of_scanWord {word text rest : List Char} (h : scanWord word text = .ok rest) :
    text = word ++ rest := by
  induction word generalizing text with
  | nil =>
    cases h
    rfl
  | cons w word ih =>
    cases text with
    | nil => cases h
    | cons c text =>
      rw [scanWord] at h
      split at h
      next hc => rw [hc, ih h, List.cons_append]
      next => cases h

/-- `Cuts text scanned`: the scanned token is faulty or it is cut from a lexeme at the start of the
text, and what remains follows that. -/
def Cuts (text : List Char) (scanned : Token × List Char) : Prop :=
  scanned.1.IsFaulty ∨ ∃ word, text = word ++ scanned.2 ∧ Lexeme word scanned.1

theorem cuts_ofWord {c : Char} {word : List Char} {token : Token} (h : Lexeme (c :: word) token)
    (text : List Char) : Cuts (c :: text) (ofWord token (scanWord word text)) := by
  cases hscan : scanWord word text with
  | error e => exact Or.inl trivial
  | ok rest =>
    rw [append_of_scanWord hscan]
    exact Or.inr ⟨c :: word, rfl, h⟩

theorem cuts_string (text : List Char) : Cuts ('"' :: text)
    (ofScan .string (fun body => .string (String.ofList body)) (Quoted.scanBody text)) := by
  cases hscan : Quoted.scanBody text with
  | error e => exact Or.inl trivial
  | ok scanned =>
    obtain ⟨content, rest⟩ := scanned
    obtain ⟨body, rfl, hbody⟩ := Quoted.spells_of_scanBody hscan
    exact Or.inr ⟨'"' :: (body ++ ['"']), by simp [ofScan], .scalar rfl (.string (.mk hbody))⟩

theorem cuts_number (text : List Char) :
    Cuts text (ofScan .scalar .number (Numeral.scan text)) := by
  cases hscan : Numeral.scan text with
  | error e => exact Or.inl trivial
  | ok scanned =>
    obtain ⟨number, rest⟩ := scanned
    obtain ⟨word, n, rfl, hword, hnumber⟩ := Numeral.spells_of_scan hscan
    exact Or.inr ⟨word, rfl, .scalar rfl (.number hword hnumber)⟩

/-- **A token that is not faulty is cut from its lexeme.** -/
theorem cuts_scan (c : Char) (rest : List Char) : Cuts (c :: rest) (scan c rest) := by
  unfold scan
  split
  next token htoken => exact Or.inr ⟨[c], rfl, .mark (punctuation?_eq_some_iff.mp htoken)⟩
  next =>
    split
    next hc => exact hc ▸ cuts_ofWord (.scalar rfl .null) rest
    split
    next hc => exact hc ▸ cuts_ofWord (.scalar rfl .true) rest
    split
    next hc => exact hc ▸ cuts_ofWord (.scalar rfl .false) rest
    split
    next hc => exact hc ▸ cuts_string rest
    split
    next => exact cuts_number (c :: rest)
    next => exact Or.inl trivial

/-- The lexeme of the first token of a text, with the filler before it. -/
theorem exists_lexeme {text : List Char} {token : Token} {tokens : List Token}
    (h : ofChars text = token :: tokens) (hsound : ¬ token.IsFaulty) :
    ∃ gap word rest, Gap gap ∧ text = gap ++ (word ++ rest) ∧ Lexeme word token ∧
      ofChars rest = tokens := by
  cases hskip : Filler.skip .gap text with
  | error e =>
    rw [ofChars_of_skip_error hskip] at h
    cases h
    exact absurd trivial hsound
  | ok left =>
    cases left with
    | nil => cases (ofChars_of_skip_nil hskip).symm.trans h
    | cons c rest =>
      rcases Filler.skips_of_skip hskip with ⟨gap, hgap, rfl⟩ | ⟨-, hnil⟩
      · rw [ofChars_of_skip_cons hskip, List.cons.injEq] at h
        obtain ⟨rfl, rfl⟩ := h
        obtain ⟨word, hword, hlexeme⟩ := (cuts_scan c rest).resolve_left hsound
        exact ⟨gap, word, _, hgap, by rw [← hword], hlexeme, rfl⟩
      · cases hnil

/-- A punctuation token is cut from its mark. -/
theorem exists_mark {text : List Char} {c : Char} {token : Token} {tokens : List Token}
    (h : ofChars text = token :: tokens) (hmark : token.mark? = some c) :
    ∃ gap rest, Gap gap ∧ text = gap ++ c :: rest ∧ ofChars rest = tokens := by
  have hsound : ¬ token.IsFaulty := by cases token <;> first | exact id | cases hmark
  obtain ⟨gap, word, rest, hgap, rfl, hword, hrest⟩ := exists_lexeme h hsound
  cases hword with
  | mark hmark' =>
    cases hmark.symm.trans hmark'
    exact ⟨gap, rest, hgap, rfl, hrest⟩
  | scalar hvalue _ => cases (mark?_of_value? hvalue).symm.trans hmark

/-- A token that is a value by itself is cut from a value without parts. -/
theorem exists_scalar {text : List Char} {value : Value} {token : Token} {tokens : List Token}
    (h : ofChars text = token :: tokens) (hvalue : token.value? = some value) :
    ∃ gap word rest, Gap gap ∧ text = gap ++ (word ++ rest) ∧
      Value.Scalar Numeral.Denotes word value ∧ ofChars rest = tokens := by
  have hsound : ¬ token.IsFaulty := by cases token <;> first | exact id | cases hvalue
  obtain ⟨gap, word, rest, hgap, rfl, hword, hrest⟩ := exists_lexeme h hsound
  cases hword with
  | mark hmark => cases (mark?_of_value? hvalue).symm.trans hmark
  | scalar hvalue' hword =>
    cases hvalue.symm.trans hvalue'
    exact ⟨gap, word, rest, hgap, rfl, hword, hrest⟩

/-! ## §3 Tokens of lexemes -/

theorem ofChars_punctuation {c : Char} {token : Token} (h : punctuation? c = some token)
    (rest : List Char) : ofChars (c :: rest) = token :: ofChars rest := by
  -- No mark begins filler.
  have hbegins : Filler.isBlank c = false ∧ c ≠ '/' := by
    have hmark := punctuation?_eq_some_iff.mp h
    cases token <;> cases hmark <;> exact ⟨rfl, by decide⟩
  rw [ofChars_cons rest hbegins.1 hbegins.2, scan, h]

theorem ofChars_string {word : List Char} {text : String} (h : Value.SpellsString word text)
    (rest : List Char) : ofChars (word ++ rest) = .string text :: ofChars rest := by
  cases h with
  | @mk body text h =>
    have hbody : Quoted.scanBody (body ++ '"' :: rest) = .ok (text, rest) := h.scanBody_append rest
    have hscan : scan '"' (body ++ '"' :: rest) = (.string (String.ofList text), rest) := by
      rw [scan, show punctuation? '"' = none from rfl]
      simp only [hbody, ofScan]
      rfl
    simp only [List.cons_append, List.append_assoc, List.nil_append]
    rw [ofChars_cons _ rfl (by decide), hscan]

/-- Where a numeral stands, the first token is what is scanned as a number. -/
theorem ofChars_numeral {word : List Char} {n : Numeral} (h : Numeral.Spells word n)
    (rest : List Char) :
    let scanned := ofScan .scalar .number (Numeral.scan (word ++ rest))
    ofChars (word ++ rest) = scanned.1 :: ofChars scanned.2 := by
  intro scanned
  obtain ⟨c, others, rfl, hc⟩ := h.exists_head
  -- A sign or a digit begins neither filler nor any other token.
  have hne := Numeral.ne_of_begins hc
  have hblank : Filler.isBlank c = false := Numeral.isBlank_of_begins hc
  have hpunctuation : punctuation? c = none := by
    simp [punctuation?, hne '[' (by decide), hne ']' (by decide), hne '\x7b' (by decide),
      hne '\x7d' (by decide), hne ',' (by decide), hne ':' (by decide)]
  have htoken : scan c (others ++ rest) = scanned := by
    rw [scan, hpunctuation]
    simp only [hne 'n' (by decide), hne 't' (by decide), hne 'f' (by decide),
      hne '"' (by decide), if_false, hc, if_true]
    rfl
  rw [List.cons_append, ofChars_cons _ hblank (hne '/' (by decide)), htoken]

theorem ofChars_number {word : List Char} {n : Numeral} {number : Number}
    (h : Numeral.Spells word n) (hnumber : n.Denotes number) {rest : List Char}
    (hends : Numeral.Ends rest) : ofChars (word ++ rest) = .number number :: ofChars rest := by
  have hscan := h.scan_append hnumber hends
  rw [ofChars_numeral h rest, hscan]
  rfl

/-- A numeral beyond all numbers is a broken piece. -/
theorem exists_ofChars_eq_broken {word : List Char} {n : Numeral} (h : Numeral.Spells word n)
    (hnumber : ∀ number, ¬ n.Denotes number) {rest : List Char} (hends : Numeral.Ends rest) :
    ∃ place, ofChars (word ++ rest) = [.broken .scalar ⟨.numberOutOfRange, place⟩] := by
  obtain ⟨atExponent, hspelling⟩ := h.exists_scanSpelling hends
  cases heval : n.evaluate with
  | ok number => exact absurd heval (hnumber number)
  | error read =>
    have hscan : Numeral.scan (word ++ rest) =
        .error ⟨.numberOutOfRange, .before (atExponent.drop read)⟩ := by
      simp only [Numeral.scan, hspelling, heval]
    refine ⟨.before (atExponent.drop read), ?_⟩
    rw [ofChars_numeral h rest, hscan]
    exact congrArg (List.cons _) ofChars_nil

/-- **A lexeme makes its token**, if nothing continues it. -/
theorem exists_of_scalar {word : List Char} {value : Value}
    (h : Value.Scalar Numeral.Denotes word value) {rest : List Char} (hends : Numeral.Ends rest) :
    ∃ token, value? token = some value ∧ ofChars (word ++ rest) = token :: ofChars rest := by
  cases h with
  | null => exact ⟨.null, rfl, ofChars_cons _ rfl (by decide)⟩
  | true => exact ⟨.boolean true, rfl, ofChars_cons _ rfl (by decide)⟩
  | false => exact ⟨.boolean false, rfl, ofChars_cons _ rfl (by decide)⟩
  | @number _ _ number h hnumber => exact ⟨.number number, rfl, ofChars_number h hnumber hends⟩
  | @string _ text h => exact ⟨.string text, rfl, ofChars_string h rest⟩

end Token

/-! ## §4 Filler after a numeral -/

/-- Filler continues no numeral. -/
theorem Filler.Gap.ends {gap rest : List Char} (h : Gap gap) (hends : Numeral.Ends rest) :
    Numeral.Ends (gap ++ rest) := by
  cases h with
  | nil => exact hends
  | blank h _ =>
    simp only [List.mem_cons, List.not_mem_nil, or_false] at h
    rcases h with rfl | rfl | rfl | rfl <;> exact ⟨rfl, by decide, rfl⟩
  | line _ _ => exact ⟨rfl, by decide, rfl⟩
  | block _ _ _ => exact ⟨rfl, by decide, rfl⟩

theorem Filler.Trailing.ends {text : List Char} (h : Trailing text) : Numeral.Ends text := by
  cases h with
  | gap h =>
    have hends := h.ends (show Numeral.Ends [] from trivial)
    rwa [List.append_nil] at hends
  | line h _ => exact h.ends ⟨rfl, by decide, rfl⟩

end TypedSettings

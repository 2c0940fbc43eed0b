import Mathlib
import TypedSettings.Proofs.Document.Acceptance
import TypedSettings.Proofs.Document.RoundTrip

/-!
# Inserted comments

Filler that is put between two tokens of a text leaves its tokens as they are, and a block comment
is filler from its opener to the first closer after that, unless the text between the two starts
with a slash. Then the star of the opener and that slash are taken for the closer, and the rest of
the comment is read as part of the document.

Main facts:
- `Token.Boundary`: the places between tokens
- `Token.Boundary.ofChars_insert`: what is put there changes no other token
- `Filler.gap_blockComment`: which block comments are filler
- `Value.parse_insert_blockComment`: the document of a text with one more block comment
-/

namespace TypedSettings

open Filler (Gap)

/-! ## §1 Block comments -/

namespace Filler

/-- A block comment of this text. -/
def blockComment (body : List Char) : List Char := '/' :: '*' :: (body ++ closer)

/-- A comment that is its opener with a slash. -/
theorem gap_shortest : Gap ['/', '*', '/'] := @Gap.block [] [] rfl firstClosed_nil .nil

/-- A block comment whose text does not start with a slash is filler. -/
theorem gap_blockComment {body : List Char} (h : FirstClosed body)
    (hslash : body.head? ≠ some '/') : Gap (blockComment body) := by
  have hinner : FirstClosed ('*' :: body) := firstClosed_cons.mpr ⟨h, fun hstar => hslash hstar.2⟩
  have hgap : Gap ('/' :: ('*' :: body ++ closer ++ [])) := .block rfl hinner .nil
  rwa [List.append_nil] at hgap

/-- A slash after the opener ends the comment. -/
theorem blockComment_slash (more : List Char) :
    blockComment ('/' :: more) = ['/', '*', '/'] ++ (more ++ closer) := rfl

end Filler

open Filler (blockComment closer FirstClosed)

/-! ## §2 Token boundaries -/

namespace Token

/-- `Boundary before after`: the place between the two parts of a text is a token boundary. Before
it there are whole lexemes with filler before, between and after them; a numeral is whole if the
text does not continue it. A place inside a comment, such as the end of a line comment that lacks
its line feed, is no boundary. -/
inductive Boundary : List Char → List Char → Prop where
  | filler {gap after : List Char} (h : Gap gap) : Boundary gap after
  | lexeme {gap word before after : List Char} {token : Token} (hgap : Gap gap)
      (hword : Lexeme word token)
      (hwhole : ∀ n, token = .number n → Numeral.Ends (before ++ after))
      (more : Boundary before after) : Boundary (gap ++ (word ++ before)) after

/-- Whether a numeral ends depends on the first character after it. -/
theorem ends_append {before after rest : List Char} (h : Numeral.Ends (before ++ after))
    (hrest : Numeral.Ends rest) : Numeral.Ends (before ++ rest) := by
  cases before with
  | nil => exact hrest
  | cons c before => exact h

theorem lexeme_listOpen : Lexeme ['['] .listOpen := .mark rfl

/-- A whole lexeme makes its token. -/
theorem Lexeme.ofChars_append {word rest : List Char} {token : Token} (h : Lexeme word token)
    (hwhole : ∀ n, token = .number n → Numeral.Ends rest) :
    ofChars (word ++ rest) = token :: ofChars rest := by
  cases h with
  | mark hmark => exact ofChars_punctuation (punctuation?_eq_some_iff.mpr hmark) rest
  | scalar hvalue hword =>
    cases hword with
    | null =>
      cases token <;> cases hvalue
      exact ofChars_cons _ rfl (by decide)
    | true =>
      cases token <;> cases hvalue
      exact ofChars_cons _ rfl (by decide)
    | false =>
      cases token <;> cases hvalue
      exact ofChars_cons _ rfl (by decide)
    | number h hnumber =>
      cases token <;> cases hvalue
      exact ofChars_number h hnumber (hwhole _ rfl)
    | string h =>
      cases token <;> cases hvalue
      exact ofChars_string h rest

/-- **The tokens before a boundary** are the same whatever is put there, unless it continues a
numeral. -/
theorem Boundary.exists_tokens {before after : List Char} (h : Boundary before after) :
    ∃ tokens, ∀ rest, rest = after ∨ Numeral.Ends rest →
      ofChars (before ++ rest) = tokens ++ ofChars rest := by
  -- The induction is on the lexemes before the place, from the first one on.
  induction h with
  | filler hgap => exact ⟨[], fun rest _ => ofChars_gap hgap rest⟩
  | @lexeme gap word before after token hgap hword hwhole _ ih =>
    obtain ⟨tokens, htokens⟩ := ih
    refine ⟨token :: tokens, fun rest hrest => ?_⟩
    -- Only where the lexeme is the last one does it matter what is put after it.
    have hwhole' : ∀ n, token = .number n → Numeral.Ends (before ++ rest) := by
      intro n hn
      rcases hrest with rfl | hends
      · exact hwhole n hn
      · exact ends_append (hwhole n hn) hends
    rw [List.append_assoc, List.append_assoc, ofChars_gap hgap, hword.ofChars_append hwhole',
      htokens rest hrest, List.cons_append]

/-- Filler continues no numeral, whatever follows it. -/
theorem ends_gap {gap : List Char} (h : Gap gap) (hne : gap ≠ []) (rest : List Char) :
    Numeral.Ends (gap ++ rest) := by
  have hends := h.ends (show Numeral.Ends [] from trivial)
  cases gap with
  | nil => exact absurd rfl hne
  | cons c gap => exact hends

section

variable {before after gap : List Char}

/-- **Filler between tokens** makes no difference. -/
theorem Boundary.ofChars_insert (h : Boundary before after) (hgap : Gap gap) (hne : gap ≠ []) :
    ofChars (before ++ (gap ++ after)) = ofChars (before ++ after) := by
  obtain ⟨tokens, htokens⟩ := h.exists_tokens
  rw [htokens _ (.inr (ends_gap hgap hne after)), ofChars_gap hgap, htokens _ (.inl rfl)]

/-- Which filler it is makes no difference either, also if more is put there with it. -/
theorem Boundary.ofChars_congr (h : Boundary before after) (hgap : Gap gap) (hne : gap ≠ [])
    {other : List Char} (hother : Gap other) (hne' : other ≠ []) (rest : List Char) :
    ofChars (before ++ (gap ++ rest)) = ofChars (before ++ (other ++ rest)) := by
  obtain ⟨tokens, htokens⟩ := h.exists_tokens
  rw [htokens _ (.inr (ends_gap hgap hne rest)), htokens _ (.inr (ends_gap hother hne' rest)),
    ofChars_gap hgap, ofChars_gap hother]

end

end Token

open Token (Boundary ofChars)

/-! ## §3 Texts with one more comment -/

namespace Value

/-- The byte-order mark that a text starts with, if it has one. -/
def byteOrderMark : List Char → List Char
  | '\ufeff' :: _ => ['\ufeff']
  | _ => []

/-- The text of which the two parts after the byte-order mark are taken apart by a piece. -/
def insertAt (text : String) (before piece after : List Char) : String :=
  String.ofList (byteOrderMark text.toList ++ (before ++ (piece ++ after)))

/-- A piece is put after the byte-order mark, and is none itself. -/
theorem dropByteOrderMark_insertAt {text : String} {before piece after : List Char}
    (hsplit : dropByteOrderMark text.toList = before ++ after)
    (hpiece : ∃ c rest, piece = c :: rest ∧ c ≠ '\ufeff') :
    dropByteOrderMark (insertAt text before piece after).toList = before ++ (piece ++ after) := by
  obtain ⟨c, rest, rfl, hc⟩ := hpiece
  rw [insertAt, String.toList_ofList]
  cases hchars : text.toList with
  | nil =>
    rw [hchars] at hsplit
    obtain ⟨rfl, rfl⟩ := List.append_eq_nil_iff.mp hsplit.symm
    exact dropByteOrderMark_cons hc _
  | cons first others =>
    by_cases hmark : first = '\ufeff'
    · subst hmark
      rfl
    · have hnone : byteOrderMark (first :: others) = [] := by
        unfold byteOrderMark
        split
        next heq => exact absurd (List.cons.inj heq).1 hmark
        next => rfl
      rw [hchars, dropByteOrderMark_cons hmark] at hsplit
      rw [hnone, List.nil_append]
      -- The text now starts as it did, or with the piece.
      cases before with
      | nil => exact dropByteOrderMark_cons hc _
      | cons b before => exact dropByteOrderMark_cons ((List.cons.inj hsplit).1 ▸ hmark) _

/-- What a text with a piece in it is read as depends on its tokens alone. -/
theorem parse_insertAt_iff {text : String} {before piece after : List Char} {value : Value}
    (hsplit : dropByteOrderMark text.toList = before ++ after)
    (hpiece : ∃ c rest, piece = c :: rest ∧ c ≠ '\ufeff') :
    parse (insertAt text before piece after) = .ok value ↔
      Derives depthLimit (ofChars (before ++ (piece ++ after))) value [] := by
  rw [parse_eq_ok_iff, dropByteOrderMark_insertAt hsplit hpiece, ofChars]

/-- **A block comment between two tokens is skipped**, whatever the text and wherever the place,
unless the text of the comment starts with a slash. Such a slash ends the comment, so what comes
after it, down to the closer, is read as part of the document. -/
theorem parse_insert_blockComment {text : String} {before after body : List Char}
    (hsplit : dropByteOrderMark text.toList = before ++ after) (hboundary : Boundary before after)
    (hbody : FirstClosed body) :
    (body.head? ≠ some '/' → ∀ value,
      parse (insertAt text before (blockComment body) after) = .ok value ↔
        parse text = .ok value) ∧
    (∀ more, body = '/' :: more → ∀ value,
      parse (insertAt text before (blockComment body) after) = .ok value ↔
        parse (insertAt text before (' ' :: (more ++ closer)) after) = .ok value) := by
  have hslash : ∃ c rest, blockComment body = c :: rest ∧ c ≠ '\ufeff' := ⟨'/', _, rfl, by decide⟩
  refine ⟨fun hopen value => ?_, ?_⟩
  · have htokens : ofChars (before ++ (blockComment body ++ after)) = ofChars (before ++ after) :=
      hboundary.ofChars_insert (Filler.gap_blockComment hbody hopen) (List.cons_ne_nil _ _)
    rw [parse_insertAt_iff hsplit hslash, htokens, parse_eq_ok_iff, hsplit, ofChars]
  · rintro more rfl value
    -- The shortest comment is filler like a blank; what is left of the other one stands after it.
    have hblank : Gap [' '] := .blank (by decide) .nil
    have htokens := hboundary.ofChars_congr Filler.gap_shortest (List.cons_ne_nil _ _) hblank
      (List.cons_ne_nil _ _) (more ++ closer ++ after)
    rw [parse_insertAt_iff hsplit hslash, parse_insertAt_iff hsplit ⟨' ', _, rfl, by decide⟩,
      Filler.blockComment_slash, List.append_assoc, htokens]
    rfl

/-- Stars, an opener and a slash in a comment that stands directly after a numeral. -/
theorem parse_insert_blockComment_stars :
    let text := "\ufeff[1]"
    let body := "*** /* // **".toList
    dropByteOrderMark text.toList = ['[', '1'] ++ [']'] ∧ Boundary ['[', '1'] [']'] ∧
      FirstClosed body ∧ body.head? ≠ some '/' ∧
      insertAt text ['[', '1'] (blockComment body) [']'] = "\ufeff[1/**** /* // ***/]" ∧
      ∀ value, parse "\ufeff[1/**** /* // ***/]" = .ok value ↔ parse text = .ok value := by
  intro text body
  have hsplit : dropByteOrderMark text.toList = ['[', '1'] ++ [']'] := by decide
  have hnumeral : Numeral.Spells ['1'] ⟨false, ['1'], [], none⟩ := by
    have hwhole : Digits.Whole ['1'] := ⟨List.cons_ne_nil _ _, List.all_eq_true.mp rfl, by simp⟩
    have hspelled : Numeral.Spells (Numeral.signed false ['1']) ⟨false, ['1'], [], none⟩ :=
      Numeral.spells_whole hwhole
    exact hspelled
  have hone : Token.Lexeme ['1'] (.number (.integer 1)) := .scalar rfl (.number hnumeral rfl)
  have hafterOne : Boundary ([] ++ (['1'] ++ [])) [']'] :=
    .lexeme .nil hone (fun _ _ => ⟨rfl, by decide, rfl⟩) (.filler .nil)
  have hboundary : Boundary ([] ++ (['['] ++ ['1'])) [']'] :=
    .lexeme .nil Token.lexeme_listOpen (fun _ h => by cases h) hafterOne
  have hbody : FirstClosed body := by
    simp [body, Filler.firstClosed_cons, Filler.firstClosed_nil]
  have hslash : body.head? ≠ some '/' := by decide
  have hinsert : insertAt text ['[', '1'] (blockComment body) [']'] =
      "\ufeff[1/**** /* // ***/]" := by decide
  refine ⟨hsplit, hboundary, hbody, hslash, hinsert, ?_⟩
  rw [← hinsert]
  exact (parse_insert_blockComment hsplit hboundary hbody).1 hslash

/-- A comment that starts with a slash is not skipped: it is refused, or a part of it is read. -/
theorem slash_opened_comment_not_skipped :
    Boundary ['['] ['2', ']'] ∧ parse "[2]" = .ok (.array [.number (.integer 2)]) ∧
      (FirstClosed ['/'] ∧ insertAt "[2]" ['['] (blockComment ['/']) ['2', ']'] = "[/*/*/2]" ∧
        ∀ value, parse "[/*/*/2]" ≠ .ok value) ∧
      (FirstClosed "/1,/*".toList ∧
        insertAt "[2]" ['['] (blockComment "/1,/*".toList) ['2', ']'] = "[/*/1,/**/2]" ∧
        parse "[/*/1,/**/2]" = .ok (.array [.number (.integer 1), .number (.integer 2)])) := by
  refine ⟨?_, by cbv, ⟨?_, by decide, fun value h => ?_⟩, ?_, by decide, by cbv⟩
  · have hopen : Boundary ([] ++ (['['] ++ [])) ['2', ']'] :=
      .lexeme .nil Token.lexeme_listOpen (fun _ h => by cases h) (.filler .nil)
    exact hopen
  · simp [Filler.firstClosed_cons, Filler.firstClosed_nil]
  · have hrefused : parse "[/*/*/2]" = .error ⟨.expectedValue, ⟨1, 5⟩⟩ := by cbv
    cases hrefused.symm.trans h
  · simp [Filler.firstClosed_cons, Filler.firstClosed_nil]

end Value

end TypedSettings

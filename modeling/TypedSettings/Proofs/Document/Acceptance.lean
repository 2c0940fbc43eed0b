import Mathlib
import TypedSettings.Proofs.Document.Derivation
import TypedSettings.Proofs.Document.Lexeme

/-!
# Texts that are accepted

A text is read as a document exactly if the grammar makes it one. Tokens and grammar go level by
level: what derives a value from the tokens of a text spells the value at the start of the text, and
a spelled value is derived from the tokens of any text that starts with it.

Main facts:
- `Value.locates_spells`: what is derived is spelled
- `Value.reads_spells`: what is spelled is derived
- `Value.parse_eq_ok_iff_document`: the texts that are accepted
-/

namespace TypedSettings

namespace Value

open Filler (Gap Trailing)
open Numeral (Denotes Ends)
open Token (ofChars)

/-! ## §1 What is spelled is derived -/

section

variable {α : Type} {Word : List Char → α → Prop} {Element : List Token → α → List Token → Prop}

/-- What is spelled as a word is derived from the tokens of every text that starts with the word,
unless the text continues it. -/
def Reads (Word : List Char → α → Prop) (Element : List Token → α → List Token → Prop) : Prop :=
  ∀ ⦃word : List Char⦄ ⦃x : α⦄, Word word x → ∀ ⦃rest : List Char⦄, Ends rest →
    Element (ofChars (word ++ rest)) x (ofChars rest)

theorem Reads.padded (reads : Reads Word Element) : Reads (Padded Word) Element := by
  intro text x h rest hends
  cases h with
  | mk hbefore hword hafter =>
    have hread := reads hword (hafter.ends hends)
    rw [Token.ofChars_gap hafter] at hread
    simpa only [List.append_assoc, Token.ofChars_gap hbefore] using hread

theorem ofChars_comma (rest : List Char) : ofChars (',' :: rest) = .comma :: ofChars rest :=
  Token.ofChars_punctuation (c := ',') rfl rest

/-- Elements are derived one after the other; what the last one takes decides how the list ends. -/
theorem Reads.separated (reads : Reads Word Element) {close : Token} {text : List Char}
    {xs : List α} (h : Separated Word text xs) {tail : List Char} {rest : List Token}
    (hends : Ends tail) (hlast : ∀ {tokens : List Token} {x : α},
      Element tokens x (ofChars tail) → TokenList Element close tokens [x] rest) :
    TokenList Element close (ofChars (text ++ tail)) xs rest := by
  induction h with
  | single h => exact hlast (reads h hends)
  | @cons text others x xs h _ ih =>
    have hfirst := reads h (show Ends (',' :: (others ++ tail)) from ⟨rfl, by decide, rfl⟩)
    rw [ofChars_comma] at hfirst
    rw [List.append_assoc]
    exact .more hfirst ih

/-- A list is derived up to its closing bracket. -/
theorem Reads.listed (reads : Reads Word Element) {c : Char} {close : Token}
    (hclose : Token.punctuation? c = some close) (hends : ∀ rest, Ends (c :: rest))
    {text : List Char} {xs : List α} (h : Listed Word text xs) (rest : List Char) :
    TokenList Element close (ofChars (text ++ c :: rest)) xs (ofChars rest) := by
  have htokens := Token.ofChars_punctuation hclose rest
  cases h with
  | none hgap =>
    rw [Token.ofChars_gap hgap, htokens]
    exact .close
  | some h =>
    refine reads.separated h (hends rest) fun hfirst => .last ?_
    rwa [htokens] at hfirst
  | @trailing text gap _ h hgap =>
    rw [List.append_assoc, List.cons_append]
    refine reads.separated h ⟨rfl, by decide, rfl⟩ fun hfirst => ?_
    rw [ofChars_comma, Token.ofChars_gap hgap, htokens] at hfirst
    exact .more hfirst .close

end

/-- A member is read as its key, a colon and the tokens of its value. -/
theorem exists_of_member {Inner : List Char → Value → Prop} {text : List Char}
    {member : String × Value} (h : Member Inner text member) (rest : List Char) :
    ∃ word, Inner word member.2 ∧
      ofChars (text ++ rest) = .string member.1 :: .colon :: ofChars (word ++ rest) := by
  cases h with
  | @mk keyWord before after word key value hkey hbefore hafter hvalue =>
    refine ⟨word, hvalue, ?_⟩
    simp only [List.append_assoc, List.cons_append]
    rw [Token.ofChars_string hkey, Token.ofChars_gap hbefore,
      Token.ofChars_punctuation (c := ':') rfl, Token.ofChars_gap hafter]

theorem Reads.member {Inner : List Char → Value → Prop} {depth : Nat}
    (reads : Reads Inner (Derives depth)) : Reads (Member Inner) (DerivesMember depth) := by
  intro text member h rest hends
  obtain ⟨word, hvalue, htokens⟩ := exists_of_member h rest
  rw [htokens]
  exact .mk (reads hvalue hends)

theorem reads_scalar {depth : Nat} : Reads (Scalar Denotes) (Derives depth) := by
  intro word value h rest hends
  obtain ⟨token, hvalue, htokens⟩ := Token.exists_of_scalar h hends
  rw [htokens]
  cases token <;> cases hvalue
  · exact .null
  · exact .boolean _
  · exact .number _
  · exact .string _

theorem Reads.nested {Inner : List Char → Value → Prop} {depth : Nat}
    (reads : Reads Inner (Derives depth)) : Reads (Nested Inner) (Derives (depth + 1)) := by
  intro word value h rest _
  cases h with
  | array h =>
    have hlist := reads.padded.listed (c := ']') rfl (fun _ => ⟨rfl, by decide, rfl⟩) h rest
    rw [List.cons_append, List.append_assoc, Token.ofChars_punctuation (c := '[') rfl]
    exact .array hlist.derivesItems
  | object h hfields =>
    have hlist := reads.member.padded.listed (c := '\x7d') rfl
      (fun _ => ⟨rfl, by decide, rfl⟩) h rest
    rw [List.cons_append, List.append_assoc, Token.ofChars_punctuation (c := '\x7b') rfl,
      OrderedMap.collects_iff.mp hfields]
    exact .object hlist.derivesMembers

/-- **What is spelled is derived**, by induction on the depth. -/
theorem reads_spells (depth : Nat) : Reads (Spells Denotes depth) (Derives depth) := by
  induction depth with
  | zero => exact reads_scalar
  | succ depth ih =>
    intro word value h rest hends
    rcases h with hscalar | hnested
    · exact reads_scalar hscalar hends
    · exact ih.nested hnested hends

/-! ## §2 What is derived is spelled -/

section

variable {α : Type} {Word : List Char → α → Prop} {Element : List Token → α → List Token → Prop}

/-- What is derived from the tokens of a text is spelled as a word at the start of the text, after
filler. -/
def Locates (Word : List Char → α → Prop) (Element : List Token → α → List Token → Prop) : Prop :=
  ∀ ⦃text : List Char⦄ ⦃x : α⦄ ⦃rest : List Token⦄, Element (ofChars text) x rest →
    ∃ gap word left, Gap gap ∧ text = gap ++ (word ++ left) ∧ Word word x ∧ ofChars left = rest

/-- An element before a punctuation token is spelled with the filler up to that. -/
theorem Locates.exists_padded (locates : Locates Word Element) {text : List Char} {x : α}
    {c : Char} {token : Token} {rest : List Token} (h : Element (ofChars text) x (token :: rest))
    (hmark : token.mark? = some c) :
    ∃ word left, text = word ++ c :: left ∧ Padded Word word x ∧ ofChars left = rest := by
  obtain ⟨gap, word, left, hgap, rfl, hword, hleft⟩ := locates h
  obtain ⟨after, left, hafter, rfl, hrest⟩ := Token.exists_mark hleft hmark
  exact ⟨gap ++ (word ++ after), left, by simp, .mk hgap hword hafter, hrest⟩

/-- A list of tokens is spelled up to its closing bracket. -/
theorem Locates.listed (locates : Locates Word Element) {c : Char} {close : Token}
    (hclose : close.mark? = some c) {tokens rest : List Token} {xs : List α}
    (h : TokenList Element close tokens xs rest) {text : List Char}
    (htext : ofChars text = tokens) :
    ∃ inner left, text = inner ++ c :: left ∧ Listed (Padded Word) inner xs ∧
      ofChars left = rest := by
  induction h generalizing text with
  | close =>
    obtain ⟨gap, left, hgap, rfl, hleft⟩ := Token.exists_mark htext hclose
    exact ⟨gap, left, rfl, .none hgap, hleft⟩
  | last first =>
    subst htext
    obtain ⟨word, left, rfl, hword, hleft⟩ := locates.exists_padded first hclose
    exact ⟨word, left, rfl, .some (.single hword), hleft⟩
  | more first _ ih =>
    subst htext
    obtain ⟨word, middle, rfl, hword, hmiddle⟩ := locates.exists_padded (c := ',') first rfl
    obtain ⟨inner, left, rfl, hinner, hleft⟩ := ih hmiddle
    exact ⟨word ++ ',' :: inner, left, by simp, hinner.cons hword, hleft⟩

end

theorem Locates.member {Inner : List Char → Value → Prop} {depth : Nat}
    (locates : Locates Inner (Derives depth)) : Locates (Member Inner) (DerivesMember depth) := by
  intro text member rest h
  generalize htext : ofChars text = tokens at h
  cases h with
  | mk hvalue =>
    obtain ⟨gap, keyWord, left, hgap, rfl, hkey, hcolon⟩ := Token.exists_scalar htext rfl
    obtain ⟨before, left, hbefore, rfl, rfl⟩ := Token.exists_mark hcolon rfl
    obtain ⟨after, word, left, hafter, rfl, hword, hrest⟩ := locates hvalue
    cases hkey with
    | string hkey =>
      exact ⟨gap, keyWord ++ (before ++ ':' :: (after ++ word)), left, hgap, by simp,
        .mk hkey hbefore hafter hword, hrest⟩

theorem Spells.of_scalar {denotes : Numeral → Number → Prop} {depth : Nat} {word : List Char}
    {value : Value} (h : Scalar denotes word value) : Spells denotes depth word value := by
  cases depth with
  | zero => exact h
  | succ depth => exact Or.inl h

theorem locates_scalar {depth : Nat} {text : List Char} {value : Value} {token : Token}
    {rest : List Token} (h : ofChars text = token :: rest) (hvalue : token.value? = some value) :
    ∃ gap word left, Gap gap ∧ text = gap ++ (word ++ left) ∧ Spells Denotes depth word value ∧
      ofChars left = rest := by
  obtain ⟨gap, word, left, hgap, htext, hword, hleft⟩ := Token.exists_scalar h hvalue
  exact ⟨gap, word, left, hgap, htext, .of_scalar hword, hleft⟩

/-- One level: what lies between brackets is one level less deep. -/
theorem locates_level {depth : Nat} (locates : ∀ inner, depth = inner + 1 →
    Locates (Spells Denotes inner) (Derives inner)) :
    Locates (Spells Denotes depth) (Derives depth) := by
  intro text value rest h
  generalize htext : ofChars text = tokens at h
  cases h with
  | null => exact locates_scalar htext rfl
  | boolean b => exact locates_scalar htext rfl
  | number n => exact locates_scalar htext rfl
  | string text => exact locates_scalar htext rfl
  | array inner =>
    obtain ⟨gap, left, hgap, rfl, hopen⟩ := Token.exists_mark (c := '[') htext rfl
    obtain ⟨items, left, rfl, hitems, hrest⟩ :=
      (locates _ rfl).listed (c := ']') rfl inner.tokenList hopen
    exact ⟨gap, '[' :: (items ++ [']']), left, hgap, by simp, Or.inr (.array hitems), hrest⟩
  | object inner =>
    obtain ⟨gap, left, hgap, rfl, hopen⟩ := Token.exists_mark (c := '\x7b') htext rfl
    obtain ⟨members, left, rfl, hmembers, hrest⟩ :=
      (locates _ rfl).member.listed (c := '\x7d') rfl inner.tokenList hopen
    exact ⟨gap, '\x7b' :: (members ++ ['\x7d']), left, hgap, by simp,
      Or.inr (.object hmembers (OrderedMap.collects_ofPairs _)), hrest⟩

/-- **What is derived is spelled**, by induction on the depth. -/
theorem locates_spells (depth : Nat) : Locates (Spells Denotes depth) (Derives depth) := by
  induction depth with
  | zero => exact locates_level nofun
  | succ depth ih =>
    refine locates_level fun inner h => ?_
    cases h
    exact ih

/-! ## §3 Whole texts -/

theorem derives_iff_enclosed {depth : Nat} {text : List Char} {value : Value} :
    Derives depth (ofChars text) value [] ↔ Enclosed Denotes depth text value := by
  constructor
  · intro h
    obtain ⟨before, word, after, hbefore, rfl, hword, hafter⟩ := locates_spells depth h
    exact .mk hbefore hword (Token.ofChars_eq_nil_iff.mp hafter)
  · rintro ⟨hbefore, hword, hafter⟩
    have hread := reads_spells depth hword hafter.ends
    rwa [Token.ofChars_eq_nil_iff.mpr hafter, ← Token.ofChars_gap hbefore] at hread

/-- No value starts with a byte-order mark. -/
theorem dropByteOrderMark_of_enclosed {depth : Nat} {text : List Char} {value : Value}
    (h : Enclosed Denotes depth text value) : dropByteOrderMark text = text := by
  unfold dropByteOrderMark
  split
  next rest =>
    have hderived := derives_iff_enclosed.mpr h
    have hstray : ofChars ('\ufeff' :: rest) = [.stray] := by
      rw [Token.ofChars_cons rest rfl (by decide)]
      exact congrArg (List.cons _) Token.ofChars_nil
    rw [hstray] at hderived
    cases hderived
  next => rfl

/-- **The accepted texts are the documents**: a text is read as a value exactly if the grammar makes
it a document of that value, where a numeral denotes the number it is evaluated to. -/
theorem parse_eq_ok_iff_document {text : String} {value : Value} :
    parse text = .ok value ↔ Document Denotes text.toList value := by
  rw [parse_eq_ok_iff, ← ofChars, derives_iff_enclosed]
  constructor
  · intro h
    unfold dropByteOrderMark at h
    split at h
    next rest heq =>
      rw [heq]
      exact .marked h
    next => exact .plain h
  · intro h
    generalize text.toList = chars at h
    cases h with
    | plain h => rwa [dropByteOrderMark_of_enclosed h]
    | marked h => exact h

/-- A numeral beyond all numbers is not accepted, so no way of giving every numeral a number makes
the accepted texts the documents. -/
theorem out_of_range_not_accepted :
    let n : Numeral := ⟨false, ['1'], [], some (false, ['4', '0', '0'])⟩
    Numeral.Spells "1e400".toList n ∧ (∀ value, parse "1e400" ≠ .ok value) ∧
      ¬ ∃ denotes : Numeral → Number → Prop, (∀ n, ∃ number, denotes n number) ∧
        ∀ text value, parse text = .ok value ↔ Document denotes text.toList value := by
  intro n
  have hwhole : Digits.Whole ['1'] := ⟨List.cons_ne_nil _ _, List.all_eq_true.mp rfl, by simp⟩
  have hpower : Numeral.SpellsExponent ('e' :: ([] ++ ['4', '0', '0'])) n.exponent :=
    .digits (Or.inl rfl) .none ⟨List.cons_ne_nil _ _, List.all_eq_true.mp rfl⟩
  have hspelled : Numeral.Spells "1e400".toList n := by
    have h : Numeral.Spells (Numeral.signed false (['1'] ++ ([] ++ ['e', '4', '0', '0']))) n :=
      .mk hwhole .none hpower
    exact h
  have hrejected : ∀ value, parse "1e400" ≠ .ok value := by
    have herror : parse "1e400" = .error ⟨.numberOutOfRange, ⟨1, 5⟩⟩ := by cbv
    intro value hvalue
    cases herror.symm.trans hvalue
  refine ⟨hspelled, hrejected, ?_⟩
  rintro ⟨denotes, htotal, haccepted⟩
  obtain ⟨number, hnumber⟩ := htotal n
  have henclosed : Enclosed denotes 127 ([] ++ ("1e400".toList ++ [])) (.number number) :=
    .mk .nil (.of_scalar (.number hspelled hnumber)) (.gap .nil)
  rw [List.nil_append, List.append_nil] at henclosed
  exact hrejected _ ((haccepted _ _).mpr (.plain henclosed))

end Value

end TypedSettings

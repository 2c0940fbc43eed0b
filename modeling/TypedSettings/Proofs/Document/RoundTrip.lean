import Mathlib
import TypedSettings.Document.Printer
import TypedSettings.Proofs.Document.Lexeme
import TypedSettings.Proofs.Document.Regular

/-!
# Printed documents are read back

The compact form of a document is cut into the tokens of the document, and from these the document
can be derived. So it is read back exactly, if its numbers are integers of the two 64-bit forms, no
object repeats a key and it does not lie deeper than a reader goes.

Main facts:
- `Token.ofChars_compactChars`: the tokens of a printed document
- `Value.derives_tokens`: a regular document is derived from its tokens
- `Value.parse_compact`: the round trip
-/

namespace TypedSettings

/-! ## §1 Tokens of strings and integers -/

namespace Token

theorem ofChars_encode (text : String) (rest : List Char) :
    ofChars (Quoted.encode text ++ rest) = .string text :: ofChars rest := by
  have hspelled := Value.SpellsString.mk (Quoted.spells_encodeBody text.toList)
  rw [String.ofList_toList] at hspelled
  exact ofChars_string hspelled rest

theorem ofChars_toText {number : Number} (h : number.IsInteger) {rest : List Char}
    (hends : Numeral.Ends rest) :
    ofChars (number.toText ++ rest) = .number number :: ofChars rest := by
  obtain ⟨n, hspelled, hnumber⟩ := h.exists_spells_toText
  exact ofChars_number hspelled hnumber hends

end Token

namespace Value

/-! ## §2 Tokens of a document -/

/-- Every number in the document has an integer form. -/
inductive Integral : Value → Prop where
  | null : Integral .null
  | boolean (b : Bool) : Integral (.boolean b)
  | number {n : Number} (h : n.IsInteger) : Integral (.number n)
  | string (text : String) : Integral (.string text)
  | array {items : List Value} (h : ∀ item ∈ items, Integral item) : Integral (.array items)
  | object {members : List (String × Value)} (h : ∀ member ∈ members, Integral member.2) :
      Integral (.object members)

mutual

/-- The tokens of the compact form. -/
def tokens : Value → List Token
  | .null => [.null]
  | .boolean b => [.boolean b]
  | .number n => [.number n]
  | .string text => [.string text]
  | .array [] => [.listOpen, .listClose]
  | .array (item :: rest) => .listOpen :: (tokens item ++ itemTokens rest)
  | .object [] => [.objectOpen, .objectClose]
  | .object ((key, value) :: rest) =>
    .objectOpen :: .string key :: .colon :: (tokens value ++ memberTokens rest)

/-- The items after the first one, and the closing bracket. -/
def itemTokens : List Value → List Token
  | [] => [.listClose]
  | item :: rest => .comma :: (tokens item ++ itemTokens rest)

/-- The members after the first one, and the closing brace. -/
def memberTokens : List (String × Value) → List Token
  | [] => [.objectClose]
  | (key, value) :: rest => .comma :: .string key :: .colon :: (tokens value ++ memberTokens rest)

end

theorem ends_compactItems (items : List Value) (rest : List Char) :
    Numeral.Ends (compactItems items ++ rest) := by
  cases items with
  | nil => exact ⟨rfl, by decide, rfl⟩
  | cons item others => exact ⟨rfl, by decide, rfl⟩

theorem ends_compactMembers (members : List (String × Value)) (rest : List Char) :
    Numeral.Ends (compactMembers members ++ rest) := by
  cases members with
  | nil => exact ⟨rfl, by decide, rfl⟩
  | cons member others => exact ⟨rfl, by decide, rfl⟩

open Token (ofChars)

mutual

/-- **Printing and cutting**: the compact form is cut into the tokens of the document. -/
theorem ofChars_compactChars : ∀ {value : Value}, value.Integral → ∀ {rest : List Char},
    Numeral.Ends rest → ofChars (value.compactChars ++ rest) = value.tokens ++ ofChars rest
  | .null, _, rest, _ => Token.ofChars_cons _ rfl (by decide)
  | .boolean true, _, rest, _ => Token.ofChars_cons _ rfl (by decide)
  | .boolean false, _, rest, _ => Token.ofChars_cons _ rfl (by decide)
  | .number n, h, rest, hends => by
    cases h with
    | number h => exact Token.ofChars_toText h hends
  | .string text, _, rest, _ => Token.ofChars_encode text rest
  | .array [], _, rest, _ => by
    simp only [compactChars, tokens, List.cons_append, List.nil_append]
    rw [Token.ofChars_punctuation (c := '[') rfl, Token.ofChars_punctuation (c := ']') rfl]
  | .array (item :: others), h, rest, _ => by
    cases h with
    | array h =>
      obtain ⟨hitem, hothers⟩ := List.forall_mem_cons.mp h
      simp only [compactChars, tokens, List.cons_append, List.append_assoc]
      rw [Token.ofChars_punctuation (c := '[') rfl,
        ofChars_compactChars hitem (ends_compactItems others rest), ofChars_compactItems hothers]
  | .object [], _, rest, _ => by
    simp only [compactChars, tokens, List.cons_append, List.nil_append]
    rw [Token.ofChars_punctuation (c := '\x7b') rfl, Token.ofChars_punctuation (c := '\x7d') rfl]
  | .object ((key, value) :: others), h, rest, _ => by
    cases h with
    | object h =>
      obtain ⟨hvalue, hothers⟩ := List.forall_mem_cons.mp h
      simp only [compactChars, tokens, List.cons_append, List.append_assoc]
      rw [Token.ofChars_punctuation (c := '\x7b') rfl, Token.ofChars_encode,
        Token.ofChars_punctuation (c := ':') rfl,
        ofChars_compactChars hvalue (ends_compactMembers others rest),
        ofChars_compactMembers hothers]

theorem ofChars_compactItems : ∀ {items : List Value}, (∀ item ∈ items, item.Integral) →
    ∀ {rest : List Char}, ofChars (compactItems items ++ rest) = itemTokens items ++ ofChars rest
  | [], _, rest => Token.ofChars_punctuation (c := ']') rfl rest
  | item :: others, h, rest => by
    obtain ⟨hitem, hothers⟩ := List.forall_mem_cons.mp h
    simp only [compactItems, itemTokens, List.cons_append, List.append_assoc]
    rw [Token.ofChars_punctuation (c := ',') rfl,
      ofChars_compactChars hitem (ends_compactItems others rest), ofChars_compactItems hothers]

theorem ofChars_compactMembers : ∀ {members : List (String × Value)},
    (∀ member ∈ members, member.2.Integral) → ∀ {rest : List Char},
    ofChars (compactMembers members ++ rest) = memberTokens members ++ ofChars rest
  | [], _, rest => Token.ofChars_punctuation (c := '\x7d') rfl rest
  | (key, value) :: others, h, rest => by
    obtain ⟨hvalue, hothers⟩ := List.forall_mem_cons.mp h
    simp only [compactMembers, memberTokens, List.cons_append, List.append_assoc]
    rw [Token.ofChars_punctuation (c := ',') rfl, Token.ofChars_encode,
      Token.ofChars_punctuation (c := ':') rfl,
      ofChars_compactChars hvalue (ends_compactMembers others rest),
      ofChars_compactMembers hothers]

end

/-! ## §3 Derivations from tokens -/

mutual

/-- **Tokens and deriving**: a regular document is derived from its own tokens. -/
theorem derives_tokens {depth : Nat} : ∀ {value : Value}, Regular depth value →
    ∀ rest : List Token, Derives depth (value.tokens ++ rest) value rest
  | .null, _, _ => .null
  | .boolean b, _, _ => .boolean b
  | .number n, _, _ => .number n
  | .string text, _, _ => .string text
  | .array [], h, rest => by
    obtain ⟨inner, rfl, -⟩ := h.of_array
    exact .array .close
  | .array (item :: others), h, rest => by
    obtain ⟨inner, rfl, hitems⟩ := h.of_array
    obtain ⟨hitem, hothers⟩ := List.forall_mem_cons.mp hitems
    rw [tokens, List.cons_append, List.append_assoc]
    exact .array (derivesItems_tokens hothers (derives_tokens hitem) rest)
  | .object [], h, rest => by
    obtain ⟨inner, rfl, -⟩ := h.of_object
    exact .object .close
  | .object ((key, value) :: others), h, rest => by
    obtain ⟨inner, rfl, hmembers⟩ := h.of_object
    obtain ⟨hvalue, hothers⟩ := List.forall_mem_cons.mp hmembers
    have hderived := derivesMembers_tokens hothers key (derives_tokens hvalue) rest
    -- Keys are distinct, so no member overwrites another one.
    have hmap : OrderedMap.ofPairs ((key, value) :: others) = (key, value) :: others :=
      OrderedMap.ofPairs_eq_self h.uniqueKeys.keys_nodup
    rw [tokens]
    simp only [List.cons_append, List.append_assoc]
    exact hmap ▸ Derives.object hderived

/-- Items are derived if the first one is and the others are regular. -/
theorem derivesItems_tokens {depth : Nat} : ∀ {others : List Value},
    (∀ item ∈ others, Regular depth item) → ∀ {first : Value} {firstTokens : List Token},
    (∀ rest, Derives depth (firstTokens ++ rest) first rest) → ∀ rest : List Token,
    DerivesItems depth (firstTokens ++ (itemTokens others ++ rest)) (first :: others) rest
  | [], _, _, _, hfirst, rest => .last (hfirst _)
  | second :: others, h, _, _, hfirst, rest => by
    obtain ⟨hsecond, hothers⟩ := List.forall_mem_cons.mp h
    have hmore := derivesItems_tokens hothers (derives_tokens hsecond) rest
    rw [itemTokens, List.cons_append, List.append_assoc]
    exact .more (hfirst _) hmore

theorem derivesMembers_tokens {depth : Nat} : ∀ {others : List (String × Value)},
    (∀ member ∈ others, Regular depth member.2) → ∀ (key : String) {first : Value}
    {firstTokens : List Token},
    (∀ rest, Derives depth (firstTokens ++ rest) first rest) → ∀ rest : List Token,
    DerivesMembers depth
      (.string key :: .colon :: (firstTokens ++ (memberTokens others ++ rest)))
      ((key, first) :: others) rest
  | [], _, _, _, _, hfirst, rest => .last (hfirst _)
  | (secondKey, second) :: others, h, _, _, _, hfirst, rest => by
    obtain ⟨hsecond, hothers⟩ := List.forall_mem_cons.mp h
    have hmore := derivesMembers_tokens hothers secondKey (derives_tokens hsecond) rest
    rw [memberTokens]
    simp only [List.cons_append, List.append_assoc]
    exact .more (hfirst _) hmore

end

/-! ## §4 Round trip -/

theorem dropByteOrderMark_cons {c : Char} (h : c ≠ '\ufeff') (rest : List Char) :
    dropByteOrderMark (c :: rest) = c :: rest := by
  unfold dropByteOrderMark
  split
  next heq => exact absurd (List.cons.inj heq).1 h
  next => rfl

/-- No compact form starts with a byte-order mark. -/
theorem dropByteOrderMark_compactChars {value : Value} (h : value.Integral) :
    dropByteOrderMark value.compactChars = value.compactChars := by
  cases h with
  | null => rfl
  | boolean b => cases b <;> rfl
  | number h =>
    obtain ⟨n, hspelled, -⟩ := h.exists_spells_toText
    obtain ⟨c, rest, htext, hc⟩ := hspelled.exists_head
    rw [compactChars, htext]
    refine dropByteOrderMark_cons ?_ rest
    rintro rfl
    exact absurd hc (by decide)
  | string text => rfl
  | @array items h => cases items <;> rfl
  | @object members h => cases members <;> rfl

/-- The tokens of a whole printed text. -/
theorem ofChars_compact {value : Value} (h : value.Integral) :
    ofChars (dropByteOrderMark value.compact.toList) = value.tokens := by
  have htokens : ofChars (value.compactChars ++ []) = value.tokens ++ ofChars [] :=
    ofChars_compactChars h trivial
  rw [List.append_nil, Token.ofChars_nil, List.append_nil] at htokens
  rw [compact, String.toList_ofList, dropByteOrderMark_compactChars h, htokens]

/-- **Printed documents are read back** exactly as they were. -/
theorem parse_compact {value : Value} (hregular : Regular depthLimit value)
    (hintegral : value.Integral) : parse value.compact = .ok value := by
  have hderived := derives_tokens hregular []
  rw [List.append_nil, ← ofChars_compact hintegral] at hderived
  exact parse_eq_ok_iff.mpr hderived

end Value

end TypedSettings

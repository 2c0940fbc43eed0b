import Mathlib
import TypedSettings.Proofs.Identifier

/-!
# Words

Generated code is written in words: keywords of the language, and names that are none. A key of
letters, digits, underscores, dots and dollar signs has such a name for its identifier, since every
keyword is escaped.

Main facts:
- `Identifier.strictKeywords`, `Identifier.reservedKeywords`: the keywords of the language, apart
  from the lists that escaping looks up
- `Identifier.IsPlainKey`: keys that are made of such characters
- `Identifier.IsWord`: names that a reader of code takes for one word
- `Identifier.IsPlainKey.isWord_ofKey`: the identifier of such a key is a word
-/

namespace TypedSettings.Identifier

/-! ## §1 Characters -/

/-- Letters, digits and underscores, which words start with. -/
def IsPlainChar (c : Char) : Prop := c.isAlphanum ∨ c = '_'

instance (c : Char) : Decidable (IsPlainChar c) := inferInstanceAs (Decidable (_ ∨ _))

/-- Characters of identifiers, the mark of raw ones included. -/
def IsWordChar (c : Char) : Prop := c.isAlphanum ∨ c = '_' ∨ c = '#'

instance (c : Char) : Decidable (IsWordChar c) := inferInstanceAs (Decidable (_ ∨ _ ∨ _))

theorem IsPlainChar.isWordChar {c : Char} (h : IsPlainChar c) : IsWordChar c := h.imp_right .inl

/-- No word goes on into the text. -/
def EndsWord (rest : String) : Prop := ∀ c ∈ rest.toList.head?, ¬ IsWordChar c

/-! ## §2 Keywords -/

/-- Keywords that the language uses, as of its edition of 2024. -/
def strictKeywords : List String :=
  ["as", "async", "await", "break", "const", "continue", "crate", "dyn", "else", "enum", "extern",
    "false", "fn", "for", "if", "impl", "in", "let", "loop", "match", "mod", "move", "mut", "pub",
    "ref", "return", "self", "Self", "static", "struct", "super", "trait", "true", "type", "unsafe",
    "use", "where", "while"]

/-- Keywords that the language keeps for later use, as of the same edition. -/
def reservedKeywords : List String :=
  ["abstract", "become", "box", "do", "final", "gen", "macro", "override", "priv", "try", "typeof",
    "unsized", "virtual", "yield"]

/-- Every keyword is escaped. -/
theorem mem_of_mem_keywords : ∀ word ∈ strictKeywords ++ reservedKeywords,
    word ∈ suffixed ∨ word ∈ keywords := by
  decide +kernel

theorem escape_notMem_strictKeywords (name : String) : escape name ∉ strictKeywords := by
  obtain ⟨hsuffixed, hkeywords⟩ := escape_notMem name
  intro hmem
  exact (mem_of_mem_keywords _ (List.mem_append_left _ hmem)).elim hsuffixed hkeywords

/-! ## §3 Names -/

/-- A key of ASCII letters, digits, underscores, dots and dollar signs. -/
def IsPlainKey (key : String) : Prop :=
  ∀ c ∈ key.toList, c.isAlphanum ∨ c = '_' ∨ c = '.' ∨ c = '$'

/-- A name that is one word and no keyword. -/
structure IsWord (name : String) : Prop where
  chars : ∀ c ∈ name.toList, IsWordChar c
  /-- The mark of raw identifiers does not come first. -/
  start : ∃ first rest, name.toList = first :: rest ∧ IsPlainChar first
  notMem_strictKeywords : name ∉ strictKeywords

/-- Dots and dollar signs are all that has to be replaced. -/
theorem IsPlainKey.isPlainChar_normalize {key : String} (h : IsPlainKey key) :
    ∀ c ∈ (normalize key).toList, IsPlainChar c := by
  intro c hc
  rw [normalize, String.toList_map] at hc
  obtain ⟨d, hd, rfl⟩ := List.mem_map.mp hc
  by_cases hreplaced : d = '.' ∨ d = '$'
  · rw [if_pos hreplaced]
    exact .inr rfl
  · rw [if_neg hreplaced]
    rcases h d hd with halphanum | hunderscore | hdot | hdollar
    · exact .inl halphanum
    · exact .inr hunderscore
    · exact absurd (.inl hdot) hreplaced
    · exact absurd (.inr hdollar) hreplaced

theorem IsPlainKey.isPlainChar_stem {key : String} (h : IsPlainKey key) :
    ∀ c ∈ (stem key).toList, IsPlainChar c := by
  unfold stem
  split_ifs with hempty
  · simp [IsPlainChar]
  · exact h.isPlainChar_normalize

/-- Escaping adds an underscore at the end or the mark of raw identifiers at the start. -/
theorem isWord_escape {name : String} (h : ∀ c ∈ name.toList, IsPlainChar c) (hne : name ≠ "") :
    IsWord (escape name) := by
  have hchars : ∀ c ∈ name.toList, IsWordChar c := fun c hc => (h c hc).isWordChar
  obtain ⟨first, rest, hname⟩ :=
    List.exists_cons_of_ne_nil (fun hnil => hne (String.toList_eq_nil_iff.mp hnil))
  have hfirst : IsPlainChar first := h first (by simp [hname])
  refine ⟨?_, ?_, escape_notMem_strictKeywords name⟩
  · unfold escape
    split_ifs
    · simpa [IsWordChar, or_imp, forall_and] using hchars
    · simpa [IsWordChar, or_imp, forall_and] using hchars
    · exact hchars
  · unfold escape
    split_ifs
    · exact ⟨first, rest ++ ['_'], by simp [hname], hfirst⟩
    · exact ⟨'r', '#' :: name.toList, by simp, by decide⟩
    · exact ⟨first, rest, hname, hfirst⟩

/-- **The identifier of a plain key is a word.** -/
theorem IsPlainKey.isWord_ofKey {key : String} (h : IsPlainKey key) : IsWord (ofKey key) := by
  rw [ofKey_eq_escape]
  exact isWord_escape h.isPlainChar_stem (stem_ne_empty key)

end TypedSettings.Identifier

import Mathlib
import TypedSettings.Proofs.Identifier.Words

/-!
# Legal names

What may stand as a name is said here by the words of the language that generated code is written
in, apart from the lists that escaping looks up. A key of letters, digits, underscores, dots and
dollar signs gives a legal identifier unless it starts with a digit, and any text whatever, taken as
the name of a program, gives legal names of modules.

Main facts:
- `Identifier.IsIdentifier`: names in plain and in raw spelling
- `Identifier.isIdentifier_escape`: escaping makes an identifier of every word
- `Identifier.isName_moduleName`: names of modules are never raw
- `Identifier.generated_names_legal`: the names of generated items
-/

namespace TypedSettings.Identifier

/-! ## §1 Words of the language -/

/-- A letter or an underscore, and after it letters, digits and underscores. -/
def HasWordShape (word : String) : Prop :=
  ∃ first rest, word.toList = first :: rest ∧ (first.isAlpha ∨ first = '_') ∧
    ∀ c ∈ rest, IsPlainChar c

/-- Words that have no raw spelling. -/
def neverRaw : List String := ["crate", "self", "Self", "super", "_"]

/-- A word that can be a name as it stands. -/
structure IsName (word : String) : Prop where
  shape : HasWordShape word
  ne_underscore : word ≠ "_"
  notMem_strictKeywords : word ∉ strictKeywords
  notMem_reservedKeywords : word ∉ reservedKeywords

theorem IsName.isWord {word : String} (h : IsName word) : IsWord word := by
  obtain ⟨first, rest, hword, hfirst, hrest⟩ := h.shape
  have hplain : IsPlainChar first := by
    rcases hfirst with halpha | hunderscore
    · exact .inl (by simp [Char.isAlphanum, halpha])
    · exact .inr hunderscore
  refine ⟨?_, ⟨first, rest, hword, hplain⟩, h.notMem_strictKeywords⟩
  rw [hword, List.forall_mem_cons]
  exact ⟨hplain.isWordChar, fun c hc => (hrest c hc).isWordChar⟩

/-- `IsIdentifier spelling`: a name as it stands, or the raw spelling of a word that has one. -/
inductive IsIdentifier : String → Prop where
  | plain {word : String} (name : IsName word) : IsIdentifier word
  | raw {word : String} (shape : HasWordShape word) (allowed : word ∉ neverRaw) :
      IsIdentifier ("r#" ++ word)

/-! ## §2 The shape of words -/

/-- Only the first character of a word is restricted further. -/
theorem hasWordShape_of_isPlainChar {name : String} (hchars : ∀ c ∈ name.toList, IsPlainChar c)
    (hne : name ≠ "") (hdigit : startsWithDigit name = false) : HasWordShape name := by
  rw [startsWithDigit] at hdigit
  cases hname : name.toList with
  | nil => exact absurd (String.toList_eq_nil_iff.mp hname) hne
  | cons first rest =>
    rw [hname] at hchars hdigit
    rw [List.forall_mem_cons] at hchars
    obtain ⟨hfirst, hrest⟩ := hchars
    refine ⟨first, rest, hname, ?_, hrest⟩
    rcases hfirst with halphanum | hunderscore
    · rw [Char.isAlphanum, Bool.or_eq_true] at halphanum
      exact .inl (halphanum.resolve_right (by simpa using hdigit))
    · exact .inr hunderscore

theorem HasWordShape.append {word suffix : String} (h : HasWordShape word)
    (hsuffix : ∀ c ∈ suffix.toList, IsPlainChar c) : HasWordShape (word ++ suffix) := by
  obtain ⟨first, rest, hword, hfirst, hrest⟩ := h
  refine ⟨first, rest ++ suffix.toList, by simp [hword], hfirst, ?_⟩
  exact List.forall_mem_append.mpr ⟨hrest, hsuffix⟩

theorem startsWithDigit_normalize (key : String) :
    startsWithDigit (normalize key) = startsWithDigit key := by
  rw [startsWithDigit, startsWithDigit, normalize, String.toList_map]
  cases key.toList with
  | nil => rfl
  | cons first rest =>
    -- Neither an underscore nor what it replaces is a digit.
    by_cases hreplaced : first = '.' ∨ first = '$'
    · rcases hreplaced with rfl | rfl <;> rfl
    · simp [hreplaced]

/-- What is escaped is a word. -/
theorem IsPlainKey.hasWordShape_stem {key : String} (h : IsPlainKey key)
    (hdigit : startsWithDigit key = false) : HasWordShape (stem key) := by
  unfold stem
  split_ifs with hempty
  · exact ⟨'_', [], by decide, .inr rfl, nofun⟩
  · exact hasWordShape_of_isPlainChar h.isPlainChar_normalize hempty
      ((startsWithDigit_normalize key).trans hdigit)

/-! ## §3 Identifiers -/

theorem isName_of_notMem {word : String} (h : HasWordShape word) (hsuffixed : word ∉ suffixed)
    (hkeywords : word ∉ keywords) : IsName word := by
  have hfree : word ∉ strictKeywords ++ reservedKeywords := fun hmem =>
    (mem_of_mem_keywords word hmem).elim hsuffixed hkeywords
  rw [List.mem_append, not_or] at hfree
  refine ⟨h, ?_, hfree.1, hfree.2⟩
  rintro rfl
  exact hsuffixed (by decide)

/-- **Escaping makes an identifier of every word.** -/
theorem isIdentifier_escape {word : String} (h : HasWordShape word) :
    IsIdentifier (escape word) := by
  obtain ⟨hsuffixed, hkeywords⟩ := escape_notMem word
  by_cases hraw : word ∉ suffixed ∧ word ∈ keywords
  · rw [escape, if_neg hraw.1, if_pos hraw.2]
    exact .raw h hraw.1
  · refine .plain (isName_of_notMem ?_ hsuffixed hkeywords)
    unfold escape
    split_ifs with hword hkeyword
    · exact h.append (by simp [IsPlainChar])
    · exact absurd ⟨hword, hkeyword⟩ hraw
    · exact h

/-! ## §4 Names of modules -/

theorem isPlainChar_moduleChar (c : Char) : IsPlainChar (moduleChar c) := by
  unfold moduleChar
  split_ifs with halphanum
  · left
    -- Only letters change, and they change to letters.
    by_cases hupper : c.isUpper
    · have halpha : c.isAlpha = true := by simp [Char.isAlpha, hupper]
      simp [Char.isAlphanum, halpha]
    · rwa [Char.toLower_eq_of_not_isUpper hupper]
  · exact .inr rfl

theorem isPlainChar_moduleName {program suffix : String}
    (hsuffix : ∀ c ∈ suffix.toList, IsPlainChar c) :
    ∀ c ∈ (moduleName program suffix).toList, IsPlainChar c := by
  have hlead : ∀ c ∈ (if startsWithDigit (program.map moduleChar) then "_" else "").toList,
      IsPlainChar c := by
    split_ifs <;> simp [IsPlainChar]
  have hprogram : ∀ c ∈ (program.map moduleChar).toList, IsPlainChar c := by
    rw [String.toList_map, List.forall_mem_map]
    exact fun c _ => isPlainChar_moduleChar c
  simp only [moduleName, String.toList_append, List.forall_mem_append]
  exact ⟨⟨⟨hlead, hprogram⟩, by simp [IsPlainChar]⟩, hsuffix⟩

/-- A digit at the start gets an underscore in front of it. -/
theorem startsWithDigit_moduleName (program suffix : String) :
    startsWithDigit (moduleName program suffix) = false := by
  rw [moduleName]
  generalize program.map moduleChar = name
  split_ifs with hdigit
  · simp [startsWithDigit]
  · rw [startsWithDigit] at hdigit ⊢
    cases hname : name.toList with
    | nil => simp [hname]
    | cons first rest =>
      rw [hname] at hdigit
      simpa [hname] using hdigit

/-- No keyword has an underscore. -/
theorem underscore_notMem_of_mem_keywords :
    ∀ word ∈ strictKeywords ++ reservedKeywords, '_' ∉ word.toList := by
  decide +kernel

/-- **The name of a module is a name as it stands**, whatever the name of the program is. -/
theorem isName_moduleName {program suffix : String} (hsuffix : ∀ c ∈ suffix.toList, IsPlainChar c)
    (hne : suffix ≠ "") : IsName (moduleName program suffix) := by
  have hunderscore : '_' ∈ (moduleName program suffix).toList := by simp [moduleName]
  have hlong : 1 < (moduleName program suffix).length := by
    have hpos : 0 < suffix.length := Nat.pos_of_ne_zero (by simpa using hne)
    have hone : "_".length = 1 := rfl
    simp only [moduleName, String.length_append, hone]
    omega
  have hfree : moduleName program suffix ∉ strictKeywords ++ reservedKeywords := fun hmem =>
    underscore_notMem_of_mem_keywords _ hmem hunderscore
  rw [List.mem_append, not_or] at hfree
  refine ⟨hasWordShape_of_isPlainChar (isPlainChar_moduleName hsuffix) ?_
    (startsWithDigit_moduleName program suffix), ?_, hfree.1, hfree.2⟩
  · rintro heq
    simp [heq] at hlong
  · intro heq
    rw [heq] at hlong
    exact absurd hlong (by decide)

theorem moduleName_inj {program first second : String} :
    moduleName program first = moduleName program second ↔ first = second := by
  simp [moduleName]

/-! ## §5 Generated names -/

/-- **Generated names are legal**: a key of letters, digits, underscores, dots and dollar signs that
does not start with a digit gives an identifier, and the two modules of a program have different
names, neither of them raw. -/
theorem generated_names_legal :
    (∀ key, IsPlainKey key → startsWithDigit key = false → IsIdentifier (ofKey key)) ∧
    (∀ program, IsName (moduleName program "settings") ∧
      IsName (moduleName program "internal_settings") ∧
      moduleName program "settings" ≠ moduleName program "internal_settings") := by
  refine ⟨fun key hkey hdigit => ?_, fun program => ⟨?_, ?_, ?_⟩⟩
  · rw [ofKey_eq_escape]
    exact isIdentifier_escape (hkey.hasWordShape_stem hdigit)
  · exact isName_moduleName (by simp [IsPlainChar]) (by decide)
  · exact isName_moduleName (by simp [IsPlainChar]) (by decide)
  · rw [Ne, moduleName_inj]
    decide

/-- Replacing characters can leave an underscore alone, and a keyword is written raw. -/
theorem generated_names_legal_replaced :
    IsPlainKey "$" ∧ startsWithDigit "$" = false ∧ IsIdentifier "__" ∧
      IsPlainKey "gen" ∧ startsWithDigit "gen" = false ∧ IsIdentifier "r#gen" := by
  have hdollar : IsPlainKey "$" := by simp [IsPlainKey]
  have hgen : IsPlainKey "gen" := by simp [IsPlainKey]
  have hlone : ofKey "$" = "__" := by decide +kernel
  have hraw : ofKey "gen" = "r#gen" := by decide +kernel
  exact ⟨hdollar, rfl, hlone ▸ generated_names_legal.1 "$" hdollar rfl,
    hgen, rfl, hraw ▸ generated_names_legal.1 "gen" hgen rfl⟩

end TypedSettings.Identifier

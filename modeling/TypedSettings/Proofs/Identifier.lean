import Mathlib
import TypedSettings.Identifier

/-!
# Stable identifiers

An identifier is a key that names itself: it has no characters left to replace, and neither raw
spelling nor an appended underscore makes a name that would have to be escaped again.

Main facts:
- `Identifier.normalize_normalize`: replacing characters twice is replacing them once
- `Identifier.ofKey_ofKey`: the identifier of an identifier
-/

namespace TypedSettings.Identifier

theorem normalize_normalize (key : String) : normalize (normalize key) = normalize key := by
  rw [normalize, normalize, String.map_map]
  congr 1
  funext c
  by_cases hc : c = '.' ∨ c = '$'
  · simp [hc]
  · simp [hc]

/-- What is escaped to an identifier: the normalized key, or an underscore in place of nothing. -/
def stem (key : String) : String :=
  if normalize key = "" then "_" else normalize key

theorem ofKey_eq_escape (key : String) : ofKey key = escape (stem key) := rfl

theorem normalize_stem (key : String) : normalize (stem key) = stem key := by
  unfold stem
  split
  next => decide +kernel
  next => exact normalize_normalize key

theorem stem_ne_empty (key : String) : stem key ≠ "" := by
  unfold stem
  split
  next => decide
  next h => exact h

theorem stem_of_normalize_eq {name : String} (hnormal : normalize name = name)
    (hne : name ≠ "") : stem name = name := by
  rw [stem, hnormal, if_neg hne]

theorem normalize_append (first second : String) :
    normalize (first ++ second) = normalize first ++ normalize second := by
  apply String.toList_injective
  simp [normalize]

theorem escape_eq_self {name : String} (hsuffixed : name ∉ suffixed) (hkeywords : name ∉ keywords) :
    escape name = name := by
  rw [escape, if_neg hsuffixed, if_neg hkeywords]

/-- No reserved name is spelled with a hash. -/
theorem hash_notMem_of_mem : ∀ word ∈ suffixed ++ keywords, '#' ∉ word.toList := by
  decide +kernel

theorem append_underscore_notMem :
    ∀ word ∈ suffixed, word ++ "_" ∉ suffixed ∧ word ++ "_" ∉ keywords := by
  decide +kernel

/-- What an escape leaves is not reserved any more. -/
theorem escape_notMem (name : String) : escape name ∉ suffixed ∧ escape name ∉ keywords := by
  by_cases hsuffixed : name ∈ suffixed
  · rw [escape, if_pos hsuffixed]
    exact append_underscore_notMem name hsuffixed
  · by_cases hkeyword : name ∈ keywords
    · have hhash : '#' ∈ ("r#" ++ name).toList := by simp
      rw [escape, if_neg hsuffixed, if_pos hkeyword]
      constructor
      · exact fun hmem => hash_notMem_of_mem _ (List.mem_append_left _ hmem) hhash
      · exact fun hmem => hash_notMem_of_mem _ (List.mem_append_right _ hmem) hhash
    · rw [escape_eq_self hsuffixed hkeyword]
      exact ⟨hsuffixed, hkeyword⟩

theorem normalize_escape {name : String} (h : normalize name = name) :
    normalize (escape name) = escape name := by
  have hunderscore : normalize "_" = "_" := by decide +kernel
  have hraw : normalize "r#" = "r#" := by decide +kernel
  unfold escape
  split
  next => rw [normalize_append, h, hunderscore]
  next =>
    split
    next => rw [normalize_append, h, hraw]
    next => exact h

theorem escape_ne_empty {name : String} (h : name ≠ "") : escape name ≠ "" := by
  unfold escape
  split
  next => simp
  next =>
    split
    next => simp
    next => exact h

/-- **Identifiers are stable**: the identifier of an identifier is the identifier itself. -/
theorem ofKey_ofKey (key : String) : ofKey (ofKey key) = ofKey key := by
  obtain ⟨hsuffixed, hkeywords⟩ := escape_notMem (stem key)
  have hnormal : normalize (escape (stem key)) = escape (stem key) :=
    normalize_escape (normalize_stem key)
  have hne : escape (stem key) ≠ "" := escape_ne_empty (stem_ne_empty key)
  rw [ofKey_eq_escape key, ofKey_eq_escape, stem_of_normalize_eq hnormal hne]
  exact escape_eq_self hsuffixed hkeywords

end TypedSettings.Identifier

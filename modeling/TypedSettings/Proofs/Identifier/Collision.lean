import Mathlib
import TypedSettings.Proofs.Identifier

/-!
# Keys that collide

Keys get the same identifier if they are the same once dots and dollar signs are replaced. Besides,
the spelling that an escape leaves can be a key itself, and the empty key counts as an underscore.
There is no other collision, since no escape leaves what another one does.

Main facts:
- `Identifier.Collide`: the names that get the same identifier
- `Identifier.escape_eq_escape_iff`: what an escape can meet
- `Identifier.ofKey_eq_ofKey_iff_collide`: the keys that collide
-/

namespace TypedSettings.Identifier

/-! ## §1 Collisions -/

/-- `Respelled word spelling`: a word other than the lone underscore is escaped to the spelling. -/
inductive Respelled : String → String → Prop where
  | suffixed {word : String} (reserved : word ∈ ["crate", "self", "Self", "super"]) :
      Respelled word (word ++ "_")
  | raw {word : String} (keyword : word ∈ keywords) : Respelled word ("r#" ++ word)

/-- Names that get the same identifier. -/
inductive Collide : String → String → Prop where
  | same {name : String} : Collide name name
  /-- What is left of keys without letters and digits, as long as it is short. -/
  | blank {first second : String} (hfirst : first ∈ ["", "_", "__"])
      (hsecond : second ∈ ["", "_", "__"]) : Collide first second
  | respelled {word spelling : String} (h : Respelled word spelling) : Collide word spelling
  | spelled {word spelling : String} (h : Respelled word spelling) : Collide spelling word

theorem Collide.symm {first second : String} (h : Collide first second) : Collide second first := by
  cases h with
  | same => exact .same
  | blank hfirst hsecond => exact .blank hsecond hfirst
  | respelled h => exact .spelled h
  | spelled h => exact .respelled h

/-! ## §2 Escapes -/

theorem escape_escape (name : String) : escape (escape name) = escape name := by
  obtain ⟨hsuffixed, hkeywords⟩ := escape_notMem name
  exact escape_eq_self hsuffixed hkeywords

theorem escape_of_mem_suffixed {name : String} (h : name ∈ suffixed) : escape name = name ++ "_" :=
  if_pos h

theorem notMem_suffixed_of_mem_keywords : ∀ name ∈ keywords, name ∉ suffixed := by
  decide +kernel

theorem escape_of_mem_keywords {name : String} (h : name ∈ keywords) :
    escape name = "r#" ++ name := by
  rw [escape, if_neg (notMem_suffixed_of_mem_keywords name h), if_pos h]

/-- An escape with an underscore has no hash, and a raw one has. -/
theorem append_underscore_ne_raw {first second : String} (h : first ∈ suffixed) :
    first ++ "_" ≠ "r#" ++ second := by
  intro heq
  have hhash : '#' ∈ (first ++ "_").toList := by simp [heq]
  have hfirst : '#' ∈ first.toList := by simpa using hhash
  exact hash_notMem_of_mem first (List.mem_append_left _ h) hfirst

/-- Escapes of different names differ. -/
theorem eq_of_escape_eq {first second : String} (hfirst : first ∈ suffixed ∨ first ∈ keywords)
    (hsecond : second ∈ suffixed ∨ second ∈ keywords) (h : escape first = escape second) :
    first = second := by
  rcases hfirst with hfirst | hfirst <;> rcases hsecond with hsecond | hsecond
  · rw [escape_of_mem_suffixed hfirst, escape_of_mem_suffixed hsecond] at h
    simpa using h
  · rw [escape_of_mem_suffixed hfirst, escape_of_mem_keywords hsecond] at h
    exact absurd h (append_underscore_ne_raw hfirst)
  · rw [escape_of_mem_keywords hfirst, escape_of_mem_suffixed hsecond] at h
    exact absurd h.symm (append_underscore_ne_raw hsecond)
  · rw [escape_of_mem_keywords hfirst, escape_of_mem_keywords hsecond] at h
    simpa using h

/-- **Two names are escaped alike** only if one of them is what the other is escaped to. -/
theorem escape_eq_escape_iff {first second : String} :
    escape first = escape second ↔
      first = second ∨ escape first = second ∨ escape second = first := by
  constructor
  · intro h
    -- Among the names that are changed the escapes differ; any other name is its own escape.
    by_cases hfirst : first ∈ suffixed ∨ first ∈ keywords
    · by_cases hsecond : second ∈ suffixed ∨ second ∈ keywords
      · exact .inl (eq_of_escape_eq hfirst hsecond h)
      · rw [not_or] at hsecond
        rw [escape_eq_self hsecond.1 hsecond.2] at h
        exact .inr (.inl h)
    · rw [not_or] at hfirst
      rw [escape_eq_self hfirst.1 hfirst.2] at h
      exact .inr (.inr h.symm)
  · rintro (rfl | rfl | rfl)
    · rfl
    · exact (escape_escape first).symm
    · exact escape_escape second

theorem collide_escape (name : String) : Collide name (escape name) := by
  unfold escape
  split_ifs with hsuffixed hkeyword
  · have hsplit : name ∈ ["crate", "self", "Self", "super"] ++ ["_"] := hsuffixed
    rcases List.mem_append.mp hsplit with hreserved | hlone
    · exact .respelled (.suffixed hreserved)
    · cases List.mem_singleton.mp hlone
      exact .blank (by decide) (by decide)
  · exact .respelled (.raw hkeyword)
  · exact .same

theorem Respelled.escape_eq {word spelling : String} (h : Respelled word spelling) :
    escape word = spelling := by
  cases h with
  | suffixed reserved =>
    exact escape_of_mem_suffixed (List.mem_append_left ["_"] reserved)
  | raw keyword => exact escape_of_mem_keywords keyword

/-! ## §3 Keys -/

/-- What is escaped in place of a name. -/
def orUnderscore (name : String) : String := if name = "" then "_" else name

theorem ofKey_eq_escape_orUnderscore (key : String) :
    ofKey key = escape (orUnderscore (normalize key)) := rfl

theorem orUnderscore_of_ne_empty {name : String} (h : name ≠ "") : orUnderscore name = name :=
  if_neg h

theorem escape_orUnderscore_of_blank :
    ∀ name ∈ ["", "_", "__"], escape (orUnderscore name) = "__" := by
  decide +kernel

/-- Only the blank names are written as two underscores. -/
theorem blank_of_escape_orUnderscore {name : String} (h : escape (orUnderscore name) = "__") :
    name ∈ ["", "_", "__"] := by
  have hescape : escape "_" = "__" := by decide +kernel
  by_cases hempty : name = ""
  · simp [hempty]
  · rw [orUnderscore_of_ne_empty hempty, ← hescape, escape_eq_escape_iff] at h
    rcases h with rfl | hback | rfl
    · decide
    · -- The lone underscore is reserved, and no escape leaves a reserved name.
      exact absurd (show escape name ∈ suffixed by simp [hback, suffixed]) (escape_notMem name).1
    · simp [hescape]

theorem Respelled.ne_empty {word spelling : String} (h : Respelled word spelling) :
    word ≠ "" ∧ spelling ≠ "" := by
  have hword : word ≠ "" := by
    rintro rfl
    cases h with
    | suffixed reserved => exact absurd reserved (by decide)
    | raw keyword => exact absurd keyword (by decide)
  exact ⟨hword, h.escape_eq ▸ escape_ne_empty hword⟩

theorem escape_orUnderscore_of_respelled {word spelling : String} (h : Respelled word spelling) :
    escape (orUnderscore word) = escape (orUnderscore spelling) := by
  obtain ⟨hword, hspelling⟩ := h.ne_empty
  rw [orUnderscore_of_ne_empty hword, orUnderscore_of_ne_empty hspelling, ← h.escape_eq,
    escape_escape]

theorem escape_orUnderscore_eq_iff {first second : String} :
    escape (orUnderscore first) = escape (orUnderscore second) ↔ Collide first second := by
  constructor
  · intro h
    by_cases hempty : first = "" ∨ second = ""
    · -- The empty name is written as two underscores, and so is the other one then.
      have hblank : escape (orUnderscore "") = "__" := escape_orUnderscore_of_blank "" (by decide)
      rcases hempty with rfl | rfl
      · exact .blank (by decide) (blank_of_escape_orUnderscore (h.symm.trans hblank))
      · exact .blank (blank_of_escape_orUnderscore (h.trans hblank)) (by decide)
    · rw [not_or] at hempty
      rw [orUnderscore_of_ne_empty hempty.1, orUnderscore_of_ne_empty hempty.2,
        escape_eq_escape_iff] at h
      rcases h with rfl | rfl | rfl
      · exact .same
      · exact collide_escape first
      · exact (collide_escape second).symm
  · intro h
    cases h with
    | same => rfl
    | blank hfirst hsecond =>
      exact (escape_orUnderscore_of_blank _ hfirst).trans
        (escape_orUnderscore_of_blank _ hsecond).symm
    | respelled h => exact escape_orUnderscore_of_respelled h
    | spelled h => exact (escape_orUnderscore_of_respelled h).symm

/-- **Which keys collide**: keys get the same identifier exactly if what is left of them after
replacing characters collides. The identifier of an identifier is the identifier itself. -/
theorem ofKey_eq_ofKey_iff_collide :
    (∀ first second, ofKey first = ofKey second ↔
      Collide (normalize first) (normalize second)) ∧
    ∀ key, ofKey (ofKey key) = ofKey key := by
  refine ⟨fun first second => ?_, ofKey_ofKey⟩
  rw [ofKey_eq_escape_orUnderscore, ofKey_eq_escape_orUnderscore, escape_orUnderscore_eq_iff]

example : ofKey "$" = ofKey "__" ∧ ofKey "self" = ofKey "self." ∧ ofKey "type" = ofKey "r#type" ∧
    ofKey "type" ≠ ofKey "type_" := by
  decide +kernel

end TypedSettings.Identifier

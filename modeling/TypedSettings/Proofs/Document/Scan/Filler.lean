import Mathlib
import TypedSettings.Document.Scan.Filler

/-!
# The grammar of filler

Filler is any mix of blanks, line comments and block comments. A line comment goes through the next
line feed, or through the end of the text if there is none. A block comment goes through the first
closer after its opening slash. Skipping filler drops exactly that.

Main facts:
- `Filler.Gap`, `Filler.Trailing`: filler before a token, and after the last one
- `Filler.Gap.skip_append`: filler is skipped whatever follows it
- `Filler.skips_of_skip`: only filler is skipped
-/

namespace TypedSettings.Filler

/-! ## §1 Grammar -/

/-- The end of a block comment. -/
def closer : List Char := ['*', '/']

/-- The closer after `inner` is the first one. -/
def FirstClosed (inner : List Char) : Prop :=
  ∀ before after, inner ++ closer = before ++ closer ++ after → after = []

/-- Filler that may stand before a token. -/
inductive Gap : List Char → Prop where
  | nil : Gap []
  | blank {c : Char} {rest : List Char} (h : c ∈ [' ', '\t', '\n', '\r']) (more : Gap rest) :
      Gap (c :: rest)
  | line {body rest : List Char} (h : '\n' ∉ body) (more : Gap rest) :
      Gap ('/' :: '/' :: (body ++ '\n' :: rest))
  /-- The star of the opener may be the star of the closer. -/
  | block {inner rest : List Char} (opens : (inner ++ closer).head? = some '*')
      (first : FirstClosed inner) (more : Gap rest) : Gap ('/' :: (inner ++ closer ++ rest))

/-- Filler that may stand at the end of a text: its last line comment may lack a line feed. -/
inductive Trailing : List Char → Prop where
  | gap {text : List Char} (h : Gap text) : Trailing text
  | line {gap body : List Char} (h : Gap gap) (hbody : '\n' ∉ body) :
      Trailing (gap ++ '/' :: '/' :: body)

theorem Gap.append {first second : List Char} (hfirst : Gap first) (hsecond : Gap second) :
    Gap (first ++ second) := by
  induction hfirst with
  | nil => exact hsecond
  | blank h _ ih => exact .blank h ih
  | line h _ ih =>
    simp only [List.cons_append, List.append_assoc]
    exact .line h ih
  | block opens first _ ih =>
    rw [List.cons_append, List.append_assoc]
    exact .block opens first ih

theorem isBlank_iff {c : Char} : isBlank c = true ↔ c ∈ [' ', '\t', '\n', '\r'] := by
  simp [isBlank, or_assoc, or_left_comm]

/-! ## §2 Block comments -/

theorem firstClosed_nil : FirstClosed [] := by
  intro before after h
  have hlength := congrArg List.length h
  simp only [List.nil_append, List.length_append, closer, List.length_cons, List.length_nil]
    at hlength
  exact List.eq_nil_of_length_eq_zero (by omega)

/-- One more character closes the comment earlier only if it makes a closer with the next one. -/
theorem firstClosed_cons {c : Char} {inner : List Char} :
    FirstClosed (c :: inner) ↔ FirstClosed inner ∧ ¬ (c = '*' ∧ inner.head? = some '/') := by
  constructor
  · intro h
    refine ⟨fun before after heq => h (c :: before) after ?_, ?_⟩
    · rw [List.cons_append, heq]
      rfl
    · rintro ⟨rfl, hslash⟩
      obtain ⟨others, rfl⟩ := List.head?_eq_some_iff.mp hslash
      -- The comment would end with the slash, but a closer is still to come.
      have hnil : others ++ closer = [] := h [] (others ++ closer) rfl
      simp [closer] at hnil
  · rintro ⟨hinner, hcloses⟩ before after heq
    cases before with
    | cons b before => exact hinner before after (List.cons.inj heq).2
    | nil =>
      obtain ⟨hc, hrest⟩ := List.cons.inj heq
      cases inner with
      | nil => cases hrest
      | cons d others =>
        obtain ⟨hd, -⟩ := List.cons.inj hrest
        exact absurd ⟨hc, congrArg some hd⟩ hcloses

/-- In a block comment every character is skipped that does not make a closer with the next one. -/
theorem skip_block_cons {c : Char} {rest : List Char} (h : ¬ (c = '*' ∧ rest.head? = some '/')) :
    skip .block (c :: rest) = skip .block rest := by
  by_cases hstar : c = '*'
  · subst hstar
    cases rest with
    | nil => rfl
    | cons d rest =>
      have hslash : d ≠ '/' := fun hd => h ⟨rfl, congrArg some hd⟩
      simp only [skip, if_true, hslash, if_false]
  · simp only [skip, hstar, if_false]

/-- A block comment is skipped through its first closer. -/
theorem FirstClosed.skip_append {inner : List Char} (h : FirstClosed inner) (rest : List Char) :
    skip .block (inner ++ closer ++ rest) = skip .gap rest := by
  induction inner with
  | nil => rfl
  | cons c inner ih =>
    obtain ⟨hinner, hcloses⟩ := firstClosed_cons.mp h
    rw [List.cons_append, List.cons_append, skip_block_cons, ih hinner]
    cases inner with
    | nil => exact fun hslash => absurd hslash.2 (by simp [closer])
    | cons d others => exact hcloses

/-- What is skipped in a block comment ends with its first closer. -/
theorem exists_of_skip_block {text left : List Char} (h : skip .block text = .ok left) :
    ∃ inner rest, text = inner ++ closer ++ rest ∧ FirstClosed inner ∧
      skip .gap rest = .ok left := by
  induction text with
  | nil => cases h
  | cons c text ih =>
    by_cases hcloses : c = '*' ∧ text.head? = some '/'
    · obtain ⟨rfl, hslash⟩ := hcloses
      obtain ⟨rest, rfl⟩ := List.head?_eq_some_iff.mp hslash
      exact ⟨[], rest, rfl, firstClosed_nil, h⟩
    · rw [skip_block_cons hcloses] at h
      obtain ⟨inner, rest, rfl, hinner, hrest⟩ := ih h
      refine ⟨c :: inner, rest, rfl, firstClosed_cons.mpr ⟨hinner, ?_⟩, hrest⟩
      rintro ⟨hc, hhead⟩
      apply hcloses
      obtain ⟨others, rfl⟩ := List.head?_eq_some_iff.mp hhead
      exact ⟨hc, rfl⟩

/-! ## §3 Line comments -/

theorem skip_line_append {body : List Char} (h : '\n' ∉ body) (rest : List Char) :
    skip .line (body ++ '\n' :: rest) = skip .gap rest := by
  induction body with
  | nil => rfl
  | cons c body ih =>
    rw [List.mem_cons, not_or] at h
    rw [List.cons_append, skip, if_neg (Ne.symm h.1), ih h.2]

theorem skip_line_eq_nil {body : List Char} (h : '\n' ∉ body) : skip .line body = .ok [] := by
  induction body with
  | nil => rfl
  | cons c body ih =>
    rw [List.mem_cons, not_or] at h
    rw [skip, if_neg (Ne.symm h.1), ih h.2]

/-- A line comment goes through a line feed or through the end of the text. -/
theorem exists_of_skip_line {text left : List Char} (h : skip .line text = .ok left) :
    (∃ body rest, text = body ++ '\n' :: rest ∧ '\n' ∉ body ∧ skip .gap rest = .ok left) ∨
      '\n' ∉ text ∧ left = [] := by
  induction text with
  | nil =>
    cases h
    exact Or.inr ⟨List.not_mem_nil, rfl⟩
  | cons c text ih =>
    rw [skip] at h
    split at h
    next hc =>
      subst hc
      exact Or.inl ⟨[], text, rfl, List.not_mem_nil, h⟩
    next hc =>
      rcases ih h with ⟨body, rest, rfl, hbody, hrest⟩ | ⟨htext, hleft⟩
      · refine Or.inl ⟨c :: body, rest, rfl, ?_, hrest⟩
        simp [hbody, Ne.symm hc]
      · refine Or.inr ⟨?_, hleft⟩
        simp [htext, Ne.symm hc]

/-! ## §4 Filler -/

theorem skip_gap_blank {c : Char} (h : isBlank c = true) (rest : List Char) :
    skip .gap (c :: rest) = skip .gap rest := by
  rw [skip.eq_def .gap (c :: rest)]
  simp only [h, if_true]

/-- A slash begins one of the two kinds of comment. -/
theorem exists_of_skip_slash {rest left : List Char} (h : skip .gap ('/' :: rest) = .ok left) :
    (∃ body, rest = '/' :: body ∧ skip .line body = .ok left) ∨
      rest.head? = some '*' ∧ skip .block rest = .ok left := by
  rw [skip.eq_def] at h
  simp only [show isBlank '/' = false from rfl, Bool.false_eq_true, if_false, if_true] at h
  split at h
  next body => exact Or.inl ⟨body, rfl, h⟩
  next body => exact Or.inr ⟨rfl, h⟩
  next => cases h

/-- A character that is no filler is left. -/
theorem skip_gap_eq_self {c : Char} (hblank : isBlank c = false) (hslash : c ≠ '/')
    (rest : List Char) : skip .gap (c :: rest) = .ok (c :: rest) := by
  rw [skip.eq_def]
  simp only [hblank, hslash, Bool.false_eq_true, if_false]

/-- **Filler is skipped**, whatever follows it. -/
theorem Gap.skip_append {gap : List Char} (h : Gap gap) (rest : List Char) :
    skip .gap (gap ++ rest) = skip .gap rest := by
  induction h with
  | nil => rfl
  | blank h _ ih => rw [List.cons_append, skip_gap_blank (isBlank_iff.mpr h), ih]
  | @line body gap h _ ih =>
    have hskip : skip .gap ('/' :: '/' :: (body ++ '\n' :: gap) ++ rest) =
        skip .line (body ++ '\n' :: (gap ++ rest)) := by
      simp only [List.cons_append, List.append_assoc]
      rfl
    rw [hskip, skip_line_append h, ih]
  | @block inner gap opens first _ ih =>
    obtain ⟨others, hothers⟩ := List.head?_eq_some_iff.mp opens
    -- The opening star is the first character of what is read as the comment.
    have hskip : skip .gap ('/' :: (inner ++ closer ++ gap) ++ rest) =
        skip .block (inner ++ closer ++ (gap ++ rest)) := by
      rw [hothers]
      simp only [List.cons_append, List.append_assoc]
      rfl
    rw [hskip, first.skip_append, ih]

theorem Trailing.skip_eq {text : List Char} (h : Trailing text) : skip .gap text = .ok [] := by
  cases h with
  | gap h =>
    have := h.skip_append []
    rwa [List.append_nil] at this
  | line h hbody =>
    rw [h.skip_append]
    exact skip_line_eq_nil hbody

/-- What skipping a text says of it: before what is left there is filler, and where nothing is left
that may be trailing filler. -/
def Skips (text left : List Char) : Prop :=
  (∃ gap, Gap gap ∧ text = gap ++ left) ∨ Trailing text ∧ left = []

theorem Skips.append {gap text left : List Char} (hgap : Gap gap) (h : Skips text left) :
    Skips (gap ++ text) left := by
  rcases h with ⟨more, hmore, rfl⟩ | ⟨htext, rfl⟩
  · exact Or.inl ⟨gap ++ more, hgap.append hmore, (List.append_assoc ..).symm⟩
  · refine Or.inr ⟨?_, rfl⟩
    cases htext with
    | gap h => exact .gap (hgap.append h)
    | line h hbody =>
      rw [← List.append_assoc]
      exact .line (hgap.append h) hbody

/-- **Only filler is skipped.** -/
theorem skips_of_skip {text left : List Char} (h : skip .gap text = .ok left) :
    Skips text left := by
  -- Comments are skipped as a whole, so the induction is on the length of the text.
  induction hlength : text.length using Nat.strongRecOn generalizing text with
  | ind n ih =>
    subst hlength
    cases text with
    | nil =>
      cases h
      exact Or.inl ⟨[], .nil, rfl⟩
    | cons c rest =>
      cases hblank : isBlank c with
      | true =>
        rw [skip_gap_blank hblank] at h
        exact Skips.append (.blank (isBlank_iff.mp hblank) .nil) (ih _ (by simp) h rfl)
      | false =>
        by_cases hslash : c = '/'
        · subst hslash
          rcases exists_of_skip_slash h with ⟨body, rfl, hline⟩ | ⟨hstar, hblock⟩
          · rcases exists_of_skip_line hline with ⟨body, rest, rfl, hbody, hrest⟩ |
              ⟨hbody, rfl⟩
            · have hskips := ih rest.length (by simp; omega) hrest rfl
              simpa using Skips.append (.line hbody .nil) hskips
            · exact Or.inr ⟨.line .nil hbody, rfl⟩
          · obtain ⟨inner, others, rfl, hfirst, hothers⟩ := exists_of_skip_block hblock
            have hskips := ih others.length (by simp; omega) hothers rfl
            have hopens : (inner ++ closer).head? = some '*' := by
              cases inner with
              | nil => rfl
              | cons d more => exact hstar
            simpa using Skips.append (.block hopens hfirst .nil) hskips
        · rw [skip_gap_eq_self hblank hslash] at h
          cases h
          exact Or.inl ⟨[], .nil, rfl⟩

/-- **A text is trailing filler** exactly if nothing of it is left. -/
theorem skip_eq_nil_iff {text : List Char} : skip .gap text = .ok [] ↔ Trailing text := by
  constructor
  · intro h
    rcases skips_of_skip h with ⟨gap, hgap, rfl⟩ | ⟨htext, -⟩
    · rw [List.append_nil]
      exact .gap hgap
    · exact htext
  · exact Trailing.skip_eq

end TypedSettings.Filler

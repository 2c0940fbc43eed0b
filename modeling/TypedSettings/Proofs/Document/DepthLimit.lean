import Mathlib
import TypedSettings.Proofs.Document.RoundTrip

/-!
# Documents beyond the depth limit

Rules of their own, beside those of derivations, say that reading tokens comes to a bracket that
opens one level too many, whatever follows. Reading such tokens fails with the recursion limit, and
the tokens of a document that lies too deep are of this kind. So a printed document is either read
back or refused for its depth.

Main facts:
- `Value.Exceeds`, `Value.ExceedsItems`, `Value.ExceedsMembers`: the rules
- `Value.Exceeds.parseValue_isTooDeep`: what exceeds the limit is refused
- `Value.exceeds_tokens`: a document that lies too deep exceeds the limit
- `Value.parse_compact_of_depth`: printed documents beyond the limit
-/

namespace TypedSettings

namespace Value

/-! ## §1 Rules -/

mutual

/-- `Exceeds depth tokens`: a value read from the tokens opens a bracket where no more level may be
entered. -/
inductive Exceeds : Nat → List Token → Prop where
  | list {rest : List Token} : Exceeds 0 (.listOpen :: rest)
  | object {rest : List Token} : Exceeds 0 (.objectOpen :: rest)
  | items {depth : Nat} {tokens : List Token} (inner : ExceedsItems depth tokens) :
      Exceeds (depth + 1) (.listOpen :: tokens)
  | members {depth : Nat} {tokens : List Token} (inner : ExceedsMembers depth tokens) :
      Exceeds (depth + 1) (.objectOpen :: tokens)

/-- One of the items does, and those before it can be derived. -/
inductive ExceedsItems : Nat → List Token → Prop where
  | here {depth : Nat} {tokens : List Token} (first : Exceeds depth tokens) :
      ExceedsItems depth tokens
  | later {depth : Nat} {tokens middle : List Token} {item : Value}
      (first : Derives depth tokens item (.comma :: middle)) (others : ExceedsItems depth middle) :
      ExceedsItems depth tokens

/-- The value of one of the members does, and the members before it can be derived. -/
inductive ExceedsMembers : Nat → List Token → Prop where
  | here {depth : Nat} {tokens : List Token} {key : String} (first : Exceeds depth tokens) :
      ExceedsMembers depth (.string key :: .colon :: tokens)
  | later {depth : Nat} {tokens middle : List Token} {key : String} {value : Value}
      (first : Derives depth tokens value (.comma :: middle))
      (others : ExceedsMembers depth middle) :
      ExceedsMembers depth (.string key :: .colon :: tokens)

end

/-! ## §2 What exceeds the limit is refused

The amounts of fuel are those of derivations, so that the values before the fatal bracket are read
as usual. -/

/-- Reading failed because a bracket opens one level too many. -/
def IsTooDeep {α : Type} (result : Except ParseFailure α) : Prop :=
  ∃ remaining, result = .error (.unexpected .recursionLimit remaining)

theorem Exceeds.beginsItem {depth : Nat} {tokens : List Token} (h : Exceeds depth tokens) :
    BeginsItem tokens := by
  cases h <;> trivial

mutual

theorem Exceeds.parseValue_isTooDeep {depth : Nat} {tokens : List Token} {fuel : Nat}
    (h : Exceeds depth tokens) (enough : 2 * tokens.length ≤ fuel) :
    IsTooDeep (parseValue fuel depth tokens) := by
  -- There is a bracket at least, so there is fuel for it.
  obtain ⟨fuel, rfl⟩ : ∃ n, fuel = n + 1 := by
    refine Nat.exists_eq_add_one_of_ne_zero ?_
    have : tokens ≠ [] := by cases h <;> simp
    have := List.length_pos_iff.mpr this
    omega
  match h with
  | .list => exact ⟨_, rfl⟩
  | .object => exact ⟨_, rfl⟩
  | .items inner =>
    simp only [List.length_cons] at enough
    obtain ⟨remaining, hinner⟩ : IsTooDeep (parseItems fuel _ _) :=
      inner.parseItems_isTooDeep (by omega)
    exact ⟨remaining, by simp only [parseValue, hinner]⟩
  | .members inner =>
    simp only [List.length_cons] at enough
    obtain ⟨remaining, hinner⟩ : IsTooDeep (parseMembers fuel _ _) :=
      inner.parseMembers_isTooDeep (by omega)
    exact ⟨remaining, by simp only [parseValue, hinner]⟩

theorem ExceedsItems.parseItems_isTooDeep {depth : Nat} {tokens : List Token} {fuel : Nat}
    (h : ExceedsItems depth tokens) (enough : 2 * tokens.length + 1 ≤ fuel) :
    IsTooDeep (parseItems fuel depth tokens) := by
  obtain ⟨fuel, rfl⟩ : ∃ n, fuel = n + 1 := Nat.exists_eq_add_one_of_ne_zero (by omega)
  match h with
  | .here first =>
    obtain ⟨remaining, hfirst⟩ : IsTooDeep (parseValue fuel _ _) :=
      first.parseValue_isTooDeep (by omega)
    exact ⟨remaining, by simp only [parseItems_of_beginsItem first.beginsItem, hfirst]⟩
  | .later first others =>
    have hfirst : parseValue fuel _ _ = .ok _ := first.parseValue_eq (by omega)
    have hshort := first.length_lt
    simp only [List.length_cons] at hshort
    obtain ⟨remaining, hothers⟩ : IsTooDeep (parseItems fuel _ _) :=
      others.parseItems_isTooDeep (by omega)
    exact ⟨remaining, by
      simp only [parseItems_of_beginsItem first.beginsItem, hfirst, hothers]⟩

theorem ExceedsMembers.parseMembers_isTooDeep {depth : Nat} {tokens : List Token} {fuel : Nat}
    (h : ExceedsMembers depth tokens) (enough : 2 * tokens.length + 1 ≤ fuel) :
    IsTooDeep (parseMembers fuel depth tokens) := by
  obtain ⟨fuel, rfl⟩ : ∃ n, fuel = n + 1 := Nat.exists_eq_add_one_of_ne_zero (by omega)
  match h with
  | .here first =>
    simp only [List.length_cons] at enough
    obtain ⟨remaining, hfirst⟩ : IsTooDeep (parseValue fuel _ _) :=
      first.parseValue_isTooDeep (by omega)
    exact ⟨remaining, by simp only [parseMembers, hfirst]⟩
  | .later first others =>
    simp only [List.length_cons] at enough
    have hfirst : parseValue fuel _ _ = .ok _ := first.parseValue_eq (by omega)
    have hshort := first.length_lt
    simp only [List.length_cons] at hshort
    obtain ⟨remaining, hothers⟩ : IsTooDeep (parseMembers fuel _ _) :=
      others.parseMembers_isTooDeep (by omega)
    exact ⟨remaining, by simp only [parseMembers, hfirst, hothers]⟩

end

/-! ## §3 Documents that lie too deep -/

mutual

/-- **Too deep to be read**: the tokens of a document beyond the limit exceed it. -/
theorem exceeds_tokens {limit : Nat} : ∀ {value : Value}, value.UniqueKeys →
    limit < value.depth → ∀ rest : List Token, Exceeds limit (value.tokens ++ rest)
  | .array [], _, hdeep, rest => by
    obtain rfl : limit = 0 := Nat.lt_one_iff.mp hdeep
    exact .list
  | .array (item :: others), hunique, hdeep, rest => by
    cases hunique with
    | array hunique =>
      obtain ⟨hitem, hothers⟩ := List.forall_mem_cons.mp hunique
      rw [tokens, List.cons_append, List.append_assoc]
      cases limit with
      -- The outer bracket is one too many, whatever it holds.
      | zero => exact .list
      | succ limit =>
        exact .items (exceedsItems_tokens hothers hitem (exceeds_tokens hitem)
          (Nat.lt_of_succ_lt_succ hdeep) rest)
  | .object [], _, hdeep, rest => by
    obtain rfl : limit = 0 := Nat.lt_one_iff.mp hdeep
    exact .object
  | .object ((key, value) :: others), hunique, hdeep, rest => by
    cases hunique with
    | object _ hunique =>
      obtain ⟨hvalue, hothers⟩ := List.forall_mem_cons.mp hunique
      rw [tokens]
      simp only [List.cons_append, List.append_assoc]
      cases limit with
      | zero => exact .object
      | succ limit =>
        exact .members (exceedsMembers_tokens hothers key hvalue (exceeds_tokens hvalue)
          (Nat.lt_of_succ_lt_succ hdeep) rest)

/-- Of items beyond the limit the first one that lies too deep comes after items that are read. -/
theorem exceedsItems_tokens {limit : Nat} : ∀ {others : List Value},
    (∀ item ∈ others, item.UniqueKeys) → ∀ {first : Value}, first.UniqueKeys →
    (limit < first.depth → ∀ rest, Exceeds limit (first.tokens ++ rest)) →
    limit < max first.depth (itemsDepth others) → ∀ rest : List Token,
    ExceedsItems limit (first.tokens ++ (itemTokens others ++ rest))
  | [], _, _, _, hexceeds, hdeep, rest => by
    rw [itemsDepth, Nat.max_zero] at hdeep
    exact .here (hexceeds hdeep _)
  | second :: others, hunique, first, hfirst, hexceeds, hdeep, rest => by
    by_cases hhere : limit < first.depth
    · exact .here (hexceeds hhere _)
    · obtain ⟨hsecond, hothers⟩ := List.forall_mem_cons.mp hunique
      have hdeep : limit < max second.depth (itemsDepth others) := by
        rw [itemsDepth] at hdeep
        omega
      have hlater := exceedsItems_tokens hothers hsecond (exceeds_tokens hsecond) hdeep rest
      rw [itemTokens, List.cons_append, List.append_assoc]
      exact .later (derives_tokens ⟨hfirst, Nat.not_lt.mp hhere⟩ _) hlater

theorem exceedsMembers_tokens {limit : Nat} : ∀ {others : List (String × Value)},
    (∀ member ∈ others, member.2.UniqueKeys) → ∀ (key : String) {first : Value},
    first.UniqueKeys → (limit < first.depth → ∀ rest, Exceeds limit (first.tokens ++ rest)) →
    limit < max first.depth (membersDepth others) → ∀ rest : List Token,
    ExceedsMembers limit
      (.string key :: .colon :: (first.tokens ++ (memberTokens others ++ rest)))
  | [], _, _, _, _, hexceeds, hdeep, rest => by
    rw [membersDepth, Nat.max_zero] at hdeep
    exact .here (hexceeds hdeep _)
  | (secondKey, second) :: others, hunique, _, first, hfirst, hexceeds, hdeep, rest => by
    by_cases hhere : limit < first.depth
    · exact .here (hexceeds hhere _)
    · obtain ⟨hsecond, hothers⟩ := List.forall_mem_cons.mp hunique
      have hdeep : limit < max second.depth (membersDepth others) := by
        rw [membersDepth] at hdeep
        omega
      have hlater :=
        exceedsMembers_tokens hothers secondKey hsecond (exceeds_tokens hsecond) hdeep rest
      rw [memberTokens]
      simp only [List.cons_append, List.append_assoc]
      exact .later (derives_tokens ⟨hfirst, Nat.not_lt.mp hhere⟩ _) hlater

end

/-! ## §4 Whole texts -/

/-- Where a failure is found does not change its cause. -/
theorem cause_locate (tokens : List (Token × List Char)) (cause : SyntaxCause) (remaining : Nat) :
    (ParseFailure.locate tokens (.unexpected cause remaining)).cause = cause := by
  unfold ParseFailure.locate
  dsimp only
  split <;> rfl

/-- A text whose tokens exceed the limit is refused for its depth. -/
theorem parse_of_exceeds {text : String}
    (h : Exceeds depthLimit (Token.ofChars (dropByteOrderMark text.toList))) :
    ∃ position, parse text = .error ⟨.recursionLimit, position⟩ := by
  obtain ⟨remaining, htokens⟩ :
      IsTooDeep (ofTokens (Token.ofChars (dropByteOrderMark text.toList))) := by
    have hlength := Nat.le_add_right (2 * (Token.ofChars (dropByteOrderMark text.toList)).length) 2
    obtain ⟨remaining, hvalue⟩ := h.parseValue_isTooDeep hlength
    exact ⟨remaining, by rw [ofTokens, hvalue]⟩
  rw [Token.ofChars] at htokens
  simp only [parse, htokens, SyntaxError.ofLocal, cause_locate]
  exact ⟨_, rfl⟩

/-- **Printed documents that lie too deep** are refused for their depth. -/
theorem parse_compact_of_depth {value : Value} (hunique : value.UniqueKeys)
    (hintegral : value.Integral) (hdeep : depthLimit < value.depth) :
    ∃ position, parse value.compact = .error ⟨.recursionLimit, position⟩ := by
  refine parse_of_exceeds ?_
  rw [ofChars_compact hintegral, ← List.append_nil value.tokens]
  exact exceeds_tokens hunique hdeep []

end Value

end TypedSettings

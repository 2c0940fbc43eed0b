import Mathlib
import TypedSettings.Proofs.Document.Acceptance

/-!
# Documents of other numbers

The grammar leaves open what number a numeral means. A text that is a document when its numerals are
given some other meaning is read as that document too, with every number replaced by one that such a
numeral denotes, unless a numeral denotes none: then it is refused for being out of range.

Main facts:
- `Value.Rounds`: the same document but for its numbers
- `Value.parse_of_document`: what becomes of a document of other numbers
-/

namespace TypedSettings

namespace Value

open Filler (Gap Trailing)
open Numeral (Ends)
open Token (ofChars)

/-! ## §1 Documents that differ in their numbers -/

section

variable (meaning : Numeral → Number → Prop)

mutual

/-- `Rounds meaning exact found`: the document `found` has the form of the document `exact`, and for
a number of the one it has a number that a numeral of that meaning denotes. -/
inductive Rounds : Value → Value → Prop where
  | null : Rounds .null .null
  | boolean (b : Bool) : Rounds (.boolean b) (.boolean b)
  | number {n : Numeral} {exact found : Number} (hmeaning : meaning n exact)
      (hfound : n.Denotes found) : Rounds (.number exact) (.number found)
  | string (text : String) : Rounds (.string text) (.string text)
  | array {exact found : List Value} (h : List.Forall₂ Rounds exact found) :
      Rounds (.array exact) (.array found)
  | object {exact found : List (String × Value)} (h : List.Forall₂ RoundsMember exact found) :
      Rounds (.object exact) (.object found)

inductive RoundsMember : String × Value → String × Value → Prop where
  | mk {key : String} {exact found : Value} (h : Rounds exact found) :
      RoundsMember (key, exact) (key, found)

end

/-- A numeral that means a number but denotes none. -/
def HasOutOfRange : Prop := ∃ n number, meaning n number ∧ ∀ found, ¬ n.Denotes found

end

variable {meaning : Numeral → Number → Prop}

theorem rounds_insert {exact found : List (String × Value)} {key : String} {value value' : Value}
    (h : List.Forall₂ (RoundsMember meaning) exact found) (hvalue : Rounds meaning value value') :
    List.Forall₂ (RoundsMember meaning) (OrderedMap.insert key value exact)
      (OrderedMap.insert key value' found) := by
  induction h with
  | nil => exact .cons (.mk hvalue) .nil
  | cons hfirst hrest ih =>
    cases hfirst with
    | @mk other _ _ hfirst =>
      simp only [OrderedMap.insert]
      by_cases hkey : other = key
      · rw [if_pos hkey, if_pos hkey]
        exact .cons (.mk hvalue) hrest
      · rw [if_neg hkey, if_neg hkey]
        exact .cons (.mk hfirst) ih

/-- Repeated keys are resolved alike. -/
theorem rounds_ofPairs {exact found : List (String × Value)}
    (h : List.Forall₂ (RoundsMember meaning) exact found) :
    List.Forall₂ (RoundsMember meaning) (OrderedMap.ofPairs exact) (OrderedMap.ofPairs found) := by
  have hwrites {start start' : List (String × Value)}
      (hstart : List.Forall₂ (RoundsMember meaning) start start') :
      List.Forall₂ (RoundsMember meaning)
        (exact.foldl (fun map pair => OrderedMap.insert pair.1 pair.2 map) start)
        (found.foldl (fun map pair => OrderedMap.insert pair.1 pair.2 map) start') := by
    induction h generalizing start start' with
    | nil => exact hstart
    | cons hfirst _ ih =>
      cases hfirst with
      | mk hvalue => exact ih (rounds_insert hstart hvalue)
  exact hwrites .nil

/-! ## §2 Reading that stops at a numeral -/

/-- Reading a value from the tokens stops at a numeral that is out of range. -/
def Stops (depth : Nat) (tokens : List Token) : Prop :=
  ∃ place, ∀ fuel, 2 * tokens.length ≤ fuel →
    parseValue fuel depth tokens = .error (.broken ⟨.numberOutOfRange, place⟩)

def StopsItems (depth : Nat) (tokens : List Token) : Prop :=
  ∃ place, ∀ fuel, 2 * tokens.length + 1 ≤ fuel →
    parseItems fuel depth tokens = .error (.broken ⟨.numberOutOfRange, place⟩)

def StopsMembers (depth : Nat) (tokens : List Token) : Prop :=
  ∃ place, ∀ fuel, 2 * tokens.length + 1 ≤ fuel →
    parseMembers fuel depth tokens = .error (.broken ⟨.numberOutOfRange, place⟩)

/-- The tokens of a member, of which reading the value stops. -/
inductive StopsMember (depth : Nat) : List Token → Prop where
  | mk {key : String} {tokens : List Token} (h : Stops depth tokens) :
      StopsMember depth (.string key :: .colon :: tokens)

theorem stops_broken (depth : Nat) (place : Place) :
    Stops depth [.broken .scalar ⟨.numberOutOfRange, place⟩] := by
  refine ⟨place, fun fuel enough => ?_⟩
  rw [List.length_singleton] at enough
  obtain ⟨fuel, rfl⟩ : ∃ n, fuel = n + 1 := Nat.exists_eq_add_one_of_ne_zero (by omega)
  rfl

/-- Where reading a value stops, there are items to be read. -/
theorem Stops.items {depth : Nat} {tokens : List Token} (h : Stops depth tokens) :
    StopsItems depth tokens := by
  obtain ⟨place, h⟩ := h
  refine ⟨place, fun fuel enough => ?_⟩
  obtain ⟨fuel, rfl⟩ : ∃ n, fuel = n + 1 := Nat.exists_eq_add_one_of_ne_zero (by omega)
  have hvalue := h fuel (by omega)
  -- A value is wanted, as neither the end nor a closing bracket is such a stop.
  have hend : tokens = [] → False := by
    rintro rfl
    cases fuel <;> cases hvalue
  have hclose : ∀ rest, tokens = .listClose :: rest → False := by
    rintro rest rfl
    cases fuel <;> cases hvalue
  rw [parseItems, hvalue]
  · exact hend
  · exact hclose

theorem StopsItems.cons {depth : Nat} {tokens middle : List Token} {item : Value}
    (h : StopsItems depth middle) (first : Derives depth tokens item (.comma :: middle)) :
    StopsItems depth tokens := by
  obtain ⟨place, h⟩ := h
  refine ⟨place, fun fuel enough => ?_⟩
  obtain ⟨fuel, rfl⟩ : ∃ n, fuel = n + 1 := Nat.exists_eq_add_one_of_ne_zero (by omega)
  have hshort := first.length_lt
  rw [List.length_cons] at hshort
  have hfirst := first.parseValue_eq (show 2 * tokens.length ≤ fuel by omega)
  have hothers := h fuel (by omega)
  simp only [parseItems_of_beginsItem first.beginsItem, hfirst, hothers]

theorem StopsMember.members {depth : Nat} {tokens : List Token} (h : StopsMember depth tokens) :
    StopsMembers depth tokens := by
  cases h with
  | @mk key tokens h =>
    obtain ⟨place, h⟩ := h
    refine ⟨place, fun fuel enough => ?_⟩
    obtain ⟨fuel, rfl⟩ : ∃ n, fuel = n + 1 := Nat.exists_eq_add_one_of_ne_zero (by omega)
    simp only [List.length_cons] at enough
    have hvalue := h fuel (by omega)
    simp only [parseMembers, hvalue]

theorem StopsMembers.cons {depth : Nat} {tokens middle : List Token} {member : String × Value}
    (h : StopsMembers depth middle) (first : DerivesMember depth tokens member (.comma :: middle)) :
    StopsMembers depth tokens := by
  cases first with
  | mk first =>
    obtain ⟨place, h⟩ := h
    refine ⟨place, fun fuel enough => ?_⟩
    obtain ⟨fuel, rfl⟩ : ∃ n, fuel = n + 1 := Nat.exists_eq_add_one_of_ne_zero (by omega)
    have hshort := first.length_lt
    simp only [List.length_cons] at enough hshort
    have hfirst : parseValue fuel _ _ = .ok _ := first.parseValue_eq (by omega)
    have hothers := h fuel (by omega)
    simp only [parseMembers, hfirst, hothers]

theorem StopsItems.array {depth : Nat} {tokens : List Token} (h : StopsItems depth tokens) :
    Stops (depth + 1) (.listOpen :: tokens) := by
  obtain ⟨place, h⟩ := h
  refine ⟨place, fun fuel enough => ?_⟩
  rw [List.length_cons] at enough
  obtain ⟨fuel, rfl⟩ : ∃ n, fuel = n + 1 := Nat.exists_eq_add_one_of_ne_zero (by omega)
  have hitems := h fuel (by omega)
  simp only [parseValue, hitems]

theorem StopsMembers.object {depth : Nat} {tokens : List Token} (h : StopsMembers depth tokens) :
    Stops (depth + 1) (.objectOpen :: tokens) := by
  obtain ⟨place, h⟩ := h
  refine ⟨place, fun fuel enough => ?_⟩
  rw [List.length_cons] at enough
  obtain ⟨fuel, rfl⟩ : ∃ n, fuel = n + 1 := Nat.exists_eq_add_one_of_ne_zero (by omega)
  have hmembers := h fuel (by omega)
  simp only [parseValue, hmembers]

/-! ## §3 What reading comes to

Either a value is read that is the exact one but for its numbers, or reading stops, and then some
numeral denotes no number. -/

section

variable (meaning) (depth : Nat)

def Reaches (tokens : List Token) (exact : Value) (rest : List Token) : Prop :=
  (∃ found, Rounds meaning exact found ∧ Derives depth tokens found rest) ∨
    (Stops depth tokens ∧ HasOutOfRange meaning)

def ReachesMember (tokens : List Token) (exact : String × Value) (rest : List Token) : Prop :=
  (∃ found, RoundsMember meaning exact found ∧ DerivesMember depth tokens found rest) ∨
    (StopsMember depth tokens ∧ HasOutOfRange meaning)

end

variable {depth : Nat} {tokens rest : List Token}

theorem reaches_of_items {exact : List Value}
    (h : TokenList (Reaches meaning depth) .listClose tokens exact rest) :
    (∃ found, List.Forall₂ (Rounds meaning) exact found ∧ DerivesItems depth tokens found rest) ∨
      (StopsItems depth tokens ∧ HasOutOfRange meaning) := by
  induction h with
  | close => exact .inl ⟨[], .nil, .close⟩
  | last first =>
    rcases first with ⟨found, hrounds, hderives⟩ | ⟨hstops, hrange⟩
    · exact .inl ⟨[found], .cons hrounds .nil, .last hderives⟩
    · exact .inr ⟨hstops.items, hrange⟩
  | more first _ ih =>
    rcases first with ⟨found, hrounds, hderives⟩ | ⟨hstops, hrange⟩
    · rcases ih with ⟨others, hothers, hrest⟩ | ⟨hstops, hrange⟩
      · exact .inl ⟨found :: others, .cons hrounds hothers, .more hderives hrest⟩
      · exact .inr ⟨hstops.cons hderives, hrange⟩
    · exact .inr ⟨hstops.items, hrange⟩

theorem reaches_of_members {exact : List (String × Value)}
    (h : TokenList (ReachesMember meaning depth) .objectClose tokens exact rest) :
    (∃ found, List.Forall₂ (RoundsMember meaning) exact found ∧
        DerivesMembers depth tokens found rest) ∨
      (StopsMembers depth tokens ∧ HasOutOfRange meaning) := by
  induction h with
  | close => exact .inl ⟨[], .nil, .close⟩
  | last first =>
    rcases first with ⟨found, hrounds, ⟨hderives⟩⟩ | ⟨hstops, hrange⟩
    · exact .inl ⟨[_], .cons hrounds .nil, .last hderives⟩
    · exact .inr ⟨hstops.members, hrange⟩
  | more first _ ih =>
    rcases first with ⟨found, hrounds, hderives⟩ | ⟨hstops, hrange⟩
    · rcases ih with ⟨others, hothers, hrest⟩ | ⟨hstops, hrange⟩
      · obtain ⟨hfirst⟩ := hderives
        exact .inl ⟨_ :: others, .cons hrounds hothers, .more hfirst hrest⟩
      · exact .inr ⟨hstops.cons hderives, hrange⟩
    · exact .inr ⟨hstops.members, hrange⟩

theorem reaches_scalar : Reads (Scalar meaning) (Reaches meaning depth) := by
  intro word exact h rest hends
  -- Only a number is not read as it is.
  have hread {value : Value} (hscalar : Scalar Numeral.Denotes word value)
      (hrounds : Rounds meaning value value) :
      Reaches meaning depth (ofChars (word ++ rest)) value (ofChars rest) :=
    .inl ⟨value, hrounds, reads_scalar hscalar hends⟩
  cases h with
  | null => exact hread .null .null
  | true => exact hread .true (.boolean true)
  | false => exact hread .false (.boolean false)
  | string h => exact hread (.string h) (.string _)
  | @number _ n exact h hmeaning =>
    by_cases hnumber : ∃ found, n.Denotes found
    · obtain ⟨found, hfound⟩ := hnumber
      exact .inl ⟨.number found, .number hmeaning hfound, reads_scalar (.number h hfound) hends⟩
    · have hnone : ∀ found, ¬ n.Denotes found := fun found hfound => hnumber ⟨found, hfound⟩
      obtain ⟨place, htokens⟩ := Token.exists_ofChars_eq_broken h hnone hends
      rw [htokens]
      exact .inr ⟨stops_broken depth place, n, exact, hmeaning, hnone⟩

theorem reaches_member {Inner : List Char → Value → Prop}
    (reads : Reads Inner (Reaches meaning depth)) :
    Reads (Member Inner) (ReachesMember meaning depth) := by
  intro text member h rest hends
  obtain ⟨word, hvalue, htokens⟩ := exists_of_member h rest
  rw [htokens]
  rcases reads hvalue hends with ⟨found, hrounds, hderives⟩ | ⟨hstops, hrange⟩
  · exact .inl ⟨(member.1, found), .mk hrounds, .mk hderives⟩
  · exact .inr ⟨.mk hstops, hrange⟩

theorem reaches_nested {Inner : List Char → Value → Prop}
    (reads : Reads Inner (Reaches meaning depth)) :
    Reads (Nested Inner) (Reaches meaning (depth + 1)) := by
  intro word exact h rest _
  cases h with
  | array h =>
    have hlist := reads.padded.listed (c := ']') rfl (fun _ => ⟨rfl, by decide, rfl⟩) h rest
    rw [List.cons_append, List.append_assoc, Token.ofChars_punctuation (c := '[') rfl]
    rcases reaches_of_items hlist with ⟨found, hrounds, hderives⟩ | ⟨hstops, hrange⟩
    · exact .inl ⟨.array found, .array hrounds, .array hderives⟩
    · exact .inr ⟨hstops.array, hrange⟩
  | object h hfields =>
    have hlist := (reaches_member reads).padded.listed (c := '\x7d') rfl
      (fun _ => ⟨rfl, by decide, rfl⟩) h rest
    rw [List.cons_append, List.append_assoc, Token.ofChars_punctuation (c := '\x7b') rfl,
      OrderedMap.collects_iff.mp hfields]
    rcases reaches_of_members hlist with ⟨found, hrounds, hderives⟩ | ⟨hstops, hrange⟩
    · exact .inl ⟨_, .object (rounds_ofPairs hrounds), .object hderives⟩
    · exact .inr ⟨hstops.object, hrange⟩

/-- **What is spelled is reached**, by induction on the depth. -/
theorem reaches_spells (depth : Nat) : Reads (Spells meaning depth) (Reaches meaning depth) := by
  induction depth with
  | zero => exact reaches_scalar
  | succ depth ih =>
    intro word exact h rest hends
    rcases h with hscalar | hnested
    · exact reaches_scalar hscalar hends
    · exact reaches_nested ih hnested hends

/-! ## §4 Whole texts -/

theorem reaches_enclosed {text : List Char} {exact : Value}
    (h : Enclosed meaning depth text exact) : Reaches meaning depth (ofChars text) exact [] := by
  obtain ⟨hbefore, hword, hafter⟩ := h
  have hreached := reaches_spells depth hword hafter.ends
  rwa [Token.ofChars_eq_nil_iff.mpr hafter, ← Token.ofChars_gap hbefore] at hreached

/-- A byte-order mark is the one that may stand before the value. -/
theorem dropByteOrderMark_of_reaches {text : List Char} {exact : Value}
    (h : Reaches meaning depth (ofChars text) exact []) : dropByteOrderMark text = text := by
  unfold dropByteOrderMark
  split
  next rest =>
    have hstray : ofChars ('\ufeff' :: rest) = [.stray] := by
      rw [Token.ofChars_cons rest rfl (by decide)]
      exact congrArg (List.cons _) Token.ofChars_nil
    rw [hstray] at h
    rcases h with ⟨found, -, hderives⟩ | ⟨⟨place, hstops⟩, -⟩
    · cases hderives
    · cases hstops 2 (Nat.le_refl 2)
  next => rfl

theorem enclosed_of_document {text : List Char} {exact : Value}
    (h : Document meaning text exact) : Enclosed meaning 127 (dropByteOrderMark text) exact := by
  cases h with
  | plain h => rwa [dropByteOrderMark_of_reaches (reaches_enclosed h)]
  | marked h => exact h

/-- **Documents of other numbers**: the text is read as the document with every number replaced by
one that a numeral of its meaning denotes, unless some numeral is out of range. -/
theorem parse_of_document {text : String} {exact : Value}
    (h : Document meaning text.toList exact) :
    (∃ found, parse text = .ok found ∧ Rounds meaning exact found) ∨
      ((∃ position, parse text = .error ⟨.numberOutOfRange, position⟩) ∧
        HasOutOfRange meaning) := by
  rcases reaches_enclosed (enclosed_of_document h) with
    ⟨found, hrounds, hderives⟩ | ⟨⟨place, hstops⟩, hrange⟩
  · exact .inl ⟨found, parse_eq_ok_iff.mpr hderives, hrounds⟩
  · refine .inr ⟨?_, hrange⟩
    have hfailure : ofTokens (ofChars (dropByteOrderMark text.toList)) =
        .error (.broken ⟨.numberOutOfRange, place⟩) := by
      rw [ofTokens, depthLimit, hstops _ (Nat.le_add_right _ _)]
    rw [ofChars] at hfailure
    exact ⟨_, by simp only [parse, hfailure]; rfl⟩

end Value

end TypedSettings

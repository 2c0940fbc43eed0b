import Mathlib
import TypedSettings.Document.Parser

/-!
# Derivations of documents

Which tokens spell a document, said without fuel and without failures: a value is one token, or an
opening bracket followed by its items or members. Reading tokens succeeds exactly along these rules,
so what a reader guarantees is proved by induction on a derivation, and that it accepts a text is
proved by giving one.

Main facts:
- `Value.Derives`, `Value.DerivesItems`, `Value.DerivesMembers`: the rules
- `Value.parseValue_eq_ok_iff`: with enough fuel, reading finds exactly what can be derived
- `Value.parse_eq_ok_iff`: the same for whole texts
- `Value.TokenList`: items and members are derived alike
-/

namespace TypedSettings

namespace Value

/-! ## §1 Rules -/

mutual

/-- `Derives depth tokens value rest`: the tokens start with a value that holds at most `depth`
levels of arrays and objects, and `rest` follows it. -/
inductive Derives : Nat → List Token → Value → List Token → Prop where
  | null {depth : Nat} {rest : List Token} : Derives depth (.null :: rest) .null rest
  | boolean {depth : Nat} {rest : List Token} (b : Bool) :
      Derives depth (.boolean b :: rest) (.boolean b) rest
  | number {depth : Nat} {rest : List Token} (n : Number) :
      Derives depth (.number n :: rest) (.number n) rest
  | string {depth : Nat} {rest : List Token} (text : String) :
      Derives depth (.string text :: rest) (.string text) rest
  | array {depth : Nat} {tokens rest : List Token} {items : List Value}
      (inner : DerivesItems depth tokens items rest) :
      Derives (depth + 1) (.listOpen :: tokens) (.array items) rest
  /-- Of members that repeat a key the first gives the position and the last the value. -/
  | object {depth : Nat} {tokens rest : List Token} {members : List (String × Value)}
      (inner : DerivesMembers depth tokens members rest) :
      Derives (depth + 1) (.objectOpen :: tokens) (.object (OrderedMap.ofPairs members)) rest

/-- The items of an array up to its closing bracket, which may follow a comma. -/
inductive DerivesItems : Nat → List Token → List Value → List Token → Prop where
  | close {depth : Nat} {rest : List Token} : DerivesItems depth (.listClose :: rest) [] rest
  | last {depth : Nat} {tokens rest : List Token} {item : Value}
      (first : Derives depth tokens item (.listClose :: rest)) :
      DerivesItems depth tokens [item] rest
  | more {depth : Nat} {tokens middle rest : List Token} {item : Value} {items : List Value}
      (first : Derives depth tokens item (.comma :: middle))
      (others : DerivesItems depth middle items rest) :
      DerivesItems depth tokens (item :: items) rest

/-- The members of an object up to its closing brace, which may follow a comma. -/
inductive DerivesMembers : Nat → List Token → List (String × Value) → List Token → Prop where
  | close {depth : Nat} {rest : List Token} : DerivesMembers depth (.objectClose :: rest) [] rest
  | last {depth : Nat} {tokens rest : List Token} {key : String} {value : Value}
      (first : Derives depth tokens value (.objectClose :: rest)) :
      DerivesMembers depth (.string key :: .colon :: tokens) [(key, value)] rest
  | more {depth : Nat} {tokens middle rest : List Token} {key : String} {value : Value}
      {members : List (String × Value)}
      (first : Derives depth tokens value (.comma :: middle))
      (others : DerivesMembers depth middle members rest) :
      DerivesMembers depth (.string key :: .colon :: tokens) ((key, value) :: members) rest

end

mutual

/-- A value takes up one token at least. -/
theorem Derives.length_lt {depth : Nat} {tokens rest : List Token} {value : Value} :
    Derives depth tokens value rest → rest.length < tokens.length
  | .null | .boolean _ | .number _ | .string _ => by simp
  | .array inner => by
    have := inner.length_lt
    simp only [List.length_cons]
    omega
  | .object inner => by
    have := inner.length_lt
    simp only [List.length_cons]
    omega

theorem DerivesItems.length_lt {depth : Nat} {tokens rest : List Token} {items : List Value} :
    DerivesItems depth tokens items rest → rest.length < tokens.length
  | .close => by simp
  | .last first => by
    have := first.length_lt
    simp only [List.length_cons] at this
    omega
  | .more first others => by
    have hfirst := first.length_lt
    have hothers := others.length_lt
    simp only [List.length_cons] at hfirst
    omega

theorem DerivesMembers.length_lt {depth : Nat} {tokens rest : List Token}
    {members : List (String × Value)} :
    DerivesMembers depth tokens members rest → rest.length < tokens.length
  | .close => by simp
  | .last first => by
    have := first.length_lt
    simp only [List.length_cons] at this ⊢
    omega
  | .more first others => by
    have hfirst := first.length_lt
    have hothers := others.length_lt
    simp only [List.length_cons] at hfirst ⊢
    omega

end

/-! ## §2 What is read can be derived

By induction on the fuel that values, items and members share. -/

mutual

/-- A value is told by its first token. -/
theorem derives_of_parseValue {fuel depth : Nat} {tokens rest : List Token} {value : Value}
    (h : parseValue fuel depth tokens = .ok (value, rest)) : Derives depth tokens value rest := by
  match fuel with
  | 0 => simp [parseValue] at h
  | fuel + 1 =>
    unfold parseValue at h
    split at h
    next =>
      cases h
      exact .null
    next b _ =>
      cases h
      exact .boolean b
    next n _ =>
      cases h
      exact .number n
    next text _ =>
      cases h
      exact .string text
    next =>
      split at h
      next => cases h
      next =>
        split at h
        next => cases h
        next hinner =>
          cases h
          exact .array (derives_of_parseItems hinner)
    next =>
      split at h
      next => cases h
      next =>
        split at h
        next => cases h
        next hinner =>
          cases h
          exact .object (derives_of_parseMembers hinner)
    -- A broken piece or any other token begins no value.
    next => cases h
    next => cases h
    next => cases h

/-- The bracket closes at once, after the first item, or after more of them. -/
theorem derives_of_parseItems {fuel depth : Nat} {tokens rest : List Token} {items : List Value}
    (h : parseItems fuel depth tokens = .ok (items, rest)) :
    DerivesItems depth tokens items rest := by
  match fuel with
  | 0 => simp [parseItems] at h
  | fuel + 1 =>
    unfold parseItems at h
    split at h
    next => cases h
    next =>
      cases h
      exact .close
    next =>
      split at h
      next => cases h
      next hfirst =>
        cases h
        exact .last (derives_of_parseValue hfirst)
      next hfirst =>
        split at h
        next => cases h
        next hothers =>
          cases h
          exact .more (derives_of_parseValue hfirst) (derives_of_parseItems hothers)
      next => cases h

theorem derives_of_parseMembers {fuel depth : Nat} {tokens rest : List Token}
    {members : List (String × Value)}
    (h : parseMembers fuel depth tokens = .ok (members, rest)) :
    DerivesMembers depth tokens members rest := by
  match fuel with
  | 0 => simp [parseMembers] at h
  | fuel + 1 =>
    unfold parseMembers at h
    split at h
    next =>
      cases h
      exact .close
    next =>
      split at h
      next => cases h
      next hfirst =>
        cases h
        exact .last (derives_of_parseValue hfirst)
      next hfirst =>
        split at h
        next => cases h
        next hothers =>
          cases h
          exact .more (derives_of_parseValue hfirst) (derives_of_parseMembers hothers)
      next => cases h
    next => cases h
    next => cases h
    next => cases h

end

/-! ## §3 What can be derived is read

A level of brackets costs two units of fuel, one for the brackets and one for the list between
them, and takes up two tokens at least. -/

/-- An item may begin here: neither has the text ended, nor does the bracket close. -/
def BeginsItem : List Token → Prop
  | [] => False
  | .listClose :: _ => False
  | _ => True

theorem Derives.beginsItem {depth : Nat} {tokens rest : List Token} {value : Value}
    (h : Derives depth tokens value rest) : BeginsItem tokens := by
  cases h <;> trivial

/-- Items are read value by value unless the bracket closes at once. -/
theorem parseItems_of_beginsItem {depth fuel : Nat} {tokens : List Token} (h : BeginsItem tokens) :
    parseItems (fuel + 1) depth tokens =
      match parseValue fuel depth tokens with
      | .error e => .error e
      | .ok (item, .listClose :: rest) => .ok ([item], rest)
      | .ok (item, .comma :: rest) =>
        match parseItems fuel depth rest with
        | .error e => .error e
        | .ok (items, rest) => .ok (item :: items, rest)
      | .ok (_, rest) => .error (.facing .endOfList .expectedListSeparator rest) := by
  match tokens with
  | [] => exact h.elim
  | token :: rest => cases token <;> first | rfl | exact h.elim

mutual

theorem Derives.parseValue_eq {depth : Nat} {tokens rest : List Token} {value : Value} {fuel : Nat}
    (h : Derives depth tokens value rest) (enough : 2 * tokens.length ≤ fuel) :
    parseValue fuel depth tokens = .ok (value, rest) := by
  -- A derivation takes up a token, so there is fuel for it.
  obtain ⟨fuel, rfl⟩ : ∃ n, fuel = n + 1 :=
    Nat.exists_eq_add_one_of_ne_zero (by have := h.length_lt; omega)
  match h with
  | .null => rfl
  | .boolean _ => rfl
  | .number _ => rfl
  | .string _ => rfl
  | .array inner =>
    simp only [List.length_cons] at enough
    have hinner : parseItems fuel _ _ = .ok _ := inner.parseItems_eq (by omega)
    simp only [parseValue, hinner]
  | .object inner =>
    simp only [List.length_cons] at enough
    have hinner : parseMembers fuel _ _ = .ok _ := inner.parseMembers_eq (by omega)
    simp only [parseValue, hinner]

theorem DerivesItems.parseItems_eq {depth : Nat} {tokens rest : List Token} {items : List Value}
    {fuel : Nat} (h : DerivesItems depth tokens items rest)
    (enough : 2 * tokens.length + 1 ≤ fuel) :
    parseItems fuel depth tokens = .ok (items, rest) := by
  obtain ⟨fuel, rfl⟩ : ∃ n, fuel = n + 1 := Nat.exists_eq_add_one_of_ne_zero (by omega)
  match h with
  | .close => rfl
  | .last first =>
    have hfirst : parseValue fuel _ _ = .ok _ := first.parseValue_eq (by omega)
    simp only [parseItems_of_beginsItem first.beginsItem, hfirst]
  | .more first others =>
    have hfirst : parseValue fuel _ _ = .ok _ := first.parseValue_eq (by omega)
    -- What follows the first item is shorter by more than the one unit of fuel it has less.
    have hshort := first.length_lt
    simp only [List.length_cons] at hshort
    have hothers : parseItems fuel _ _ = .ok _ := others.parseItems_eq (by omega)
    simp only [parseItems_of_beginsItem first.beginsItem, hfirst, hothers]

theorem DerivesMembers.parseMembers_eq {depth : Nat} {tokens rest : List Token}
    {members : List (String × Value)} {fuel : Nat} (h : DerivesMembers depth tokens members rest)
    (enough : 2 * tokens.length + 1 ≤ fuel) :
    parseMembers fuel depth tokens = .ok (members, rest) := by
  obtain ⟨fuel, rfl⟩ : ∃ n, fuel = n + 1 := Nat.exists_eq_add_one_of_ne_zero (by omega)
  match h with
  | .close => rfl
  | .last first =>
    simp only [List.length_cons] at enough
    have hfirst : parseValue fuel _ _ = .ok _ := first.parseValue_eq (by omega)
    simp only [parseMembers, hfirst]
  | .more first others =>
    simp only [List.length_cons] at enough
    have hfirst : parseValue fuel _ _ = .ok _ := first.parseValue_eq (by omega)
    have hshort := first.length_lt
    simp only [List.length_cons] at hshort
    have hothers : parseMembers fuel _ _ = .ok _ := others.parseMembers_eq (by omega)
    simp only [parseMembers, hfirst, hothers]

end

/-- **Reading is deriving**: a reader with enough fuel finds exactly the values that can be
derived. -/
theorem parseValue_eq_ok_iff {depth fuel : Nat} {tokens rest : List Token} {value : Value}
    (enough : 2 * tokens.length ≤ fuel) :
    parseValue fuel depth tokens = .ok (value, rest) ↔ Derives depth tokens value rest :=
  ⟨derives_of_parseValue, fun h => h.parseValue_eq enough⟩

/-- The tokens spell a document exactly if it can be derived from all of them. -/
theorem ofTokens_eq_ok_iff {tokens : List Token} {value : Value} :
    ofTokens tokens = .ok value ↔ Derives depthLimit tokens value [] := by
  have enough : 2 * tokens.length ≤ 2 * tokens.length + 2 := by omega
  rw [← parseValue_eq_ok_iff enough]
  unfold ofTokens
  split
  next h => simp [h]
  next v h => simp [h]
  next v rest hrest h =>
    -- Tokens are left, so this is no derivation of all of them.
    rw [h]
    refine ⟨nofun, fun heq => ?_⟩
    simp only [Except.ok.injEq, Prod.mk.injEq] at heq
    exact absurd heq.2 hrest

/-- A text is read as a document exactly if the document can be derived from its tokens. -/
theorem parse_eq_ok_iff {text : String} {value : Value} :
    parse text = .ok value ↔
      Derives depthLimit ((Token.scanAll (dropByteOrderMark text.toList)).map Prod.fst)
        value [] := by
  rw [← ofTokens_eq_ok_iff]
  simp only [parse]
  split
  next v h => simp [h]
  next failure h => simp [h]

/-! ## §4 Lists of tokens

Arrays and objects differ in their elements and brackets only, so what holds of both is said of one
kind of list. -/

/-- Elements up to a closing bracket, which may follow a comma. -/
inductive TokenList {α : Type} (Element : List Token → α → List Token → Prop) (close : Token) :
    List Token → List α → List Token → Prop where
  | close {rest : List Token} : TokenList Element close (close :: rest) [] rest
  | last {tokens rest : List Token} {x : α} (first : Element tokens x (close :: rest)) :
      TokenList Element close tokens [x] rest
  | more {tokens middle rest : List Token} {x : α} {xs : List α}
      (first : Element tokens x (.comma :: middle))
      (others : TokenList Element close middle xs rest) :
      TokenList Element close tokens (x :: xs) rest

/-- A key, a colon and a value. -/
inductive DerivesMember (depth : Nat) : List Token → String × Value → List Token → Prop where
  | mk {tokens rest : List Token} {key : String} {value : Value}
      (h : Derives depth tokens value rest) :
      DerivesMember depth (.string key :: .colon :: tokens) (key, value) rest

theorem DerivesItems.tokenList {depth : Nat} {tokens rest : List Token} {items : List Value} :
    DerivesItems depth tokens items rest → TokenList (Derives depth) .listClose tokens items rest
  | .close => .close
  | .last first => .last first
  | .more first others => .more first others.tokenList

theorem DerivesMembers.tokenList {depth : Nat} {tokens rest : List Token}
    {members : List (String × Value)} :
    DerivesMembers depth tokens members rest →
      TokenList (DerivesMember depth) .objectClose tokens members rest
  | .close => .close
  | .last first => .last (.mk first)
  | .more first others => .more (.mk first) others.tokenList

theorem TokenList.derivesItems {depth : Nat} {tokens rest : List Token} {items : List Value}
    (h : TokenList (Derives depth) .listClose tokens items rest) :
    DerivesItems depth tokens items rest := by
  induction h with
  | close => exact .close
  | last first => exact .last first
  | more first _ ih => exact .more first ih

theorem TokenList.derivesMembers {depth : Nat} {tokens rest : List Token}
    {members : List (String × Value)}
    (h : TokenList (DerivesMember depth) .objectClose tokens members rest) :
    DerivesMembers depth tokens members rest := by
  induction h with
  | close => exact .close
  | last first =>
    cases first with
    | mk h => exact .last h
  | more first _ ih =>
    cases first with
    | mk h => exact .more h ih

end Value

end TypedSettings

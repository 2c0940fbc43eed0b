import TypedSettings.Document.Token
import TypedSettings.Document.Value

/-!
# Spelled documents

A text can be a document to the eye and yet denote none: a numeral may lie beyond all numbers, and
an escape may name half a character. A spelled document keeps such pieces, and members that repeat
a key, so that a reader who has no use for them can pass over them. Texts that are exchanged between
programs are read this way; they have neither comments nor trailing commas.

## Main definitions

* `Spelled.parse?` — the spelled document of a text
* `Spelled.value?` — the document that it denotes
* `Spelled.ofValue` — the spelling of a document
-/

namespace TypedSettings

/-- A document as it is spelled. -/
inductive Spelled where
  /-- A piece without parts; `none` if it denotes nothing. -/
  | leaf (value : Option Value)
  | array (items : List Spelled)
  | object (members : List (Option String × Spelled))
  deriving Repr, Inhabited

namespace Spelled

/-! ## §1 Reading -/

/-- Drops blanks. -/
def skipBlanks (text : List Char) : List Char := text.dropWhile Filler.isBlank

/-- A string after its opening mark; `none` in place of its text if that is no text. -/
def scanText? (text : List Char) : Option (Option String × List Char) :=
  match Quoted.scanBody text with
  | .ok (body, rest) => some (some (String.ofList body), rest)
  | .error _ => (Quoted.afterBody? text).map (none, ·)

/-- A word that stands for a value. -/
def scanWord? (word : List Char) (value : Value) (text : List Char) :
    Option (Spelled × List Char) :=
  match Token.scanWord word text with
  | .ok rest => some (.leaf (some value), rest)
  | .error _ => none

/-- A piece without parts, given its first character and the text after that. -/
def scanLeaf? (c : Char) (rest : List Char) : Option (Spelled × List Char) :=
  if c = 'n' then scanWord? ['u', 'l', 'l'] .null rest
  else if c = 't' then scanWord? ['r', 'u', 'e'] (.boolean true) rest
  else if c = 'f' then scanWord? ['a', 'l', 's', 'e'] (.boolean false) rest
  else if c = '"' then
    (scanText? rest).map fun (text, rest) => (.leaf (text.map .string), rest)
  else if c = '-' ∨ c.isDigit then
    match Numeral.scanSpelling (c :: rest) with
    | .ok (numeral, _, rest) => some (.leaf (numeral.evaluate.toOption.map .number), rest)
    | .error _ => none
  else none

mutual

/-- The spelled document at the start of a text; `fuel` exceeds twice the length of the text. -/
def scan? : (fuel : Nat) → List Char → Option (Spelled × List Char)
  | 0, _ => none
  | fuel + 1, text =>
    match skipBlanks text with
    | [] => none
    | c :: rest =>
      if c = '[' then
        match skipBlanks rest with
        | ']' :: rest => some (.array [], rest)
        | rest => (scanItems? fuel rest).map fun (items, rest) => (.array items, rest)
      else if c = '\x7b' then
        match skipBlanks rest with
        | '\x7d' :: rest => some (.object [], rest)
        | rest => (scanMembers? fuel rest).map fun (members, rest) => (.object members, rest)
      else scanLeaf? c rest

/-- The items of an array, at least one, and its closing bracket. -/
def scanItems? : (fuel : Nat) → List Char → Option (List Spelled × List Char)
  | 0, _ => none
  | fuel + 1, text =>
    match scan? fuel text with
    | none => none
    | some (item, rest) =>
      match skipBlanks rest with
      | ']' :: rest => some ([item], rest)
      | ',' :: rest => (scanItems? fuel rest).map fun (items, rest) => (item :: items, rest)
      | _ => none

/-- The members of an object, at least one, and its closing brace. -/
def scanMembers? : (fuel : Nat) → List Char → Option (List (Option String × Spelled) × List Char)
  | 0, _ => none
  | fuel + 1, text =>
    match skipBlanks text with
    | '"' :: rest =>
      match scanText? rest with
      | none => none
      | some (key, rest) =>
        match skipBlanks rest with
        | ':' :: rest =>
          match scan? fuel rest with
          | none => none
          | some (value, rest) =>
            match skipBlanks rest with
            | '\x7d' :: rest => some ([(key, value)], rest)
            | ',' :: rest =>
              (scanMembers? fuel rest).map fun (members, rest) => ((key, value) :: members, rest)
            | _ => none
        | _ => none
    | _ => none

end

/-- The spelled document of a whole text. -/
def parse? (text : String) : Option Spelled :=
  let chars := text.toList
  match scan? (2 * chars.length + 2) chars with
  | some (spelled, rest) => if (skipBlanks rest).isEmpty then some spelled else none
  | none => none

/-! ## §2 Meaning -/

mutual

/-- The document that is spelled, if every piece denotes something and no more than `depth` arrays
and objects lie inside each other. Of members that repeat a key the first keeps its position and the
last its value. -/
def value? : (depth : Nat) → Spelled → Option Value
  | _, .leaf value => value
  | depth + 1, .array items => (valuesOf? depth items).map .array
  | depth + 1, .object members =>
    (pairsOf? depth members).map fun pairs => .object (OrderedMap.ofPairs pairs)
  | 0, _ => none

/-- The documents that items spell. -/
def valuesOf? (depth : Nat) : List Spelled → Option (List Value)
  | [] => some []
  | item :: rest =>
    match value? depth item, valuesOf? depth rest with
    | some value, some values => some (value :: values)
    | _, _ => none

/-- The pairs that members spell. -/
def pairsOf? (depth : Nat) : List (Option String × Spelled) → Option (List (String × Value))
  | [] => some []
  | (key, item) :: rest =>
    match key, value? depth item, pairsOf? depth rest with
    | some key, some value, some pairs => some ((key, value) :: pairs)
    | _, _, _ => none

end

mutual

/-- The spelling of a document. -/
def ofValue : Value → Spelled
  | .array items => .array (ofItems items)
  | .object members => .object (ofMembers members)
  | value => .leaf (some value)

/-- The spellings of items. -/
def ofItems : List Value → List Spelled
  | [] => []
  | item :: rest => ofValue item :: ofItems rest

/-- The spellings of members. -/
def ofMembers : List (String × Value) → List (Option String × Spelled)
  | [] => []
  | (key, value) :: rest => (some key, ofValue value) :: ofMembers rest

end

end Spelled

end TypedSettings

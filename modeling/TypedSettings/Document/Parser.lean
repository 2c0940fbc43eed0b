import TypedSettings.Document.Token
import TypedSettings.Document.Value

/-!
# Reading documents

A document is read from its tokens by recursive descent. Every failure is told by what remains of
the tokens; the place in the text is looked up afterwards, so reading depends on the tokens alone
and not on where they stand. In a settings text a repeated key keeps the position of its first
occurrence and the value of its last one.

## Main definitions

* `Value.ofTokens` — the document that a list of tokens spells
* `Value.parse` — the document of a settings text, or the first error and its position
-/

namespace TypedSettings

/-- Why tokens do not spell a document. -/
inductive ParseFailure where
  /-- The first of the `remaining` last tokens, or the end, is not what should come next. -/
  | unexpected (cause : SyntaxCause) (remaining : Nat)
  /-- A broken piece stands where it would have been wanted whole. -/
  | broken (error : LocalError)
  deriving DecidableEq, Repr

namespace ParseFailure

/-- What is wrong where the text may have ended too early; broken filler is an error everywhere. -/
def facing (atEnd other : SyntaxCause) : List Token → ParseFailure
  | [] => .unexpected atEnd 0
  | .broken .filler e :: _ => .broken e
  | tokens => .unexpected other tokens.length

/-- The place of a failure in a text with these tokens. -/
def locate (tokens : List (Token × List Char)) : ParseFailure → LocalError
  | .broken e => e
  | .unexpected cause remaining =>
    match tokens.drop (tokens.length - remaining) with
    | [] => ⟨cause, .atEnd⟩
    | (_, text) :: _ => ⟨cause, .onto text⟩

end ParseFailure

namespace Value

/-- How many arrays and objects may lie inside each other. -/
def depthLimit : Nat := 127

mutual

/-- The value at the start of the tokens, and the tokens after it. `depth` levels may still be
entered; `fuel` bounds the recursion and does not run out on lists shorter than half of it. -/
def parseValue : (fuel depth : Nat) → List Token → Except ParseFailure (Value × List Token)
  | 0, _, tokens => .error (.facing .recursionLimit .recursionLimit tokens)
  | fuel + 1, depth, tokens =>
    match tokens with
    | .null :: rest => .ok (.null, rest)
    | .boolean b :: rest => .ok (.boolean b, rest)
    | .number n :: rest => .ok (.number n, rest)
    | .string s :: rest => .ok (.string s, rest)
    | .listOpen :: rest =>
      match depth with
      | 0 => .error (.facing .recursionLimit .recursionLimit tokens)
      | depth + 1 =>
        match parseItems fuel depth rest with
        | .error e => .error e
        | .ok (items, rest) => .ok (.array items, rest)
    | .objectOpen :: rest =>
      match depth with
      | 0 => .error (.facing .recursionLimit .recursionLimit tokens)
      | depth + 1 =>
        match parseMembers fuel depth rest with
        | .error e => .error e
        | .ok (members, rest) => .ok (.object (OrderedMap.ofPairs members), rest)
    -- A piece that a value may begin with is reported for what is wrong inside it.
    | .broken .scalar e :: _ => .error (.broken e)
    | .broken .string e :: _ => .error (.broken e)
    | tokens => .error (.facing .endOfValue .expectedValue tokens)

/-- The items up to the closing bracket, which may come at once, also after a comma. -/
def parseItems : (fuel depth : Nat) → List Token → Except ParseFailure (List Value × List Token)
  | 0, _, tokens => .error (.facing .recursionLimit .recursionLimit tokens)
  | fuel + 1, depth, tokens =>
    match tokens with
    -- A text that ends here lacks the rest of the list; anything else that does not fit is no item.
    | [] => .error (.facing .endOfList .endOfList [])
    | .listClose :: rest => .ok ([], rest)
    | tokens =>
      match parseValue fuel depth tokens with
      | .error e => .error e
      | .ok (item, .listClose :: rest) => .ok ([item], rest)
      | .ok (item, .comma :: rest) =>
        match parseItems fuel depth rest with
        | .error e => .error e
        | .ok (items, rest) => .ok (item :: items, rest)
      | .ok (_, rest) => .error (.facing .endOfList .expectedListSeparator rest)

/-- The members up to the closing brace, which may come at once, also after a comma. -/
def parseMembers :
    (fuel depth : Nat) → List Token → Except ParseFailure (List (String × Value) × List Token)
  | 0, _, tokens => .error (.facing .recursionLimit .recursionLimit tokens)
  | fuel + 1, depth, tokens =>
    match tokens with
    | .objectClose :: rest => .ok ([], rest)
    | .string key :: .colon :: rest =>
      match parseValue fuel depth rest with
      | .error e => .error e
      | .ok (value, .objectClose :: rest) => .ok ([(key, value)], rest)
      | .ok (value, .comma :: rest) =>
        match parseMembers fuel depth rest with
        | .error e => .error e
        | .ok (members, rest) => .ok ((key, value) :: members, rest)
      | .ok (_, rest) => .error (.facing .endOfObject .expectedObjectSeparator rest)
    | .string _ :: rest => .error (.facing .endOfObject .expectedColon rest)
    -- Only a string can be meant as a key; other broken pieces are no keys in the first place.
    | .broken .string e :: _ => .error (.broken e)
    | tokens => .error (.facing .endOfObject .keyNotString tokens)

end

/-- The document that the tokens spell from the first to the last. -/
def ofTokens (tokens : List Token) : Except ParseFailure Value :=
  match parseValue (2 * tokens.length + 2) depthLimit tokens with
  | .error e => .error e
  | .ok (value, []) => .ok value
  | .ok (_, rest) => .error (.facing .trailingCharacters .trailingCharacters rest)

/-- Removes one byte-order mark from the start of a text. -/
def dropByteOrderMark : List Char → List Char
  | '\ufeff' :: rest => rest
  | text => text

/-- The document of a settings text. -/
def parse (text : String) : Except SyntaxError Value :=
  let chars := dropByteOrderMark text.toList
  let tokens := Token.scanAll chars
  match ofTokens (tokens.map Prod.fst) with
  | .ok value => .ok value
  | .error failure => .error (.ofLocal chars (failure.locate tokens))

end Value

end TypedSettings

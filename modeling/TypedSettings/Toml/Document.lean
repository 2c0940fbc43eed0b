import TypedSettings.Toml.Quoted
import TypedSettings.Toml.Scalar
import TypedSettings.Toml.Table

/-!
# Documents of TOML

Reading a whole document: comments, key-value pairs and headers, one statement per line. A document
is valid as a whole or not at all.
-/

namespace TypedSettings.Toml

/-! ## §1 Values -/

/-- Drops a comment up to the end of its line. -/
def skipComment : List Char → List Char
  | '#' :: rest => rest.dropWhile isPlain
  | text => text

/-- Drops blanks, line breaks and comments; `fuel` exceeds the number of comments. -/
def skipFiller : (fuel : Nat) → List Char → Option (List Char)
  | 0, _ => none
  | fuel + 1, text =>
    match skipBlankLines text with
    | '#' :: rest =>
      match rest.dropWhile isPlain with
      | [] => some []
      | rest => (lineBreak? rest).bind (skipFiller fuel)
    | rest => some rest

/-- How deep values may lie inside each other, and how many keys may be joined. -/
def depthLimit : Nat := 79

mutual

/-- A value; `fuel` exceeds twice the length of the text. -/
def scanValue? : (fuel depth : Nat) → List Char → Option (Item × List Char)
  | 0, _, _ => none
  | fuel + 1, depth, text =>
    match text with
    | [] => none
    | c :: rest =>
      if c = '"' ∨ c = '\'' then
        (scanString? text).map fun (body, rest) => (.text (String.ofList body), rest)
      else if c = '[' then
        match depth with
        | 0 => none
        | depth + 1 => (scanItems? fuel depth rest).map fun (items, rest) => (.array items, rest)
      else if c = '\x7b' then
        match depth with
        | 0 => none
        | depth + 1 =>
          match skipBlanks rest with
          | '\x7d' :: rest => some (.table .inlined [], rest)
          | rest =>
            (scanPairs? fuel depth [] rest).map fun (entries, rest) =>
              (.table .inlined entries, rest)
      else
        let (word, rest) := scanWord text
        if isScalar word then some (.scalar, rest) else none

/-- The items of an array and its closing bracket. -/
def scanItems? : (fuel depth : Nat) → List Char → Option (List Item × List Char)
  | 0, _, _ => none
  | fuel + 1, depth, text =>
    match skipFiller (text.length + 1) text with
    | none => none
    | some (']' :: rest) => some ([], rest)
    | some text =>
      match scanValue? fuel depth text with
      | none => none
      | some (item, rest) =>
        match skipFiller (rest.length + 1) rest with
        | some (']' :: rest) => some ([item], rest)
        | some (',' :: rest) =>
          (scanItems? fuel depth rest).map fun (items, rest) => (item :: items, rest)
        | _ => none

/-- The pairs of a table in braces and its closing brace. -/
def scanPairs? : (fuel depth : Nat) → Entries → List Char → Option (Entries × List Char)
  | 0, _, _, _ => none
  | fuel + 1, depth, entries, text =>
    match scanKeys? depthLimit text with
    | some (keys, '=' :: rest) =>
      match scanValue? fuel depth (skipBlanks rest) with
      | none => none
      | some (value, rest) =>
        match entries.assign value keys, skipBlanks rest with
        | some entries, '\x7d' :: rest => some (entries, rest)
        | some entries, ',' :: rest => scanPairs? fuel depth entries rest
        | _, _ => none
    | _ => none

end

/-! ## §2 Statements -/

/-- A document that is being built, and the keys of the table that the last header opened. -/
structure Draft where
  root : Entries
  opened : List String

/-- Drops what may follow a statement on its line, and the line break. -/
def endLine? (text : List Char) : Option (List Char) :=
  match skipComment (skipBlanks text) with
  | [] => some []
  | rest => lineBreak? rest

/-- A header of a table, or of an array of tables, given the text after its opening bracket. -/
def scanHeader? (draft : Draft) (text : List Char) : Option (Draft × List Char) :=
  let (isArray, text) := match text with
    | '[' :: rest => (true, rest)
    | rest => (false, rest)
  match scanKeys? depthLimit text with
  | none => none
  | some (keys, rest) =>
    let rest := match isArray, rest with
      | true, ']' :: ']' :: rest => some rest
      | false, ']' :: rest => some rest
      | _, _ => none
    match draft.root.openTable isArray keys, rest with
    | some root, some rest => some (⟨root, keys⟩, rest)
    | _, _ => none

/-- A key-value pair. -/
def scanPair? (draft : Draft) (text : List Char) : Option (Draft × List Char) :=
  match scanKeys? depthLimit text with
  | some (keys, '=' :: rest) =>
    match scanValue? (2 * rest.length + 2) depthLimit (skipBlanks rest) with
    | none => none
    | some (value, rest) =>
      (draft.root.within (·.assign value keys) draft.opened).map fun root =>
        ({ draft with root }, rest)
  | _ => none

/-- A statement, or nothing on a line without one. -/
def scanStatement? (draft : Draft) (text : List Char) : Option (Draft × List Char) :=
  match text with
  | '[' :: rest => scanHeader? draft rest
  | c :: _ =>
    if c = '#' ∨ (lineBreak? text).isSome then some (draft, text) else scanPair? draft text
  | [] => some (draft, [])

/-- The statements of a text, line by line; `fuel` exceeds the number of lines. -/
def scanLinesFrom? : (fuel : Nat) → Draft → List Char → Option Entries
  | 0, _, _ => none
  | fuel + 1, draft, text =>
    match skipBlanks text with
    | [] => some draft.root
    | text =>
      match scanStatement? draft text with
      | none => none
      | some (draft, rest) => (endLine? rest).bind (scanLinesFrom? fuel draft)

/-- The root table of a document. -/
def parse? (text : String) : Option Entries :=
  let chars := match text.toList with
    | '\ufeff' :: rest => rest
    | chars => chars
  scanLinesFrom? (chars.length + 1) ⟨[], []⟩ chars

end TypedSettings.Toml

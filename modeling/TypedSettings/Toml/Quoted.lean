import TypedSettings.Text.Hexadecimal

/-!
# Strings and keys of TOML

The four ways to write a string and the three ways to write a key. Every function takes the text at
which something is expected and returns it with the text after it, or nothing if it is not there.
-/

namespace TypedSettings.Toml

/-! ## §1 Blanks -/

/-- Is the character a blank within a line? -/
def isBlank (c : Char) : Bool := c == ' ' || c == '\t'

/-- Drops blanks. -/
def skipBlanks (text : List Char) : List Char := text.dropWhile isBlank

/-- The text after a line break. -/
def lineBreak? : List Char → Option (List Char)
  | '\n' :: rest => some rest
  | '\r' :: '\n' :: rest => some rest
  | _ => none

/-- May the character stand for itself in a text of one line? -/
def isPlain (c : Char) : Bool := c == '\t' || (' ' ≤ c && c ≠ '\x7f')

/-- Drops blanks and line breaks. -/
def skipBlankLines : List Char → List Char
  | '\r' :: '\n' :: rest => skipBlankLines rest
  | c :: rest => if isBlank c || c == '\n' then skipBlankLines rest else c :: rest
  | [] => []

/-! ## §2 Escapes -/

/-- The number of a fixed count of hexadecimal digits. -/
def scanCode? : (count : Nat) → (value : Nat) → List Char → Option (Nat × List Char)
  | 0, value, text => some (value, text)
  | count + 1, value, c :: rest =>
    match Hexadecimal.value? c with
    | some digit => scanCode? count (value * 16 + digit) rest
    | none => none
  | _ + 1, _, [] => none

/-- The character of a code point of a fixed count of digits. -/
def scanCoded? (count : Nat) (text : List Char) : Option (Char × List Char) :=
  match scanCode? count 0 text with
  | some (code, rest) => if code.isValidChar then some (Char.ofNat code, rest) else none
  | none => none

/-- The character of an escape, given what follows the backslash. -/
def scanEscape? : List Char → Option (Char × List Char)
  | 'b' :: rest => some ('\x08', rest)
  | 't' :: rest => some ('\t', rest)
  | 'n' :: rest => some ('\n', rest)
  | 'f' :: rest => some ('\x0c', rest)
  | 'r' :: rest => some ('\r', rest)
  | '"' :: rest => some ('"', rest)
  | '\\' :: rest => some ('\\', rest)
  | 'u' :: rest => scanCoded? 4 rest
  | 'U' :: rest => scanCoded? 8 rest
  | _ => none

/-- Puts a character in front of a scanned text. -/
def consChar (c : Char) : Option (List Char × List Char) → Option (List Char × List Char) :=
  Option.map fun (body, rest) => (c :: body, rest)

/-! ## §3 Strings -/

/-- The rest of a basic string; `fuel` exceeds the length of the text. -/
def scanBasic? : (fuel : Nat) → List Char → Option (List Char × List Char)
  | 0, _ => none
  | _ + 1, [] => none
  | fuel + 1, c :: rest =>
    if c = '"' then some ([], rest)
    else if c = '\\' then
      match scanEscape? rest with
      | some (escaped, rest) => consChar escaped (scanBasic? fuel rest)
      | none => none
    else if isPlain c then consChar c (scanBasic? fuel rest)
    else none

/-- The rest of a literal string. -/
def scanLiteral? : List Char → Option (List Char × List Char)
  | [] => none
  | c :: rest =>
    if c = '\'' then some ([], rest)
    else if isPlain c then consChar c (scanLiteral? rest)
    else none

/-- The end of a string of several lines at a run of quotation marks: three end it, up to two more
in front of them belong to it. -/
def scanClosing? (mark : Char) (text : List Char) : Option (List Char × List Char) :=
  let run := min 5 (text.takeWhile (· == mark)).length
  if run < 3 then none else some (List.replicate (run - 3) mark, text.drop run)

/-- Does a backslash end the line, so that all blanks up to the next text are left out? -/
def endsLine (text : List Char) : Bool := (lineBreak? (skipBlanks text)).isSome

/-- The rest of a string of several lines; `fuel` exceeds the length of the text. -/
def scanLines? (mark : Char) (escapes : Bool) :
    (fuel : Nat) → List Char → Option (List Char × List Char)
  | 0, _ => none
  | _ + 1, [] => none
  | fuel + 1, c :: rest =>
    match scanClosing? mark (c :: rest) with
    | some closing => some closing
    | none =>
      match lineBreak? (c :: rest) with
      | some rest => consChar '\n' (scanLines? mark escapes fuel rest)
      | none =>
        if c = '\\' ∧ escapes then
          if endsLine rest then scanLines? mark escapes fuel (skipBlankLines rest)
          else match scanEscape? rest with
            | some (escaped, rest) => consChar escaped (scanLines? mark escapes fuel rest)
            | none => none
        else if isPlain c then consChar c (scanLines? mark escapes fuel rest)
        else none

/-- The text after a line break that directly follows an opening mark. -/
def dropFirstBreak (text : List Char) : List Char := (lineBreak? text).getD text

/-- A string of any kind. -/
def scanString? : List Char → Option (List Char × List Char)
  | '"' :: '"' :: '"' :: rest => scanLines? '"' true (rest.length + 1) (dropFirstBreak rest)
  | '\'' :: '\'' :: '\'' :: rest => scanLines? '\'' false (rest.length + 1) (dropFirstBreak rest)
  | '"' :: rest => scanBasic? (rest.length + 1) rest
  | '\'' :: rest => scanLiteral? rest
  | _ => none

/-! ## §4 Keys -/

/-- May the character stand in a bare key? -/
def isBare (c : Char) : Bool := c.isAlphanum || c == '_' || c == '-'

/-- A single key. -/
def scanKey? : List Char → Option (String × List Char)
  | '"' :: rest =>
    (scanBasic? (rest.length + 1) rest).map fun (body, rest) => (String.ofList body, rest)
  | '\'' :: rest => (scanLiteral? rest).map fun (body, rest) => (String.ofList body, rest)
  | text =>
    let name := text.takeWhile isBare
    if name.isEmpty then none else some (String.ofList name, text.dropWhile isBare)

/-- Keys joined by dots, with blanks around them; `fuel` exceeds the number of keys. -/
def scanKeys? : (fuel : Nat) → List Char → Option (List String × List Char)
  | 0, _ => none
  | fuel + 1, text =>
    match scanKey? (skipBlanks text) with
    | none => none
    | some (key, rest) =>
      match skipBlanks rest with
      | '.' :: rest => (scanKeys? fuel rest).map fun (keys, rest) => (key :: keys, rest)
      | rest => some ([key], rest)

end TypedSettings.Toml

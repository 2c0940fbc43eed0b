import TypedSettings.Text.Hexadecimal
import TypedSettings.Text.Unprintable

/-!
# String literals of generated code

A literal stands between quotation marks. Quotation mark, backslash and four control characters have
short escapes, characters without a printed form are written by their code point, and every other
character stands for itself.

## Main definitions

* `Literal.encode` — the literal of a text
* `Literal.decodeBody?` — the text of a literal whose opening mark has been read, and what
  follows it
-/

namespace TypedSettings.Literal

/-- The written form of one character. -/
def encodeChar (c : Char) : List Char :=
  if c = '\x00' then ['\\', '0']
  else if c = '\t' then ['\\', 't']
  else if c = '\n' then ['\\', 'n']
  else if c = '\r' then ['\\', 'r']
  else if c = '"' then ['\\', '"']
  else if c = '\\' then ['\\', '\\']
  else if isUnprintable c then ['\\', 'u', '\x7b'] ++ Hexadecimal.digits c.toNat ++ ['\x7d']
  else [c]

/-- The characters of a literal with its quotation marks. -/
def encodeChars (text : List Char) : List Char := '"' :: text.flatMap encodeChar ++ ['"']

/-- The literal of a text. -/
def encode (text : String) : String := String.ofList (encodeChars text.toList)

/-! ## Reading literals -/

/-- What a reader of a literal has seen last. -/
inductive Mode where
  /-- Nothing that is still open. -/
  | plain
  /-- A backslash. -/
  | escape
  /-- A backslash and `u`. -/
  | brace
  /-- An open code point with this value so far; `none` before its first digit. -/
  | code (value : Option Nat)
  deriving DecidableEq, Repr

/-- The character of a one-letter escape. -/
def shortEscape? (c : Char) : Option Char :=
  if c = '0' then some '\x00'
  else if c = 't' then some '\t'
  else if c = 'n' then some '\n'
  else if c = 'r' then some '\r'
  else if c = '"' then some '"'
  else if c = '\'' then some '\''
  else if c = '\\' then some '\\'
  else none

/-- The character with a code point, if there is one. -/
def charOfCode? (code : Nat) : Option Char :=
  if code.isValidChar then some (Char.ofNat code) else none

/-- The text up to the closing quotation mark, and what follows that. -/
def decodeBody? : Mode → List Char → Option (List Char × List Char)
  | _, [] => none
  | .plain, c :: rest =>
    if c = '"' then some ([], rest)
    else if c = '\\' then decodeBody? .escape rest
    else (decodeBody? .plain rest).map fun (text, left) => (c :: text, left)
  | .escape, c :: rest =>
    if c = 'u' then decodeBody? .brace rest
    else match shortEscape? c with
      | none => none
      | some d => (decodeBody? .plain rest).map fun (text, left) => (d :: text, left)
  | .brace, c :: rest => if c = '\x7b' then decodeBody? (.code none) rest else none
  | .code value, c :: rest =>
    if c = '\x7d' then
      match value.bind charOfCode? with
      | none => none
      | some d => (decodeBody? .plain rest).map fun (text, left) => (d :: text, left)
    else match Hexadecimal.value? c with
      | none => none
      | some digit => decodeBody? (.code (some (value.getD 0 * 16 + digit))) rest

/-- The text of the literal at the start of a text, and what follows it. -/
def decode? : List Char → Option (List Char × List Char)
  | '"' :: rest => decodeBody? .plain rest
  | _ => none

end TypedSettings.Literal

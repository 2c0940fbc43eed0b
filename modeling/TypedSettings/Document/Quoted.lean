import TypedSettings.Text.Hexadecimal

/-!
# Quoted text of documents

Strings are written between quotation marks with as few escapes as the format allows: quotation
mark, backslash and the control characters below U+0020, five of which have short forms.
-/

namespace TypedSettings.Quoted

/-- The written form of one character. -/
def encodeChar (c : Char) : List Char :=
  if c = '"' then ['\\', '"']
  else if c = '\\' then ['\\', '\\']
  else if c = '\x08' then ['\\', 'b']
  else if c = '\x0c' then ['\\', 'f']
  else if c = '\n' then ['\\', 'n']
  else if c = '\r' then ['\\', 'r']
  else if c = '\t' then ['\\', 't']
  else if c.toNat < 0x20 then
    ['\\', 'u', '0', '0', Hexadecimal.digit (c.toNat / 16), Hexadecimal.digit (c.toNat % 16)]
  else [c]

/-- The characters of a string between its quotation marks. -/
def encodeBody (text : List Char) : List Char := text.flatMap encodeChar

/-- A string with its quotation marks. -/
def encode (text : String) : List Char := '"' :: encodeBody text.toList ++ ['"']

end TypedSettings.Quoted

import TypedSettings.Document.Value
import TypedSettings.Document.Quoted

/-!
# Printed documents

The compact form has no blanks at all. The pretty form puts every item and member on a line of its
own, two blanks further in than the bracket that holds it; empty containers stay on one line.
-/

namespace TypedSettings.Value

/-! ## §1 Compact form -/

mutual

/-- The characters of the compact form. -/
def compactChars : Value → List Char
  | .null => ['n', 'u', 'l', 'l']
  | .boolean true => ['t', 'r', 'u', 'e']
  | .boolean false => ['f', 'a', 'l', 's', 'e']
  | .number n => n.toText
  | .string text => Quoted.encode text
  | .array [] => ['[', ']']
  | .array (item :: rest) => '[' :: compactChars item ++ compactItems rest
  | .object [] => ['\x7b', '\x7d']
  | .object ((key, value) :: rest) =>
    '\x7b' :: Quoted.encode key ++ ':' :: compactChars value ++ compactMembers rest

/-- The items after the first one, and the closing bracket. -/
def compactItems : List Value → List Char
  | [] => [']']
  | item :: rest => ',' :: compactChars item ++ compactItems rest

/-- The members after the first one, and the closing brace. -/
def compactMembers : List (String × Value) → List Char
  | [] => ['\x7d']
  | (key, value) :: rest =>
    ',' :: Quoted.encode key ++ ':' :: compactChars value ++ compactMembers rest

end

/-- The compact form. -/
def compact (value : Value) : String := String.ofList value.compactChars

/-! ## §2 Pretty form -/

/-- A new line at an indentation level. -/
def newline (level : Nat) : List Char := '\n' :: List.replicate (2 * level) ' '

mutual

/-- The characters of the pretty form of a value that stands at an indentation level. -/
def prettyChars (level : Nat) : Value → List Char
  | .array [] => ['[', ']']
  | .array (item :: rest) =>
    '[' :: newline (level + 1) ++ prettyChars (level + 1) item ++ prettyItems level rest
  | .object [] => ['\x7b', '\x7d']
  | .object ((key, value) :: rest) =>
    '\x7b' :: newline (level + 1) ++ Quoted.encode key ++ [':', ' '] ++
      prettyChars (level + 1) value ++ prettyMembers level rest
  | .null => ['n', 'u', 'l', 'l']
  | .boolean true => ['t', 'r', 'u', 'e']
  | .boolean false => ['f', 'a', 'l', 's', 'e']
  | .number n => n.toText
  | .string text => Quoted.encode text

/-- The items after the first one, and the closing bracket. -/
def prettyItems (level : Nat) : List Value → List Char
  | [] => newline level ++ [']']
  | item :: rest =>
    ',' :: newline (level + 1) ++ prettyChars (level + 1) item ++ prettyItems level rest

/-- The members after the first one, and the closing brace. -/
def prettyMembers (level : Nat) : List (String × Value) → List Char
  | [] => newline level ++ ['\x7d']
  | (key, value) :: rest =>
    ',' :: newline (level + 1) ++ Quoted.encode key ++ [':', ' '] ++
      prettyChars (level + 1) value ++ prettyMembers level rest

end

/-- The pretty form. -/
def pretty (value : Value) : String := String.ofList (value.prettyChars 0)

end TypedSettings.Value

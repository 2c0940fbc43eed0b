import TypedSettings.Generated.Instance
import TypedSettings.Text.Literal

/-!
# Displayed instances

The multi-line display of a typed instance: records with one field per line, lists with one item per
line, four blanks per level; an empty list stays on one line. A field whose identifier is written
raw is shown by its plain name.
-/

namespace TypedSettings

/-- The name of a field without the mark of a raw identifier. -/
def Identifier.plain (ident : String) : String :=
  match ident.toList with
  | 'r' :: '#' :: name => String.ofList name
  | _ => ident

/-- A new line at an indentation level. -/
def displayBreak (level : Nat) : String := "\n" ++ String.ofList (List.replicate (4 * level) ' ')

/-- The display of a scalar that starts at an indentation level. -/
def ScalarType.display (level : Nat) : (type : ScalarType) → type.Carrier → String
  | .integer, (n : Int) => String.ofList (Number.toText (.integer n))
  | .boolean, (b : Bool) => if b then "true" else "false"
  | .string, (text : String) => Literal.encode text
  | .sequence item, (items : List item.Carrier) =>
    if items.isEmpty then "[]"
    else
      let lines := items.map fun i => displayBreak (level + 1) ++ item.display (level + 1) i ++ ","
      "[" ++ String.join lines ++ displayBreak level ++ "]"

namespace Instance

mutual

/-- The display of an instance that starts at an indentation level. -/
def displayAt (level : Nat) : Instance → String
  | .scalar type value => type.display level value
  | .record name [] => name
  | .record name ((field, value) :: rest) =>
    name ++ " \x7b" ++ displayBreak (level + 1) ++ Identifier.plain field ++ ": " ++
      displayAt (level + 1) value ++ "," ++ fieldsAt level rest

/-- The display of the fields after the first one, and the closing brace. -/
def fieldsAt (level : Nat) : List (String × Instance) → String
  | [] => displayBreak level ++ "\x7d"
  | (field, value) :: rest =>
    displayBreak (level + 1) ++ Identifier.plain field ++ ": " ++
      displayAt (level + 1) value ++ "," ++ fieldsAt level rest

end

/-- The display of an instance. -/
def display (inst : Instance) : String := displayAt 0 inst

end Instance

end TypedSettings

/-!
# Identifiers of generated code

How keys and program names become names of generated items. A key keeps its spelling except for dots
and dollar signs; a name that is a keyword is written raw, and the few that cannot be written raw
get an underscore.
-/

namespace TypedSettings.Identifier

/-- Keywords that can be written as raw identifiers. -/
def keywords : List String :=
  ["abstract", "as", "async", "await", "become", "box", "break", "const", "continue", "do", "dyn",
    "else", "enum", "extern", "false", "final", "fn", "for", "gen", "if", "impl", "in", "let",
    "loop", "macro", "match", "mod", "move", "mut", "override", "priv", "pub", "ref", "return",
    "static", "struct", "trait", "true", "try", "type", "typeof", "unsafe", "unsized", "use",
    "virtual", "where", "while", "yield"]

/-- Names that cannot be written as raw identifiers; the last of them is no identifier at all. -/
def suffixed : List String := ["crate", "self", "Self", "super", "_"]

/-- Replaces dots and dollar signs by underscores. -/
def normalize (key : String) : String :=
  key.map fun c => if c = '.' ∨ c = '$' then '_' else c

/-- Makes an identifier of a name that is not empty. -/
def escape (name : String) : String :=
  if name ∈ suffixed then name ++ "_"
  else if name ∈ keywords then "r#" ++ name
  else name

/-- The identifier of a field, property or value type named after a key. -/
def ofKey (key : String) : String :=
  let name := normalize key
  escape (if name = "" then "_" else name)

/-! ## Module names -/

/-- Keeps letters and digits, in lower case, and replaces everything else by an underscore. -/
def moduleChar (c : Char) : Char := if c.isAlphanum then c.toLower else '_'

/-- Does the text start with a digit? -/
def startsWithDigit (name : String) : Bool :=
  match name.toList with
  | [] => false
  | c :: _ => c.isDigit

/-- The name of a module that belongs to a program. -/
def moduleName (program suffix : String) : String :=
  let name := program.map moduleChar
  (if startsWithDigit name then "_" else "") ++ name ++ "_" ++ suffix

end TypedSettings.Identifier

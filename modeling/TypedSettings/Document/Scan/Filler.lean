import TypedSettings.Document.SyntaxError

/-!
# Filler

What may stand before, after and between the tokens of a document: blanks, line comments and block
comments. A block comment ends at the first `*/` in what follows its opening slash, so the star of
the opener may be the star of the closer.
-/

namespace TypedSettings

namespace Filler

/-- Is the character a blank? -/
def isBlank (c : Char) : Bool := c == ' ' || c == '\n' || c == '\t' || c == '\r'

/-- Where in the filler a reader is. -/
inductive Mode where
  /-- Between comments. -/
  | gap
  /-- In a line comment. -/
  | line
  /-- In a block comment, not directly after a star. -/
  | block
  /-- In a block comment, directly after a star. -/
  | star
  deriving DecidableEq, Repr

/-- Drops filler; what is left is empty or starts with a character that is no filler. -/
def skip : Mode → List Char → Except LocalError (List Char)
  | .gap, [] => .ok []
  | .gap, c :: rest =>
    if isBlank c then
      skip .gap rest
    else if c = '/' then
      match rest with
      | '/' :: body => skip .line body
      -- The star of the opener may close the comment as well.
      | '*' :: body => skip .star body
      | other => .error ⟨.expectedComment, .onto other⟩
    else
      .ok (c :: rest)
  | .line, [] => .ok []
  | .line, c :: rest => if c = '\n' then skip .gap rest else skip .line rest
  | .block, [] => .error ⟨.endOfComment, .atEnd⟩
  | .block, c :: rest => if c = '*' then skip .star rest else skip .block rest
  | .star, [] => .error ⟨.endOfComment, .atEnd⟩
  | .star, c :: rest =>
    if c = '/' then skip .gap rest
    else if c = '*' then skip .star rest
    else skip .block rest

/-- Skipping never lengthens the text. -/
theorem length_skip_le {mode : Mode} {text rest : List Char}
    (h : skip mode text = .ok rest) : rest.length ≤ text.length := by
  fun_induction skip mode text <;> grind

end Filler

end TypedSettings

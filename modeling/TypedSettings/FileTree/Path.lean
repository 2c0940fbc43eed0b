/-!
# Paths

A path is a text; slashes cut it into names. What a path means in a file tree is found by walking
its names (`Disk.resolve`); here are the operations on its text alone.
-/

namespace TypedSettings

/-- A path as it was written. -/
structure Path where
  text : String
  deriving DecidableEq, Repr

namespace Path

/-- The pieces of a text between its slashes, empty ones included. -/
def splitSlashes : List Char → List (List Char)
  | [] => [[]]
  | c :: rest =>
    if c = '/' then [] :: splitSlashes rest
    else match splitSlashes rest with
      | [] => [[c]]
      | piece :: pieces => (c :: piece) :: pieces

/-- The names of a path; `.` and `..` are names like others. -/
def names (path : Path) : List String :=
  ((splitSlashes path.text.toList).filter (!·.isEmpty)).map String.ofList

/-- Does the path start at the root? -/
def isAbsolute (path : Path) : Bool := path.text.toList.head? == some '/'

/-- Does the path end in a slash, so that it can only name a directory? -/
def endsInSlash (path : Path) : Bool := path.text.toList.getLast? == some '/'

/-- The names to walk. A slash at the end leaves an empty name after it, which stays in place but
asks for a directory, as a last name `.` does. -/
def steps (path : Path) : List String :=
  path.names ++ (if path.endsInSlash then [""] else [])

/-- The names without those that stay in place, except at the start of a relative path. -/
def significantNames (path : Path) : List String :=
  match path.names with
  | [] => []
  | first :: rest =>
    let rest := rest.filter (· ≠ ".")
    if first = "." ∧ path.isAbsolute then rest else first :: rest

/-- The last significant name, unless it leads back or stays in place. -/
def fileName? (path : Path) : Option String :=
  match path.significantNames.getLast? with
  | some name => if name = "." ∨ name = ".." then none else some name
  | none => none

/-- Appends a path; an absolute one replaces the first, and one slash is put in between if there is
none. -/
def join (path other : Path) : Path :=
  if other.isAbsolute ∨ path.text = "" then other
  else if path.endsInSlash then ⟨path.text ++ other.text⟩
  else ⟨path.text ++ "/" ++ other.text⟩

/-- Appends the name of a file. -/
def child (path : Path) (name : String) : Path := path.join ⟨name⟩

end Path

end TypedSettings

import TypedSettings.Document.Value

/-!
# Fields of a document

A field is found by walking a path of keys through nested objects. A key is one member name,
whatever characters it holds; dots join keys in messages only.
-/

namespace TypedSettings

/-- Keys from the root of a document down to a field. -/
abbrev KeyPath := List String

/-- A path as messages spell it. -/
def KeyPath.dotted (path : KeyPath) : String := ".".intercalate path

/-- What a type demands of a value. -/
inductive Expected where
  | integer
  | boolean
  | array
  deriving DecidableEq, Repr

/-- The name of a demand in messages. -/
def Expected.name : Expected → String
  | .integer => "integer"
  | .boolean => "boolean"
  | .array => "array"

/-- Why a field cannot be read. -/
inductive ReadError where
  /-- The path leads nowhere. -/
  | missing (path : String)
  /-- The value at the path, or at an index below it, is of the wrong kind. -/
  | mismatch (path : String) (expected : Expected) (found : Kind)
  deriving DecidableEq, Repr

/-- The wording of an error. -/
def ReadError.message : ReadError → String
  | .missing path => String.join ["field `", path, "` is missing"]
  | .mismatch path expected found =>
    String.join ["field `", path, "` expected ", expected.name, ", found ", found.name]

namespace Value

/-- Walks a path through nested objects; `none` when a segment is absent. -/
def lookup : KeyPath → Value → Option Value
  | [], value => some value
  | key :: path, value =>
    match value.member? key with
    | none => none
    | some inner => lookup path inner

/-- A path can be walked in two parts. -/
theorem lookup_append (first second : KeyPath) (value : Value) :
    lookup (first ++ second) value = (lookup first value).bind (lookup second) := by
  induction first generalizing value with
  | nil => rfl
  | cons key path ih =>
    simp only [List.cons_append, lookup]
    cases value.member? key with
    | none => rfl
    | some inner => exact ih inner

/-- The value at a path. -/
def field (path : KeyPath) (document : Value) : Except ReadError Value :=
  match document.lookup path with
  | none => .error (.missing path.dotted)
  | some value => .ok value

end Value

end TypedSettings

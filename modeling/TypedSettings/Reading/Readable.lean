import TypedSettings.Reading.Basic
import TypedSettings.Document.Printer

/-!
# Typed reading

The conversions from a value of a document to a value of a type. Numbers of either form are read as
integers; booleans are strict; anything can be read as text, a string verbatim, null as the empty
text and every other value as its compact form. A list is read item by item, and an error names the
index of the first item that does not convert.
-/

namespace TypedSettings

/-- Types that a field of a document can be read as. -/
class Readable (α : Type) where
  /-- Converts the value found at `path`. -/
  ofValue : (path : String) → Value → Except ReadError α

namespace Readable

/-- A value of the wrong kind. -/
def mismatch (path : String) (expected : Expected) (found : Value) : ReadError :=
  .mismatch path expected found.kind

/-- The path of an item. -/
def itemPath (path : String) (index : Nat) : String := s!"{path}[{index}]"

instance : Readable Int where
  ofValue path value :=
    match value with
    | .number n => n.toInteger?.elim (.error (mismatch path .integer value)) .ok
    | _ => .error (mismatch path .integer value)

instance : Readable Bool where
  ofValue path value :=
    match value with
    | .boolean b => .ok b
    | _ => .error (mismatch path .boolean value)

/-- The text a value is read as. -/
def textOf : Value → String
  | .string text => text
  | .null => ""
  | other => other.compact

instance : Readable String where
  ofValue _ value := .ok (textOf value)

/-- Reads items from an index on, up to the first that does not convert. -/
def readItems {α : Type} (read : String → Value → Except ReadError α) (path : String) :
    (index : Nat) → List Value → Except ReadError (List α)
  | _, [] => .ok []
  | index, item :: rest =>
    match read (itemPath path index) item with
    | .error e => .error e
    | .ok first =>
      match readItems read path (index + 1) rest with
      | .error e => .error e
      | .ok others => .ok (first :: others)

instance {α : Type} [Readable α] : Readable (List α) where
  ofValue path value :=
    match value with
    | .array items => readItems ofValue path 0 items
    | _ => .error (mismatch path .array value)

end Readable

/-- Reads the field at a path as a value of type `α`. -/
def Value.read (α : Type) [Readable α] (path : KeyPath) (document : Value) : Except ReadError α :=
  match document.field path with
  | .error e => .error e
  | .ok value => Readable.ofValue path.dotted value

end TypedSettings

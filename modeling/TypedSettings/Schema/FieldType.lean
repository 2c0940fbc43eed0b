import TypedSettings.Reading.Readable

/-!
# Declared types

A leaf of a settings document is declared as an integer, a boolean, a string or a sequence; a nested
object is declared as a value type of its own, by name. Every scalar type denotes a type of values,
and a value of it is embedded back into documents.
-/

namespace TypedSettings

/-- The declared type of a leaf. -/
inductive ScalarType where
  | integer
  | boolean
  | string
  | sequence (item : ScalarType)
  deriving DecidableEq, Repr

/-- The declared type of a field. -/
inductive FieldType where
  | scalar (type : ScalarType)
  /-- A value type, by name. -/
  | value (name : String)
  deriving DecidableEq, Repr

namespace ScalarType

/-- The name of a type in listings. -/
def name : ScalarType → String
  | .integer => "integer"
  | .boolean => "boolean"
  | .string => "string"
  | .sequence item => String.join ["sequence<", item.name, ">"]

/-- The values of a type. -/
def Carrier : ScalarType → Type
  | .integer => Int
  | .boolean => Bool
  | .string => String
  | .sequence item => List item.Carrier

/-- Every scalar type can be read from a document. -/
instance readable : (type : ScalarType) → Readable type.Carrier
  | .integer => inferInstanceAs (Readable Int)
  | .boolean => inferInstanceAs (Readable Bool)
  | .string => inferInstanceAs (Readable String)
  | .sequence item =>
    have := readable item
    inferInstanceAs (Readable (List item.Carrier))

/-- A typed value as a document. -/
def embed : (type : ScalarType) → type.Carrier → Value
  | .integer, (n : Int) => .number (.integer n)
  | .boolean, (b : Bool) => .boolean b
  | .string, (text : String) => .string text
  | .sequence item, (items : List item.Carrier) => .array (items.map item.embed)

/-- The value that stands for a field before it is assigned. -/
def default : (type : ScalarType) → type.Carrier
  | .integer => (0 : Int)
  | .boolean => false
  | .string => ""
  | .sequence item => ([] : List item.Carrier)

/-- The document that a value becomes when it is read as a type: integers without fraction, texts in
place of other values, sequences item by item. -/
def convert (path : String) : ScalarType → Value → Except ReadError Value
  | .integer, value =>
    match Readable.ofValue (α := Int) path value with
    | .error e => .error e
    | .ok n => .ok (.number (.integer n))
  | .boolean, value =>
    match Readable.ofValue (α := Bool) path value with
    | .error e => .error e
    | .ok b => .ok (.boolean b)
  | .string, value => .ok (.string (Readable.textOf value))
  | .sequence item, .array items =>
    match Readable.readItems (fun path value => convert path item value) path 0 items with
    | .error e => .error e
    | .ok converted => .ok (.array converted)
  | .sequence _, value => .error (Readable.mismatch path .array value)

end ScalarType

/-- The name of a type in listings. -/
def FieldType.name : FieldType → String
  | .scalar type => type.name
  | .value name => name

/-! ## Inference

Inference is shallow: a number is an integer, an array takes the type of its first item, and
everything else but a boolean is a string, arrays and objects inside arrays included. -/

/-- The type of an item, or of a leaf that is no array. -/
def ScalarType.ofItem : Value → ScalarType
  | .number _ => .integer
  | .boolean _ => .boolean
  | _ => .string

/-- The type of a leaf. -/
def ScalarType.infer : Value → ScalarType
  | .array [] => .sequence .string
  | .array (item :: _) => .sequence (.ofItem item)
  | value => .ofItem value

end TypedSettings

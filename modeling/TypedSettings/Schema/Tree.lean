import TypedSettings.Document.Parser
import TypedSettings.Reading.Basic

/-!
# Schema trees

The image of a settings document from which declarations and initializers are made: every member of
the root object and of the objects nested in it, with its key and the path of keys that leads to it.
Arrays are leaves, whatever they hold.
-/

namespace TypedSettings

/-- A member of a settings object. -/
inductive Node where
  /-- A member that is read as one value. -/
  | leaf (key : String) (path : KeyPath) (value : Value)
  /-- A member that is an object of its own. -/
  | branch (key : String) (path : KeyPath) (children : List Node)
  deriving Repr

namespace Node

/-- The member name. -/
def key : Node → String
  | .leaf key _ _ => key
  | .branch key _ _ => key

/-- The path from the root of the document. -/
def path : Node → KeyPath
  | .leaf _ path _ => path
  | .branch _ path _ => path

/-- Is the member an object? -/
def isBranch : Node → Bool
  | .leaf .. => false
  | .branch .. => true

mutual

/-- The node of a member of the object at `parent`. -/
def ofMember (parent : KeyPath) (key : String) : Value → Node
  | .object members => .branch key (parent ++ [key]) (ofMembers (parent ++ [key]) members)
  | value => .leaf key (parent ++ [key]) value

/-- The nodes of the members of the object at `parent`. -/
def ofMembers (parent : KeyPath) : List (String × Value) → List Node
  | [] => []
  | (key, value) :: rest => ofMember parent key value :: ofMembers parent rest

end

end Node

/-- The members of the root object. -/
abbrev Schema := List Node

/-- Why a text has no schema tree. -/
inductive SchemaError where
  | invalid (error : SyntaxError)
  | notAnObject (found : Kind)
  deriving DecidableEq, Repr

/-- The wording of an error. -/
def SchemaError.message : SchemaError → String
  | .invalid e => String.join ["invalid settings document: ", e.message]
  | .notAnObject found => String.join ["settings root must be an object, found ", found.name]

namespace Schema

/-- The first member with a key. -/
def get? (key : String) (schema : Schema) : Option Node := schema.find? (·.key == key)

/-- The keys of the root object. -/
def keys (schema : Schema) : List String := schema.map Node.key

/-- The tree of a document, whose root must be an object. -/
def ofDocument : Value → Except SchemaError Schema
  | .object members => .ok (Node.ofMembers [] members)
  | other => .error (.notAnObject other.kind)

/-- The tree of a settings text. -/
def ofText (text : String) : Except SchemaError Schema :=
  match Value.parse text with
  | .error e => .error (.invalid e)
  | .ok document => ofDocument document

end Schema

end TypedSettings

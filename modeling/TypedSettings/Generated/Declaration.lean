import TypedSettings.Identifier
import TypedSettings.Schema.Tree
import TypedSettings.Schema.FieldType

/-!
# Declared structures

One immutable structure is declared for every object nested in a settings document, with one field
per member. A structure precedes those of the objects nested in it, and these precede the structure
of the next member.
-/

namespace TypedSettings

/-- A member of a declared structure. -/
structure Field where
  /-- The member name in the document. -/
  key : String
  ident : String
  path : KeyPath
  type : FieldType
  deriving DecidableEq, Repr

/-- The structure of a nested object. -/
structure ValueType where
  name : String
  /-- The path of the object. -/
  path : KeyPath
  fields : List Field
  deriving DecidableEq, Repr

namespace Node

/-- The identifier of a node. -/
def ident (node : Node) : String := Identifier.ofKey node.key

/-- The declared type of a node: leaves have their inferred type, objects their structure. -/
def type : Node → FieldType
  | .leaf _ _ value => .scalar (.infer value)
  | .branch key _ _ => .value (Identifier.ofKey key)

/-- The field of a node. -/
def field (node : Node) : Field := ⟨node.key, node.ident, node.path, node.type⟩

mutual

/-- The structures of a node and of everything nested in it. -/
def valueTypes : Node → List ValueType
  | .leaf .. => []
  | .branch key path children =>
    ⟨Identifier.ofKey key, path, children.map field⟩ :: valueTypesOf children

/-- The structures of several nodes in order. -/
def valueTypesOf : List Node → List ValueType
  | [] => []
  | node :: rest => valueTypes node ++ valueTypesOf rest

end

end Node

/-- The structures of every object below the root. -/
def Schema.valueTypes (schema : Schema) : List ValueType := Node.valueTypesOf schema

end TypedSettings

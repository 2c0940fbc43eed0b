import TypedSettings.Generated.Declaration
import TypedSettings.Generated.Variant

/-!
# Plans of initializers

A holder has one property per member of the root object and an initializer that fills them from a
document. The initializer is a list of steps; a step reads one field of the document or constructs a
structure from steps of its own. Members of the root that are neither objects nor strings, numbers
or arrays are declared but have no step: such a property keeps its default.
-/

namespace TypedSettings

/-- One assignment of an initializer or of a structure under construction. -/
inductive Step where
  /-- Reads the field at a path as a type. -/
  | read (target : String) (path : KeyPath) (type : ScalarType)
  /-- Builds a structure. -/
  | construct (target : String) (typeName : String) (fields : List Step)
  deriving Repr, Inhabited

/-- The identifier that a step assigns. -/
def Step.target : Step → String
  | .read target _ _ => target
  | .construct target _ _ => target

/-- The generated type of a variant. -/
structure Holder where
  typeName : String
  fileName : String
  moduleName : String
  properties : List Field
  initializer : List Step
  deriving Repr

namespace Node

mutual

/-- The step that fills a field with a node. -/
def step : Node → Step
  | .leaf key path value => .read (Identifier.ofKey key) path (.infer value)
  | .branch key _ children =>
    .construct (Identifier.ofKey key) (Identifier.ofKey key) (steps children)

/-- The steps of several nodes in order. -/
def steps : List Node → List Step
  | [] => []
  | node :: rest => step node :: steps rest

end

/-- Is a member of the root assigned, and not only declared? -/
def isAssigned : Node → Bool
  | .branch .. => true
  | .leaf _ _ (.string _) => true
  | .leaf _ _ (.number _) => true
  | .leaf _ _ (.array _) => true
  | .leaf .. => false

end Node

/-- The holder of a variant of a program's settings. -/
def Schema.holder (schema : Schema) (variant : Variant) (program : String) : Holder where
  typeName := variant.typeName
  fileName := variant.fileName program
  moduleName := variant.moduleName program
  properties := schema.map Node.field
  initializer := Node.steps (schema.filter Node.isAssigned)

end TypedSettings

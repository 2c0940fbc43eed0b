import TypedSettings.Generated.Initializer

/-!
# Simulated initializers

The initializer of a holder run on a document without generating anything. The result maps every
property to a document: a property starts with the default of its declared type, and each step
overwrites its target in place. The first read that fails ends the run.
-/

namespace TypedSettings

/-- The document that stands for a property before it is assigned. -/
def FieldType.initialValue : FieldType → Value
  | .scalar .integer => .number (.integer 0)
  | .scalar .boolean => .boolean false
  | .scalar .string => .string ""
  | .scalar (.sequence _) => .array []
  | .value _ => .object []

namespace Step

/-- Reads the field at a path and converts it. -/
def fetch (type : ScalarType) (path : KeyPath) (document : Value) : Except ReadError Value :=
  match document.field path with
  | .error e => .error e
  | .ok value => type.convert path.dotted value

mutual

/-- What a step assigns to its target. -/
def evaluate (document : Value) : Step → Except ReadError Value
  | .read _ path type => fetch type path document
  | .construct _ _ fields =>
    match run document [] fields with
    | .error e => .error e
    | .ok members => .ok (.object members)

/-- Runs steps in order on a map of values. -/
def run (document : Value) (values : List (String × Value)) :
    List Step → Except ReadError (List (String × Value))
  | [] => .ok values
  | step :: rest =>
    match evaluate document step with
    | .error e => .error e
    | .ok value => run document (OrderedMap.insert step.target value values) rest

end

end Step

namespace Holder

/-- The properties before any step. -/
def defaults (holder : Holder) : List (String × Value) :=
  OrderedMap.ofPairs (holder.properties.map fun p => (p.ident, p.type.initialValue))

/-- Every property by its identifier after the initializer has run on a document. -/
def simulate (holder : Holder) (document : Value) : Except ReadError (List (String × Value)) :=
  Step.run document holder.defaults holder.initializer

end Holder

end TypedSettings

import TypedSettings.Generated.Simulation

/-!
# Typed instances

What generated code does with a document: it starts from the default of the holder, runs the
statements of the initializer in order and converts each read to the type that the declaration gives
to the target field, looked up by structure and field name. The result is a tree of typed values.

## Main definitions

* `Declarations` — the declared structures by name
* `Declarations.load` — a holder's instance for a document
-/

namespace TypedSettings

/-- A value of generated code. -/
inductive Instance where
  | scalar (type : ScalarType) (value : type.Carrier)
  | record (name : String) (fields : List (String × Instance))

/-- Why the statements of an initializer yield no instance. -/
inductive LoadError where
  | read (error : ReadError)
  /-- A structure has no such field, or the field is of another form than the statement. -/
  | undeclared (structureName field : String)
  deriving DecidableEq, Repr

/-- The wording of an error. -/
def LoadError.message : LoadError → String
  | .read e => e.message
  | .undeclared structureName field =>
    String.join ["structure `", structureName, "` does not declare `", field, "` as it is assigned"]

/-- The fields of every declared structure. -/
abbrev Declarations := List (String × List Field)

namespace Declarations

/-- The structures of a holder and its value types. -/
def ofHolder (holder : Holder) (types : List ValueType) : Declarations :=
  (holder.typeName, holder.properties) :: types.map fun type => (type.name, type.fields)

/-- The declared type of a field. -/
def typeOf? (declarations : Declarations) (structureName field : String) : Option FieldType :=
  (OrderedMap.find? structureName declarations).bind fun fields =>
    (fields.find? (·.ident == field)).map Field.type

/-! ## §1 Defaults -/

mutual

/-- The default of a declared type; `depth` bounds how deep structures lie inside each other. -/
def defaultOf (declarations : Declarations) (depth : Nat) : FieldType → Instance
  | .scalar type => .scalar type type.default
  | .value name => defaultRecord declarations depth name
termination_by (depth, 1)

/-- The default of a structure: every field has its default. -/
def defaultRecord (declarations : Declarations) : (depth : Nat) → (name : String) → Instance
  | 0, name => .record name []
  | depth + 1, name =>
    let fields := (OrderedMap.find? name declarations).getD []
    .record name (fields.map fun field => (field.ident, defaultOf declarations depth field.type))
termination_by depth => (depth, 0)

end

/-! ## §2 Statements -/

mutual

/-- The value of a statement or of a field of a structure expression. -/
def evaluate (declarations : Declarations) (structureName : String) (document : Value) :
    Step → Except LoadError Instance
  | .read target path _ =>
    match declarations.typeOf? structureName target with
    | some (.scalar type) =>
      match document.read type.Carrier path with
      | .error e => .error (.read e)
      | .ok value => .ok (.scalar type value)
    | _ => .error (.undeclared structureName target)
  | .construct target typeName fields =>
    if declarations.typeOf? structureName target = some (.value typeName) then
      match run declarations typeName document [] fields with
      | .error e => .error e
      | .ok values => .ok (.record typeName values)
    else .error (.undeclared structureName target)

/-- Runs statements in order on the fields of a structure. -/
def run (declarations : Declarations) (structureName : String) (document : Value)
    (values : List (String × Instance)) : List Step → Except LoadError (List (String × Instance))
  | [] => .ok values
  | step :: rest =>
    match evaluate declarations structureName document step with
    | .error e => .error e
    | .ok value =>
      run declarations structureName document (OrderedMap.insert step.target value values) rest

end

/-- The instance of a holder for a document. -/
def load (declarations : Declarations) (holder : Holder) (document : Value) :
    Except LoadError Instance :=
  let initial := holder.properties.map fun p =>
    (p.ident, defaultOf declarations declarations.length p.type)
  match run declarations holder.typeName document initial holder.initializer with
  | .error e => .error e
  | .ok values => .ok (.record holder.typeName values)

end Declarations

namespace Instance

mutual

/-- An instance as a document. -/
def toValue : Instance → Value
  | .scalar type value => type.embed value
  | .record _ fields => .object (membersOf fields)

/-- The fields of a record as members. -/
def membersOf : List (String × Instance) → List (String × Value)
  | [] => []
  | (name, value) :: rest => (name, toValue value) :: membersOf rest

end

end Instance

end TypedSettings

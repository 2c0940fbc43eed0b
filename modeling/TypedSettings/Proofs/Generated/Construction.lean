import Mathlib
import TypedSettings.Generated.Initializer

/-!
# Declared and constructed structures

The structures that generated code declares and the ones that its initializer constructs are made
from a schema tree by two traversals that know nothing of each other. They agree: the initializer
constructs the declared structures in the order of their declarations, each with the declared
fields, and reads every leaf at the path of its declaration. At the root every property has a step
but those whose members can only be declared.

Main facts:
- `Step.slot_step`: a step fills the field declared for its node
- `Step.constructorsOf_steps`: the structures that steps construct are the declared ones
- `Schema.initializer_constructs_valueTypes`: the whole initializer against all declarations
-/

namespace TypedSettings

/-! ## §1 Layouts -/

/-- What declarations and constructions both say of a field: its identifier, its type and, if it is
read from a document, the path it is read from. -/
structure Slot where
  ident : String
  type : FieldType
  path : Option KeyPath
  deriving DecidableEq

/-- What a declaration says of a field. -/
def Field.slot (field : Field) : Slot where
  ident := field.ident
  type := field.type
  path :=
    match field.type with
    | .scalar _ => some field.path
    | .value _ => none

/-- The name of a declared structure and its slots. -/
def ValueType.layout (type : ValueType) : String × List Slot :=
  (type.name, type.fields.map Field.slot)

namespace Step

/-- What a construction says of a field. -/
def slot : Step → Slot
  | .read target path type => ⟨target, .scalar type, some path⟩
  | .construct target typeName _ => ⟨target, .value typeName, none⟩

mutual

/-- The structures that a step constructs, the outer before the inner ones, with their slots. -/
def constructors : Step → List (String × List Slot)
  | .read .. => []
  | .construct _ typeName fields => (typeName, fields.map slot) :: constructorsOf fields

/-- The structures that several steps construct in order. -/
def constructorsOf : List Step → List (String × List Slot)
  | [] => []
  | step :: rest => constructors step ++ constructorsOf rest

end

/-! ## §2 Two traversals of one tree -/

/-- A step fills the field that is declared for its node. -/
theorem slot_step (node : Node) : node.step.slot = node.field.slot := by
  cases node <;> rfl

theorem map_slot_steps (nodes : List Node) :
    (Node.steps nodes).map slot = (nodes.map Node.field).map Field.slot := by
  induction nodes with
  | nil => rfl
  | cons node rest ih => rw [Node.steps, List.map_cons, slot_step, ih, List.map_cons, List.map_cons]

mutual

/-- A step constructs the structures declared for its node and for what is nested in it. -/
theorem constructors_step : ∀ node : Node,
    constructors node.step = node.valueTypes.map ValueType.layout
  | .leaf .. => rfl
  | .branch key path children => by
    simp only [Node.step, constructors, Node.valueTypes, List.map_cons, ValueType.layout]
    rw [map_slot_steps, constructorsOf_steps children]

/-- **Constructed structures are the declared ones**, in the order of their declarations. -/
theorem constructorsOf_steps : ∀ nodes : List Node,
    constructorsOf (Node.steps nodes) = (Node.valueTypesOf nodes).map ValueType.layout
  | [] => rfl
  | node :: rest => by
    rw [Node.steps, constructorsOf, constructors_step node, constructorsOf_steps rest,
      Node.valueTypesOf, List.map_append]

end

end Step

/-! ## §3 The root -/

namespace Node

/-- The step of a member of the root; there is none if the member is only declared. -/
def rootStep? (node : Node) : Option Step := if node.isAssigned then some node.step else none

theorem steps_filter_isAssigned (nodes : List Node) :
    steps (nodes.filter isAssigned) = nodes.filterMap rootStep? := by
  induction nodes with
  | nil => rfl
  | cons node rest ih =>
    cases h : node.isAssigned with
    | true => simp [rootStep?, h, steps, ih]
    | false => simp [rootStep?, h, ih]

theorem rootStep?_eq_none {node : Node} : node.rootStep? = none ↔ node.isAssigned = false := by
  cases h : node.isAssigned <;> simp [rootStep?, h]

/-- A leaf is assigned by its kind alone. -/
theorem isAssigned_leaf {key : String} {path : KeyPath} {value : Value} :
    (leaf key path value).isAssigned = false ↔
      value.kind ∉ [Kind.string, Kind.number, Kind.array] := by
  cases value <;> simp [isAssigned, Value.kind]

theorem rootStep?_eq_none_iff {node : Node} :
    node.rootStep? = none ↔ ∃ key path value, node = .leaf key path value ∧
      value.kind ∉ [Kind.string, Kind.number, Kind.array] := by
  rw [rootStep?_eq_none]
  cases node with
  | leaf key path value =>
    rw [isAssigned_leaf]
    constructor
    · exact fun hkind => ⟨key, path, value, rfl, hkind⟩
    · rintro ⟨_, _, _, heq, hkind⟩
      cases heq
      exact hkind
  | branch key path children =>
    -- A branch is always assigned.
    constructor
    · exact nofun
    · rintro ⟨_, _, _, heq, -⟩
      cases heq

theorem slot_of_rootStep? {node : Node} {step : Step} (h : node.rootStep? = some step) :
    step.slot = node.field.slot := by
  obtain ⟨-, rfl⟩ : _ ∧ node.step = step := by simpa [rootStep?] using h
  exact Step.slot_step node

/-- Leaves that are only declared have no structures below them. -/
theorem valueTypesOf_filter_isAssigned (nodes : List Node) :
    valueTypesOf (nodes.filter isAssigned) = valueTypesOf nodes := by
  induction nodes with
  | nil => rfl
  | cons node rest ih =>
    cases h : node.isAssigned with
    | true => rw [List.filter_cons_of_pos h, valueTypesOf, valueTypesOf, ih]
    | false =>
      have hleaf : node.valueTypes = [] := by
        cases node with
        | leaf key path value => rfl
        | branch key path children => cases h
      rw [List.filter_cons_of_neg (by simp [h]), valueTypesOf, hleaf, ih, List.nil_append]

/-- No leaf of the tree of a document is an object. -/
theorem kind_ne_object_of_mem_ofMembers {parent path : KeyPath} {members : List (String × Value)}
    {key : String} {value : Value} (h : leaf key path value ∈ ofMembers parent members) :
    value.kind ≠ .object := by
  induction members with
  | nil => cases h
  | cons member rest ih =>
    obtain ⟨name, content⟩ := member
    rw [ofMembers, List.mem_cons] at h
    rcases h with hfirst | hrest
    · cases content <;> cases hfirst <;> exact nofun
    · exact ih hrest

end Node

namespace Schema

/-- The members of the root of a document are assigned unless they are booleans or nulls. -/
theorem kind_notMem_iff_of_document {schema : Schema} {document : Value}
    (h : ofDocument document = .ok schema) {key : String} {path : KeyPath} {value : Value}
    (hmem : Node.leaf key path value ∈ schema) :
    value.kind ∉ [Kind.string, Kind.number, Kind.array] ↔
      value.kind = .boolean ∨ value.kind = .null := by
  have hobject : value.kind ≠ .object := by
    cases document with
    | object members =>
      cases h
      exact Node.kind_ne_object_of_mem_ofMembers hmem
    | _ => cases h
  cases hkind : value.kind <;> simp_all

/-- **What the initializer constructs is what the value types declare.** The structures that it
constructs, nested ones included, are the declared ones in the order of their declarations and slot
by slot. Every property has the step of its member, which fills it as it is declared, or no step at
all, and these are the leaves of a kind that is not assigned: booleans and nulls in the tree of a
document. -/
theorem initializer_constructs_valueTypes (schema : Schema) (variant : Variant)
    (program : String) :
    Step.constructorsOf (schema.holder variant program).initializer =
      schema.valueTypes.map ValueType.layout ∧
    (schema.holder variant program).properties = schema.map Node.field ∧
    ∃ stepOf : Node → Option Step,
      (schema.holder variant program).initializer = schema.filterMap stepOf ∧
      (∀ node ∈ schema, ∀ step, stepOf node = some step → step.slot = node.field.slot) ∧
      (∀ node ∈ schema, stepOf node = none ↔ ∃ key path value, node = .leaf key path value ∧
        value.kind ∉ [Kind.string, Kind.number, Kind.array]) ∧
      ∀ document, ofDocument document = .ok schema → ∀ node ∈ schema,
        (stepOf node = none ↔ ∃ key path value, node = .leaf key path value ∧
          (value.kind = .boolean ∨ value.kind = .null)) := by
  have hconstructed : Step.constructorsOf (schema.holder variant program).initializer =
      schema.valueTypes.map ValueType.layout := by
    simp only [holder]
    rw [Step.constructorsOf_steps, Node.valueTypesOf_filter_isAssigned]
    rfl
  refine ⟨hconstructed, rfl, Node.rootStep?, Node.steps_filter_isAssigned schema,
    fun node _ step hstep => Node.slot_of_rootStep? hstep,
    fun node _ => Node.rootStep?_eq_none_iff, fun document hdocument node hmem => ?_⟩
  rw [Node.rootStep?_eq_none_iff]
  -- Both sides speak of one leaf, and in a document its kind leaves two possibilities.
  constructor
  · rintro ⟨key, path, value, rfl, hkind⟩
    exact ⟨key, path, value, rfl, (kind_notMem_iff_of_document hdocument hmem).mp hkind⟩
  · rintro ⟨key, path, value, rfl, hkind⟩
    exact ⟨key, path, value, rfl, (kind_notMem_iff_of_document hdocument hmem).mpr hkind⟩

end Schema

end TypedSettings

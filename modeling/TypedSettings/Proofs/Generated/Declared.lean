import Mathlib
import TypedSettings.Generated.Instance
import TypedSettings.Proofs.Generated.Run
import TypedSettings.Proofs.Reading.Conversion

/-!
# Declared types

Declarations are looked up by name. If their names are told apart, every node of a schema tree finds
its own type there, and what its step yields has that type, in structures of any depth.

Main facts:
- `Declarations.Distinct`: what names must satisfy
- `Declarations.Declares.typeOf?_eq`: a declared node is found with its type
- `Declarations.HasType`, `Declarations.HaveTypes`: the documents of a declared type
- `Declarations.hasTypes_of_writes`: what steps write has the declared types
-/

namespace TypedSettings

/-! ## §1 Declared nodes -/

namespace Node

theorem mem_valueTypesOf_iff {type : ValueType} {nodes : List Node} :
    type ∈ valueTypesOf nodes ↔ ∃ node ∈ nodes, type ∈ node.valueTypes := by
  induction nodes with
  | nil => simp [valueTypesOf]
  | cons node rest ih => simp [valueTypesOf, ih]

end Node

namespace Declarations

/-- Structures are told apart by their names, and the fields of a structure by theirs. -/
structure Distinct (declarations : Declarations) : Prop where
  names_nodup : (OrderedMap.keys declarations).Nodup
  fields_nodup : ∀ declaration ∈ declarations, (declaration.2.map Field.ident).Nodup

/-- `Declares declarations name nodes`: the structure `name` has the fields of the nodes, and all
structures below the nodes are declared. -/
structure Declares (declarations : Declarations) (name : String) (nodes : List Node) : Prop where
  fields_mem : (name, nodes.map Node.field) ∈ declarations
  nested_mem : ∀ type ∈ Node.valueTypesOf nodes, (type.name, type.fields) ∈ declarations

variable {declarations : Declarations}

/-- The structure of a branch is declared where the branch is. -/
theorem Declares.children {name key : String} {path : KeyPath} {nodes children : List Node}
    (h : Declares declarations name nodes) (hmem : Node.branch key path children ∈ nodes) :
    Declares declarations (Identifier.ofKey key) children where
  fields_mem := by
    refine h.nested_mem ⟨Identifier.ofKey key, path, children.map Node.field⟩ ?_
    rw [Node.mem_valueTypesOf_iff]
    exact ⟨_, hmem, List.mem_cons_self⟩
  nested_mem := by
    intro type htype
    refine h.nested_mem type ?_
    rw [Node.mem_valueTypesOf_iff]
    exact ⟨_, hmem, List.mem_cons_of_mem _ htype⟩

theorem Declares.find?_eq {name : String} {nodes : List Node} (h : Declares declarations name nodes)
    (distinct : declarations.Distinct) :
    OrderedMap.find? name declarations = some (nodes.map Node.field) :=
  (OrderedMap.find?_eq_some_iff distinct.names_nodup).mpr h.fields_mem

theorem Declares.idents_nodup {name : String} {nodes : List Node}
    (h : Declares declarations name nodes) (distinct : declarations.Distinct) :
    (nodes.map Node.ident).Nodup :=
  Node.map_ident_field nodes ▸ distinct.fields_nodup _ h.fields_mem

theorem find?_ident {fields : List Field} {field : Field} (h : (fields.map Field.ident).Nodup)
    (hmem : field ∈ fields) : fields.find? (·.ident == field.ident) = some field := by
  induction fields with
  | nil => cases hmem
  | cons first rest ih =>
    rw [List.map_cons, List.nodup_cons] at h
    rcases List.mem_cons.mp hmem with rfl | hrest
    · simp
    · have hne : first.ident ≠ field.ident := fun heq =>
        h.1 (heq ▸ List.mem_map_of_mem (f := Field.ident) hrest)
      rw [List.find?_cons_of_neg (by simpa using hne)]
      exact ih h.2 hrest

theorem eq_of_ident_eq {fields : List Field} {first second : Field}
    (h : (fields.map Field.ident).Nodup) (hfirst : first ∈ fields) (hsecond : second ∈ fields)
    (hident : first.ident = second.ident) : first = second := by
  have hfound := find?_ident h hfirst
  rw [hident, find?_ident h hsecond, Option.some.injEq] at hfound
  exact hfound.symm

/-- The declaration gives a field the type of its node. -/
theorem Declares.typeOf?_eq {name : String} {nodes : List Node} {node : Node}
    (h : Declares declarations name nodes) (distinct : declarations.Distinct)
    (hmem : node ∈ nodes) :
    declarations.typeOf? name node.ident = some node.type := by
  have hfind : (nodes.map Node.field).find? (·.ident == node.field.ident) = some node.field :=
    find?_ident (distinct.fields_nodup _ h.fields_mem) (List.mem_map_of_mem hmem)
  have hident : node.field.ident = node.ident := rfl
  rw [typeOf?, h.find?_eq distinct, Option.bind_some, ← hident, hfind]
  rfl

/-! ## §2 Declared types -/

mutual

/-- `HasType declarations type value`: the document stands for a value of the declared type. -/
inductive HasType (declarations : Declarations) : FieldType → Value → Prop where
  | scalar {type : ScalarType} {value : Value} (admits : type.Admits value) :
      HasType declarations (.scalar type) value
  /-- A structure holds exactly its declared fields, in their order. -/
  | value {name : String} {fields : List Field} {members : List (String × Value)}
      (declared : OrderedMap.find? name declarations = some fields)
      (typed : HaveTypes declarations fields members) :
      HasType declarations (.value name) (.object members)

/-- `HaveTypes declarations fields members`: there is one member of the declared type for each
field. -/
inductive HaveTypes (declarations : Declarations) : List Field → List (String × Value) → Prop where
  | nil : HaveTypes declarations [] []
  | cons {field : Field} {fields : List Field} {value : Value} {members : List (String × Value)}
      (head : HasType declarations field.type value)
      (tail : HaveTypes declarations fields members) :
      HaveTypes declarations (field :: fields) ((field.ident, value) :: members)

end

theorem HaveTypes.of_forall {fields : List Field} {members : List (String × Value)}
    (hkeys : OrderedMap.keys members = fields.map Field.ident)
    (h : ∀ field ∈ fields, ∀ value, (field.ident, value) ∈ members →
      declarations.HasType field.type value) : declarations.HaveTypes fields members := by
  induction fields generalizing members with
  | nil => exact List.map_eq_nil_iff.mp hkeys ▸ .nil
  | cons field rest ih =>
    cases members with
    | nil => cases hkeys
    | cons member others =>
      obtain ⟨key, value⟩ := member
      rw [OrderedMap.keys_cons, List.map_cons, List.cons.injEq] at hkeys
      obtain ⟨rfl, hrest⟩ := hkeys
      refine .cons (h field List.mem_cons_self value List.mem_cons_self) (ih hrest ?_)
      intro other hother value hvalue
      exact h other (List.mem_cons_of_mem _ hother) value (List.mem_cons_of_mem _ hvalue)

/-- Every member belongs to a field. -/
theorem HaveTypes.exists_field {fields : List Field} {members : List (String × Value)}
    (h : declarations.HaveTypes fields members) :
    ∀ member ∈ members, ∃ field ∈ fields, field.ident = member.1 ∧
      declarations.HasType field.type member.2 := by
  induction members generalizing fields with
  | nil => exact List.forall_mem_nil _
  | cons first rest ih =>
    cases h with
    | @cons field others value _ head tail =>
      intro member hmem
      rcases List.mem_cons.mp hmem with rfl | hrest
      · exact ⟨field, List.mem_cons_self, rfl, head⟩
      · obtain ⟨other, hother, hident, htype⟩ := ih tail member hrest
        exact ⟨other, List.mem_cons_of_mem _ hother, hident, htype⟩

mutual

/-- What a step yields has the type of its node. -/
theorem hasType_of_evaluate (distinct : declarations.Distinct) {document : Value} :
    ∀ (node : Node) {name : String} {nodes : List Node} {value : Value},
      Declares declarations name nodes → node ∈ nodes →
      Step.evaluate document node.step = .ok value → declarations.HasType node.type value
  | .leaf key path leaf, name, nodes, value, declared, hmem, h => by
    simp only [Node.step, Step.evaluate, Step.fetch] at h
    split at h
    next => cases h
    next => exact .scalar (ScalarType.admits_of_convert h)
  | .branch key path children, name, nodes, value, declared, hmem, h => by
    have hchildren := declared.children hmem
    rw [Node.step, Step.evaluate_construct] at h
    cases hwrites : Step.writes document (Node.steps children) with
    | error e => simp [hwrites, Except.map] at h
    | ok pairs =>
      simp only [hwrites, Except.map, Except.ok.injEq] at h
      subst h
      -- Fields have distinct names, so none of them is overwritten by a later one.
      have hpairs : (OrderedMap.keys pairs).Nodup := by
        rw [Step.keys_of_writes hwrites, Step.map_target_steps]
        exact hchildren.idents_nodup distinct
      rw [OrderedMap.ofPairs_eq_self hpairs]
      exact .value (hchildren.find?_eq distinct)
        (hasTypes_of_writes distinct children hchildren (fun _ hchild => hchild) hwrites)

/-- **Typed results**: what the steps of declared nodes write has the declared types. -/
theorem hasTypes_of_writes (distinct : declarations.Distinct) {document : Value} :
    ∀ (part : List Node) {name : String} {nodes : List Node} {pairs : List (String × Value)},
      Declares declarations name nodes → (∀ node ∈ part, node ∈ nodes) →
      Step.writes document (Node.steps part) = .ok pairs →
      declarations.HaveTypes (part.map Node.field) pairs
  | [], _, _, pairs, _, _, h => by
    cases h
    exact .nil
  | node :: rest, name, nodes, pairs, declared, hsub, h => by
    rw [Node.steps] at h
    obtain ⟨value, others, hvalue, hothers, hpairs⟩ := Step.writes_cons_eq_ok_iff.mp h
    have hhead : declarations.HasType node.field.type value :=
      hasType_of_evaluate distinct node declared (hsub node List.mem_cons_self) hvalue
    have htail : declarations.HaveTypes (rest.map Node.field) others :=
      hasTypes_of_writes distinct rest declared
        (fun other hother => hsub other (List.mem_cons_of_mem _ hother)) hothers
    rw [hpairs, Step.target_step, List.map_cons]
    exact .cons hhead htail

end

end Declarations

end TypedSettings

import Mathlib
import TypedSettings.Generated.Declaration

/-!
# Nested nodes

The nodes of a tree at all depths, and the structures that are declared for them. Structures are
listed as the nodes are: a node comes before those that are nested in it.

Main facts:
- `Node.descendantsOf`: nodes and all nodes nested in them
- `Node.valueTypesOf_eq_filterMap`: the declared structures are those of the nested nodes
- `Node.child_mem_descendantsOf`: what is nested in a nested node is nested
-/

namespace TypedSettings

namespace Node

mutual

/-- A node and all nodes nested in it. -/
def descendants : Node → List Node
  | .leaf key path value => [.leaf key path value]
  | .branch key path children => .branch key path children :: descendantsOf children

/-- Several nodes and all nodes nested in them. -/
def descendantsOf : List Node → List Node
  | [] => []
  | node :: rest => descendants node ++ descendantsOf rest

end

/-- The structure that is declared for a node itself. -/
def ownType? : Node → Option ValueType
  | .leaf .. => none
  | .branch key path children => some ⟨Identifier.ofKey key, path, children.map field⟩

mutual

theorem valueTypes_eq_filterMap : ∀ node : Node,
    node.valueTypes = node.descendants.filterMap ownType?
  | .leaf .. => rfl
  | .branch key path children => by
    rw [valueTypes, descendants, valueTypesOf_eq_filterMap children]
    rfl

/-- The declared structures are those of the nested nodes, in their order. -/
theorem valueTypesOf_eq_filterMap : ∀ nodes : List Node,
    valueTypesOf nodes = (descendantsOf nodes).filterMap ownType?
  | [] => rfl
  | node :: rest => by
    rw [valueTypesOf, descendantsOf, List.filterMap_append, valueTypes_eq_filterMap node,
      valueTypesOf_eq_filterMap rest]

end

theorem mem_descendants_self (node : Node) : node ∈ node.descendants := by
  cases node <;> simp [descendants]

theorem mem_descendantsOf_iff {node : Node} {nodes : List Node} :
    node ∈ descendantsOf nodes ↔ ∃ outer ∈ nodes, node ∈ outer.descendants := by
  induction nodes with
  | nil => simp [descendantsOf]
  | cons first rest ih => simp [descendantsOf, ih]

theorem mem_descendantsOf {node : Node} {nodes : List Node} (h : node ∈ nodes) :
    node ∈ descendantsOf nodes :=
  mem_descendantsOf_iff.mpr ⟨node, h, mem_descendants_self node⟩

mutual

theorem child_mem_descendants {key : String} {path : KeyPath} {children : List Node} {child : Node}
    (hchild : child ∈ children) : ∀ node : Node,
    Node.branch key path children ∈ node.descendants → child ∈ node.descendants
  | .leaf .., h => by simp [descendants] at h
  | .branch key' path' children', h => by
    rw [descendants, List.mem_cons] at h ⊢
    rcases h with heq | hnested
    · cases heq
      exact .inr (mem_descendantsOf hchild)
    · exact .inr (child_mem_descendantsOf hchild children' hnested)

/-- What is nested in a nested node is nested. -/
theorem child_mem_descendantsOf {key : String} {path : KeyPath} {children : List Node}
    {child : Node} (hchild : child ∈ children) : ∀ nodes : List Node,
    Node.branch key path children ∈ descendantsOf nodes → child ∈ descendantsOf nodes
  | [], h => by cases h
  | node :: rest, h => by
    rw [descendantsOf, List.mem_append] at h ⊢
    rcases h with hfirst | hrest
    · exact .inl (child_mem_descendants hchild node hfirst)
    · exact .inr (child_mem_descendantsOf hchild rest hrest)

end

theorem ownType?_eq_some {node : Node} {type : ValueType} (h : node.ownType? = some type) :
    ∃ key path children, node = .branch key path children ∧
      type = ⟨Identifier.ofKey key, path, children.map field⟩ := by
  cases node with
  | leaf key path value => cases h
  | branch key path children => exact ⟨key, path, children, rfl, (Option.some.inj h).symm⟩

theorem mem_valueTypesOf_iff_ownType? {type : ValueType} {nodes : List Node} :
    type ∈ valueTypesOf nodes ↔ ∃ node ∈ descendantsOf nodes, node.ownType? = some type := by
  rw [valueTypesOf_eq_filterMap, List.mem_filterMap]

end Node

end TypedSettings

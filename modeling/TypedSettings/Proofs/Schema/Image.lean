import Mathlib
import TypedSettings.Schema.Tree
import TypedSettings.Proofs.Document.Regular

/-!
# Schema trees as images of documents

A schema tree says the same as the document it was made from: without keys and paths it is that
document again, and the path of every node leads back to what the node stands for. Nothing else is
an image of the document, so a tree is determined by these properties.

Main facts:
- `Node.members_ofMembers`: nothing is lost
- `Schema.Level.of_document`: every object of a tree is an object of the document, found at its path
- `Schema.ofText_isImage`: the tree of a text is the one image of the document it spells
-/

namespace TypedSettings

/-! ## §1 What nodes stand for -/

namespace Node

mutual

/-- The part of a document that a node stands for. -/
def document : Node → Value
  | .leaf _ _ value => value
  | .branch _ _ children => .object (members children)

/-- The members that nodes stand for. -/
def members : List Node → List (String × Value)
  | [] => []
  | node :: rest => (node.key, node.document) :: members rest

end

theorem ofMembers_eq_map (parent : KeyPath) (members : List (String × Value)) :
    ofMembers parent members = members.map fun member => ofMember parent member.1 member.2 := by
  induction members with
  | nil => rfl
  | cons member rest ih => rw [ofMembers, ih, List.map_cons]

@[simp] theorem key_ofMember (parent : KeyPath) (key : String) (value : Value) :
    (ofMember parent key value).key = key := by
  cases value <;> rfl

@[simp] theorem path_ofMember (parent : KeyPath) (key : String) (value : Value) :
    (ofMember parent key value).path = parent ++ [key] := by
  cases value <;> rfl

theorem keys_ofMembers (parent : KeyPath) (members : List (String × Value)) :
    (ofMembers parent members).map Node.key = OrderedMap.keys members := by
  rw [ofMembers_eq_map, List.map_map]
  exact List.map_congr_left fun member _ => key_ofMember parent member.1 member.2

mutual

/-- A node stands for the value it was made from. -/
theorem document_ofMember (parent : KeyPath) (key : String) :
    ∀ value : Value, (ofMember parent key value).document = value
  | .null | .boolean _ | .number _ | .string _ | .array _ => rfl
  | .object inner => by
    rw [ofMember, document, members_ofMembers]

/-- **Nothing is lost**: the nodes of some members stand for these members. -/
theorem members_ofMembers (parent : KeyPath) :
    ∀ inner : List (String × Value), members (ofMembers parent inner) = inner
  | [] => rfl
  | (key, value) :: rest => by
    rw [ofMembers, members, key_ofMember, document_ofMember, members_ofMembers]

end

end Node

/-! ## §2 Levels of a tree -/

namespace Schema

/-- `Level schema path nodes`: the tree has the members `nodes` for the object at `path`. -/
inductive Level (schema : Schema) : KeyPath → List Node → Prop where
  | root : Level schema [] schema
  | nested {parent path : KeyPath} {nodes children : List Node} {key : String}
      (outer : Level schema parent nodes) (mem : Node.branch key path children ∈ nodes) :
      Level schema path children

/-- A branch among the nodes of some members comes from an object among them. -/
theorem of_branch_mem_ofMembers {parent path : KeyPath} {members : List (String × Value)}
    {key : String} {children : List Node}
    (h : Node.branch key path children ∈ Node.ofMembers parent members) :
    ∃ inner, (key, Value.object inner) ∈ members ∧ path = parent ++ [key] ∧
      children = Node.ofMembers path inner := by
  rw [Node.ofMembers_eq_map, List.mem_map] at h
  obtain ⟨⟨k, value⟩, hmem, hnode⟩ := h
  -- Only an object makes a branch.
  cases value with
  | object inner =>
    simp only [Node.ofMember, Node.branch.injEq] at hnode
    obtain ⟨rfl, rfl, rfl⟩ := hnode
    exact ⟨inner, hmem, rfl, rfl⟩
  | null => cases hnode
  | boolean b => cases hnode
  | number n => cases hnode
  | string text => cases hnode
  | array items => cases hnode

/-- **Levels are objects of the document**: the nodes of a level are made from the members of the
object that its path leads to. -/
theorem Level.of_document {members : List (String × Value)} {path : KeyPath} {nodes : List Node}
    (unique : (Value.object members).UniqueKeys)
    (level : Level (Node.ofMembers [] members) path nodes) :
    ∃ inner, (Value.object members).lookup path = some (.object inner) ∧
      (Value.object inner).UniqueKeys ∧ nodes = Node.ofMembers path inner := by
  induction level with
  | root => exact ⟨members, rfl, unique, rfl⟩
  | nested _ mem ih =>
    -- The object of the outer level has the branch as a member, and no other under its key.
    obtain ⟨outer, hlookup, houter, rfl⟩ := ih
    obtain ⟨inner, hmem, rfl, rfl⟩ := of_branch_mem_ofMembers mem
    exact ⟨inner, houter.lookup_member hlookup hmem, houter.of_mem_object hmem, rfl⟩

/-! ## §3 Images -/

/-- A tree is an image of an object: it holds its members in order and knows where they are. -/
structure IsImage (members : List (String × Value)) (schema : Schema) : Prop where
  /-- Without keys and paths the tree is the object. -/
  members_eq : Node.members schema = members
  /-- The path of a node is the path of its parent followed by its own key. -/
  path_eq : ∀ path nodes, Level schema path nodes → ∀ node ∈ nodes, node.path = path ++ [node.key]
  keys_nodup : ∀ path nodes, Level schema path nodes → (nodes.map Node.key).Nodup
  leaf_ne_object : ∀ path nodes, Level schema path nodes →
    ∀ key leafPath inner, Node.leaf key leafPath (.object inner) ∉ nodes
  /-- The path of a node leads to what the node stands for. -/
  lookup_path : ∀ path nodes, Level schema path nodes →
    ∀ node ∈ nodes, (Value.object members).lookup node.path = some node.document

theorem isImage_ofMembers {members : List (String × Value)}
    (unique : (Value.object members).UniqueKeys) :
    IsImage members (Node.ofMembers [] members) where
  members_eq := Node.members_ofMembers [] members
  path_eq := by
    intro path nodes level node hnode
    obtain ⟨inner, -, -, rfl⟩ := level.of_document unique
    rw [Node.ofMembers_eq_map, List.mem_map] at hnode
    obtain ⟨member, -, rfl⟩ := hnode
    rw [Node.path_ofMember, Node.key_ofMember]
  keys_nodup := by
    intro path nodes level
    obtain ⟨inner, -, hinner, rfl⟩ := level.of_document unique
    rw [Node.keys_ofMembers]
    exact hinner.keys_nodup
  leaf_ne_object := by
    intro path nodes level key leafPath object hleaf
    obtain ⟨inner, -, -, rfl⟩ := level.of_document unique
    rw [Node.ofMembers_eq_map, List.mem_map] at hleaf
    obtain ⟨⟨k, value⟩, -, heq⟩ := hleaf
    cases value <;> cases heq
  lookup_path := by
    intro path nodes level node hnode
    obtain ⟨inner, hlookup, hinner, rfl⟩ := level.of_document unique
    rw [Node.ofMembers_eq_map, List.mem_map] at hnode
    obtain ⟨member, hmem, rfl⟩ := hnode
    rw [Node.path_ofMember, Node.document_ofMember]
    exact hinner.lookup_member hlookup hmem

/-! ## §4 The one image of a document

Addresses and the absence of objects in leaves fix a node by what it stands for, level by level. -/

mutual

theorem IsImage.node_eq_ofMember {members : List (String × Value)} {schema : Schema}
    (h : IsImage members schema) {path : KeyPath} {nodes : List Node}
    (level : Level schema path nodes) :
    ∀ node ∈ nodes, node = Node.ofMember path node.key node.document
  | .leaf key leafPath value, hmem => by
    have hpath : leafPath = path ++ [key] := h.path_eq path nodes level _ hmem
    subst hpath
    -- A leaf is a node of its value unless that is an object.
    cases value with
    | object inner => exact absurd hmem (h.leaf_ne_object path nodes level key _ inner)
    | null => rfl
    | boolean b => rfl
    | number n => rfl
    | string text => rfl
    | array items => rfl
  | .branch key branchPath children, hmem => by
    have hpath : branchPath = path ++ [key] := h.path_eq path nodes level _ hmem
    -- The children make up a level of their own, one step further down.
    have hchildren : children = Node.ofMembers branchPath (Node.members children) :=
      h.nodes_eq_ofMembers (level.nested hmem) children fun _ hchild => hchild
    rw [Node.key, Node.document, Node.ofMember, ← hpath, ← hchildren]

/-- A part of a level is made from the members it stands for. -/
theorem IsImage.nodes_eq_ofMembers {members : List (String × Value)} {schema : Schema}
    (h : IsImage members schema) {path : KeyPath} {nodes : List Node}
    (level : Level schema path nodes) :
    ∀ part : List Node, (∀ node ∈ part, node ∈ nodes) →
      part = Node.ofMembers path (Node.members part)
  | [], _ => rfl
  | node :: rest, hsub => by
    have hnode : node = Node.ofMember path node.key node.document :=
      h.node_eq_ofMember level node (hsub node List.mem_cons_self)
    have hrest : rest = Node.ofMembers path (Node.members rest) :=
      h.nodes_eq_ofMembers level rest fun other hother => hsub other (List.mem_cons_of_mem _ hother)
    rw [Node.members, Node.ofMembers, ← hnode, ← hrest]

end

theorem IsImage.eq_ofMembers {members : List (String × Value)} {schema : Schema}
    (h : IsImage members schema) : schema = Node.ofMembers [] members := by
  have hschema := h.nodes_eq_ofMembers .root schema fun _ hnode => hnode
  rwa [h.members_eq] at hschema

theorem ofText_of_parse {text : String} {members : List (String × Value)}
    (h : Value.parse text = .ok (.object members)) :
    ofText text = .ok (Node.ofMembers [] members) := by
  rw [ofText, h]
  rfl

/-- The tree of a text is made from the members of the object that the text spells. -/
theorem eq_ofMembers_of_ofText {text : String} {schema : Schema} (h : ofText text = .ok schema) :
    ∃ members, Value.parse text = .ok (.object members) ∧ (Value.object members).UniqueKeys ∧
      schema = Node.ofMembers [] members := by
  unfold ofText at h
  split at h
  next => cases h
  next document hparse =>
    unfold ofDocument at h
    split at h
    next members =>
      cases h
      exact ⟨members, hparse, (Value.regular_of_parse hparse).uniqueKeys, rfl⟩
    next => cases h

/-- **The tree of a text is the one image of its document**: a text without a document fails with
the error of the reader, a document that is no object is refused by its kind, and any other text has
exactly the tree that is an image of the object it spells. -/
theorem ofText_isImage (text : String) :
    (∀ e, ofText text = .error (.invalid e) ↔ Value.parse text = .error e) ∧
    (∀ kind, ofText text = .error (.notAnObject kind) ↔
      ∃ value, Value.parse text = .ok value ∧ value.kind = kind ∧ kind ≠ .object) ∧
    (∀ schema, ofText text = .ok schema ↔
      ∃ members, Value.parse text = .ok (.object members) ∧ IsImage members schema) := by
  unfold ofText
  cases hparse : Value.parse text with
  | error e =>
    refine ⟨fun e' => by simp, fun kind => by simp, fun schema => by simp⟩
  | ok document =>
    cases document with
    | object members =>
      refine ⟨fun e => ?_, fun kind => ?_, fun schema => ?_⟩
      -- Neither error is possible; the tree is an image, and no other tree is.
      · simp [ofDocument]
      · simp only [ofDocument, reduceCtorEq, Except.ok.injEq, false_iff, not_exists, not_and]
        rintro value rfl rfl
        simp [Value.kind]
      · have unique := (Value.regular_of_parse hparse).uniqueKeys
        simp only [ofDocument, Except.ok.injEq, Value.object.injEq, exists_eq_left']
        exact ⟨fun heq => heq ▸ isImage_ofMembers unique, fun himage => himage.eq_ofMembers.symm⟩
    | null => simp [ofDocument, Value.kind]
    | boolean b => simp [ofDocument, Value.kind]
    | number n => simp [ofDocument, Value.kind]
    | string s => simp [ofDocument, Value.kind]
    | array items => simp [ofDocument, Value.kind]

end Schema

end TypedSettings

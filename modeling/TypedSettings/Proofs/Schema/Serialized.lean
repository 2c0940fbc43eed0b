import Mathlib
import TypedSettings.CommandLine.Run
import TypedSettings.Proofs.Document.Spelled
import TypedSettings.Proofs.FileTree.Links
import TypedSettings.Proofs.Schema.Image

/-!
# Serialized schemas are read back

A schema tree can be written as a document and read from it again, whatever its keys, paths and
values are: nothing in a leaf is mistaken for a node, since a reader looks at a value only after the
kind that stands before it. So whatever is computed from the tree can be computed from the document.

Main facts:
- `Node.ofSpelled?_toValue`: a node is read back from its document
- `Schema.ofSpelled?_toValue`: so is a tree
- `Schema.serialized_survives`: what is computed from a tree and what is computed from its document
-/

namespace TypedSettings

open Value (Regular)

namespace Node

/-! ## §1 Trees as documents -/

/-- No object in a leaf of the node has two members of one key. Nodes may repeat a key. -/
inductive UniqueKeys : Node → Prop where
  | leaf (key : String) (path : KeyPath) {value : Value} (value_unique : value.UniqueKeys) :
      UniqueKeys (.leaf key path value)
  | branch (key : String) (path : KeyPath) {children : List Node}
      (children_unique : ∀ child ∈ children, UniqueKeys child) :
      UniqueKeys (.branch key path children)

/-- The record of a kind and a value. -/
def tagged (kind : String) (payload : Value) : Value :=
  .object [("kind", .string kind), ("value", payload)]

/-- The record of a node. -/
def record (key : String) (path : KeyPath) (content : Value) : Value :=
  .object [("key", .string key), ("path", pathValue path), ("value", content)]

theorem toValue_leaf (key : String) (path : KeyPath) (value : Value) :
    (leaf key path value).toValue = record key path (tagged "scalar" value) := rfl

theorem toValue_branch (key : String) (path : KeyPath) (children : List Node) :
    (branch key path children).toValue =
      record key path (tagged "object" (.array (toValues children))) := rfl

theorem toValues_eq_map (nodes : List Node) : toValues nodes = nodes.map toValue := by
  induction nodes with
  | nil => rfl
  | cons node rest ih => rw [toValues, ih, List.map_cons]

theorem uniqueKeys_pathValue (path : KeyPath) : (pathValue path).UniqueKeys := by
  refine .array fun item hitem => ?_
  obtain ⟨key, -, rfl⟩ := List.mem_map.mp hitem
  exact .string key

theorem uniqueKeys_array_toValues {nodes : List Node}
    (h : ∀ node ∈ nodes, node.toValue.UniqueKeys) : (Value.array (toValues nodes)).UniqueKeys := by
  refine .array fun item hitem => ?_
  rw [toValues_eq_map] at hitem
  obtain ⟨node, hnode, rfl⟩ := List.mem_map.mp hitem
  exact h node hnode

theorem uniqueKeys_tagged (kind : String) {payload : Value} (h : payload.UniqueKeys) :
    (tagged kind payload).UniqueKeys :=
  .object (show ["kind", "value"].Nodup by decide) (by simpa using ⟨.string kind, h⟩)

theorem uniqueKeys_record (key : String) (path : KeyPath) {content : Value}
    (h : content.UniqueKeys) : (record key path content).UniqueKeys :=
  .object (show ["key", "path", "value"].Nodup by decide)
    (by simpa using ⟨.string key, uniqueKeys_pathValue path, h⟩)

/-- The document of a node has no repeated keys, even if the node has children of one key. -/
theorem UniqueKeys.toValue {node : Node} (h : node.UniqueKeys) : node.toValue.UniqueKeys := by
  induction h with
  | leaf key path value_unique =>
    rw [toValue_leaf]
    exact uniqueKeys_record key path (uniqueKeys_tagged "scalar" value_unique)
  | branch key path _ ih =>
    rw [toValue_branch]
    exact uniqueKeys_record key path (uniqueKeys_tagged "object" (uniqueKeys_array_toValues ih))

mutual

/-- What is made from a value without repeated keys has none in its leaves. -/
theorem uniqueKeys_ofMember (parent : KeyPath) (key : String) : ∀ {value : Value},
    value.UniqueKeys → (ofMember parent key value).UniqueKeys
  | .null, h | .boolean _, h | .number _, h | .string _, h | .array _, h => .leaf _ _ h
  | .object _, h => .branch _ _ (uniqueKeys_ofMembers (parent ++ [key]) fun _ hmember =>
      h.of_mem_object hmember)

theorem uniqueKeys_ofMembers (parent : KeyPath) : ∀ {members : List (String × Value)},
    (∀ member ∈ members, member.2.UniqueKeys) → ∀ node ∈ ofMembers parent members, node.UniqueKeys
  | [], _ => List.forall_mem_nil _
  | (key, value) :: rest, h => by
    obtain ⟨hvalue, hrest⟩ := List.forall_mem_cons.mp h
    exact List.forall_mem_cons.mpr
      ⟨uniqueKeys_ofMember parent key hvalue, uniqueKeys_ofMembers parent hrest⟩

end

/-! ## §2 Records are read -/

theorem mapM_textOf? (path : KeyPath) :
    (Spelled.ofItems (path.map .string)).mapM textOf? = some path := by
  induction path with
  | nil => rfl
  | cons key rest ih => simp [Spelled.ofItems, Spelled.ofValue, textOf?, ih]

theorem pathOf?_pathValue (depth : Nat) (path : KeyPath) :
    pathOf? (depth + 1) (Spelled.ofValue (pathValue path)) = some path := by
  rw [pathValue, Spelled.ofValue, pathOf?, mapM_textOf?]

/-- The kind stands before the value, so the value is read as its kind asks for. -/
theorem contentOf?_tagged {kind : String} {tag : Tag} (h : Tag.ofName? kind = some tag)
    (depth : Nat) (payload : Value) :
    contentOf? false (depth + 1) (Spelled.ofValue (tagged kind payload)) =
      taggedOf? false depth tag (Spelled.ofValue payload) := by
  have hfirst (spelled : Spelled) : valueComesFirst
      [(some "kind", .leaf (some (.string kind))), (some "value", spelled)] = false := rfl
  have htag (spelled : Spelled) : tagOf? false depth
      [(some "kind", .leaf (some (.string kind))), (some "value", spelled)] = some tag := h
  simp only [tagged, Spelled.ofValue, Spelled.ofMembers, contentOf?, htag, hfirst, Bool.or_false]
  cases htagged : taggedOf? false depth tag (Spelled.ofValue payload) <;>
    simp [payloadOf?, fill, htagged]

/-- A record of all three fields is a node if its content is read. -/
theorem ofSpelled?_record (depth : Nat) (key : String) (path : KeyPath) (content : Value) :
    ofSpelled? false (depth + 2) (Spelled.ofValue (record key path content)) =
      (contentOf? false (depth + 1) (Spelled.ofValue content)).map (ofContent key path) := by
  have hkey : textOf? (Spelled.ofValue (.string key)) = some key := by
    simp [Spelled.ofValue, textOf?]
  have hpath := pathOf?_pathValue depth path
  rw [record, Spelled.ofValue]
  simp only [Spelled.ofMembers, ofSpelled?]
  cases hcontent : contentOf? false (depth + 1) (Spelled.ofValue content) <;>
    simp [draftOf?, Draft.empty, Draft.node?, fill, hkey, hpath, hcontent]

theorem taggedOf?_scalar (depth : Nat) (spelled : Spelled) :
    taggedOf? false depth .scalar spelled = (spelled.value? depth).map .inl := by
  cases spelled <;> simp [taggedOf?]

theorem taggedOf?_object (depth : Nat) (items : List Value) :
    taggedOf? false (depth + 1) .object (Spelled.ofValue (.array items)) =
      (ofItems? false depth (Spelled.ofItems items)).map .inr := by
  rw [Spelled.ofValue, taggedOf?]

/-! ## §3 Nodes are read back -/

/-- What can be said of the levels of a record is said two levels further down of what it holds. -/
theorem regular_payload {limit : Nat} {key : String} {path : KeyPath} {kind : String}
    {payload : Value} (h : Regular limit (record key path (tagged kind payload))) :
    ∃ depth, limit = depth + 2 ∧ Regular depth payload := by
  obtain ⟨outer, rfl, hfields⟩ := h.of_object
  obtain ⟨-, hrest⟩ := List.forall_mem_cons.mp hfields
  obtain ⟨-, hlast⟩ := List.forall_mem_cons.mp hrest
  have hcontent : Regular outer (tagged kind payload) := hlast _ List.mem_cons_self
  obtain ⟨depth, rfl, hmembers⟩ := hcontent.of_object
  obtain ⟨-, hvalue⟩ := List.forall_mem_cons.mp hmembers
  exact ⟨depth, rfl, hvalue _ List.mem_cons_self⟩

-- The induction is on the node. Its record and the record of its kind and value are entered before
-- its value is read, and the list of its children before any of them is.
mutual

/-- **A node is read back from its document.** -/
theorem ofSpelled?_toValue {limit : Nat} : ∀ {node : Node}, Regular limit node.toValue →
    ofSpelled? false limit (Spelled.ofValue node.toValue) = some node
  | .leaf key path value, h => by
    rw [toValue_leaf] at h ⊢
    obtain ⟨depth, rfl, hvalue⟩ := regular_payload h
    rw [ofSpelled?_record, contentOf?_tagged rfl, taggedOf?_scalar, Spelled.value?_ofValue hvalue]
    rfl
  | .branch key path children, h => by
    rw [toValue_branch] at h ⊢
    obtain ⟨depth, rfl, hpayload⟩ := regular_payload h
    obtain ⟨inner, rfl, hchildren⟩ := hpayload.of_array
    rw [ofSpelled?_record, contentOf?_tagged rfl, taggedOf?_object, ofItems?_toValues hchildren]
    rfl

theorem ofItems?_toValues {limit : Nat} : ∀ {nodes : List Node},
    (∀ item ∈ toValues nodes, Regular limit item) →
      ofItems? false limit (Spelled.ofItems (toValues nodes)) = some nodes
  | [], _ => by rw [toValues, Spelled.ofItems, ofItems?]
  | node :: rest, h => by
    rw [toValues] at h ⊢
    obtain ⟨hnode, hrest⟩ := List.forall_mem_cons.mp h
    simp only [Spelled.ofItems, ofItems?, ofSpelled?_toValue hnode, ofItems?_toValues hrest]

end

end Node

/-! ## §4 Trees are read back -/

namespace Schema

theorem regular_toValue {schema : Schema} (h : ∀ node ∈ schema, node.UniqueKeys) :
    Regular schema.toValue.depth schema.toValue :=
  ⟨Node.uniqueKeys_array_toValues fun node hnode => (h node hnode).toValue, Nat.le_refl _⟩

/-- The tree of a text has no repeated keys in its leaves. -/
theorem uniqueKeys_of_ofText {text : String} {schema : Schema} (h : ofText text = .ok schema) :
    ∀ node ∈ schema, node.UniqueKeys := by
  obtain ⟨members, -, unique, rfl⟩ := eq_ofMembers_of_ofText h
  exact Node.uniqueKeys_ofMembers [] fun member hmember => unique.of_mem_object hmember

/-- **A tree is read back from its document**, as far as one may go down. -/
theorem ofSpelled?_toValue {limit : Nat} {schema : Schema} (h : Regular limit schema.toValue) :
    ofSpelled? limit (Spelled.ofValue schema.toValue) = some schema := by
  rw [toValue] at h ⊢
  obtain ⟨inner, rfl, hnodes⟩ := h.of_array
  rw [Spelled.ofValue, ofSpelled?, Node.ofItems?_toValues hnodes]

/-- **A printed tree is read back** if its numbers are integers and it does not lie too deep. -/
theorem ofSerialized?_pretty_newline {schema : Schema}
    (hregular : Regular Value.depthLimit schema.toValue) (hintegral : schema.toValue.Integral) :
    ofSerialized? (schema.toValue.pretty ++ "\n") = some schema := by
  rw [ofSerialized?, Spelled.parse?_pretty_newline hintegral, Option.bind_some,
    ofSpelled?_toValue hregular]

/-- **Serialized trees say all that trees say**: the document of a tree stands for the tree, so
types, holders, generated code and evaluated settings are the same for the tree that is read from
it. What the inspection of a settings file prints is this document, and the tree is read from that
text too if its numbers are integers and it does not lie too deep. -/
theorem serialized_survives {schema : Schema} (h : ∀ node ∈ schema, node.UniqueKeys) :
    ofValue? schema.toValue = some schema ∧
    (ofValue? schema.toValue).map valueTypes = some schema.valueTypes ∧
    (∀ variant program,
      (ofValue? schema.toValue).map (·.holder variant program) =
          some (schema.holder variant program) ∧
        (ofValue? schema.toValue).map (·.source variant program) =
          some (schema.source variant program) ∧
        ∀ document, (ofValue? schema.toValue).map
          (fun again => (again.holder variant program).simulate document) =
            some ((schema.holder variant program).simulate document)) ∧
    ∀ disk path, Command.readSchema disk path = .ok schema →
      ∃ output, Command.inspectFile disk path true = .ok output ∧
        (schema.toValue.depth ≤ Value.depthLimit → schema.toValue.Integral →
          ofSerialized? output = some schema) := by
  have hregular := regular_toValue h
  have hread : ofValue? schema.toValue = some schema := ofSpelled?_toValue hregular
  refine ⟨hread, ?types, fun variant program => ⟨?holder, ?source, fun document => ?values⟩,
    fun disk path hdisk =>
      ⟨schema.toValue.pretty ++ "\n", ?printed, fun hdepth hintegral => ?again⟩⟩
  case types | holder | source | values => rw [hread, Option.map_some]
  case printed => simp [Command.inspectFile, hdisk]
  case again => exact ofSerialized?_pretty_newline ⟨hregular.uniqueKeys, hdepth⟩ hintegral

/-- Nodes whose paths do not fit, two of one key, with leaves that look like nodes and kinds. -/
def lookalikes : Schema := [
  .branch "a" [] [.leaf "" ["b", ""] .null, .branch "value" ["kind"] []],
  .leaf "a" ["key"] (.object [("value", .array []), ("kind", .string "object")]),
  .leaf "value" ["a"] (.array [(Node.leaf "kind" [] (.number (.integer (-1)))).toValue, .null])]

theorem uniqueKeys_lookalikes : ∀ node ∈ lookalikes, node.UniqueKeys := by
  have hchildren : ∀ node ∈ [Node.leaf "" ["b", ""] .null, .branch "value" ["kind"] []],
      node.UniqueKeys :=
    List.forall_mem_cons.mpr
      ⟨.leaf _ _ .null, List.forall_mem_singleton.mpr (.branch _ _ (List.forall_mem_nil _))⟩
  have hobject : (Value.object [("value", .array []), ("kind", .string "object")]).UniqueKeys :=
    .object (show ["value", "kind"].Nodup by decide)
      (List.forall_mem_cons.mpr
        ⟨.array (List.forall_mem_nil _), List.forall_mem_singleton.mpr (.string _)⟩)
  have hnode : (Node.leaf "kind" [] (.number (.integer (-1)))).UniqueKeys := .leaf _ _ (.number _)
  have harray := Value.UniqueKeys.array
    (List.forall_mem_cons.mpr ⟨hnode.toValue, List.forall_mem_singleton.mpr .null⟩)
  exact List.forall_mem_cons.mpr ⟨.branch _ _ hchildren, List.forall_mem_cons.mpr
    ⟨.leaf _ _ hobject, List.forall_mem_singleton.mpr (.leaf _ _ harray)⟩⟩

/-- A settings file with an array. -/
def inspected : Disk where
  entries := [(["s.json"], .file (.text "\x7b\"value\": [null]\x7d"))]
  workingDirectory := []
  written := []

theorem serialized_survives_lookalikes :
    (∀ node ∈ lookalikes, node.UniqueKeys) ∧ ofValue? lookalikes.toValue = some lookalikes ∧
    ∃ schema output, Command.readSchema inspected ⟨"s.json"⟩ = .ok schema ∧
      (∀ node ∈ schema, node.UniqueKeys) ∧
      Command.inspectFile inspected ⟨"s.json"⟩ true = .ok output ∧
      schema.toValue.depth ≤ Value.depthLimit ∧ schema.toValue.Integral ∧
      ofSerialized? output = some schema := by
  let schema : Schema := [.leaf "value" ["value"] (.array [.null])]
  have htext : ofText "\x7b\"value\": [null]\x7d" = .ok schema := by cbv
  have hread : Command.readSchema inspected ⟨"s.json"⟩ = .ok schema := by
    have hresolve : inspected.resolve ⟨"s.json"⟩ = .ok ["s.json"] :=
      Disk.resolve_eq_ok_iff.mpr ⟨by decide,
        .file (by decide) rfl⟩
    have hfile : inspected.readText ⟨"s.json"⟩ = .ok "\x7b\"value\": [null]\x7d" := by
      rw [Disk.readText, hresolve]
      rfl
    rw [Command.readSchema, hfile]
    simp only [htext]
  have hpath : (Node.pathValue ["value"]).Integral :=
    .array (List.forall_mem_singleton.mpr (.string _))
  have hcontent : (Node.tagged "scalar" (.array [.null])).Integral :=
    .object (by simpa using ⟨.string _, .array (List.forall_mem_singleton.mpr .null)⟩)
  have hintegral : schema.toValue.Integral :=
    .array (List.forall_mem_singleton.mpr
      (.object (by simpa using ⟨.string _, hpath, hcontent⟩)))
  have hunique := uniqueKeys_of_ofText htext
  obtain ⟨hvalue, -⟩ := serialized_survives uniqueKeys_lookalikes
  obtain ⟨-, -, -, hprinted⟩ := serialized_survives hunique
  obtain ⟨output, houtput, hagain⟩ := hprinted inspected ⟨"s.json"⟩ hread
  exact ⟨uniqueKeys_lookalikes, hvalue, schema, output, hread, hunique, houtput, by decide,
    hintegral, hagain (by decide) hintegral⟩

end Schema

end TypedSettings

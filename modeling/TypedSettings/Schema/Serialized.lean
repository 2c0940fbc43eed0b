import TypedSettings.Document.Parser
import TypedSettings.Document.Spelled
import TypedSettings.Schema.Tree
import TypedSettings.Schema.FieldType

/-!
# Serialized schemas

Schema trees and declared types as documents, and back. A node is a record of `key`, `path` and
`value`, whose value is a record of a `kind` and a `value`. Records are read with their fields in
any order, with fields that nobody asked for, or as the plain list of their fields; a field that is
absent, repeated or of the wrong form makes the document unreadable. What stands in a field that
nobody asked for does not matter, even if it denotes nothing.

## Main definitions

* `Schema.toValue` — a tree as a document
* `Schema.ofValue?` — the tree that a document stands for
* `Schema.ofSerialized?` — the tree that a text stands for
-/

namespace TypedSettings

/-! ## §1 Types -/

namespace ScalarType

/-- A type as a document. -/
def toValue : ScalarType → Value
  | .integer => .string "Integer"
  | .boolean => .string "Boolean"
  | .string => .string "String"
  | .sequence item => .object [("Sequence", item.toValue)]

/-- The type of a name; sequences have none. -/
def ofName? (name : String) : Option ScalarType :=
  if name = "Integer" then some .integer
  else if name = "Boolean" then some .boolean
  else if name = "String" then some .string
  else none

/-- The type that a document stands for. A name may also be written as a member that holds null. -/
def ofValue? : Value → Option ScalarType
  | .string name => ofName? name
  | .object [(name, .null)] => ofName? name
  | .object [(name, value)] =>
    if name = "Sequence" then (ofValue? value).map .sequence else none
  | _ => none

end ScalarType

namespace FieldType

/-- A type as a document. -/
def toValue : FieldType → Value
  | .scalar type => .object [("Scalar", type.toValue)]
  | .value name => .object [("Value", .string name)]

/-- The type that a document stands for. -/
def ofValue? : Value → Option FieldType
  | .object [(name, payload)] =>
    if name = "Scalar" then (ScalarType.ofValue? payload).map .scalar
    else if name = "Value" then payload.text?.map .value
    else none
  | _ => none

end FieldType

/-! ## §2 Trees -/

namespace Node

/-- A path as a document. -/
def pathValue (path : KeyPath) : Value := .array (path.map .string)

mutual

/-- A node as a document. -/
def toValue : Node → Value
  | .leaf key path value =>
    .object [("key", .string key), ("path", pathValue path),
      ("value", .object [("kind", .string "scalar"), ("value", value)])]
  | .branch key path children =>
    .object [("key", .string key), ("path", pathValue path),
      ("value", .object [("kind", .string "object"), ("value", .array (toValues children))])]

/-- Nodes as documents. -/
def toValues : List Node → List Value
  | [] => []
  | node :: rest => toValue node :: toValues rest

end

/-! ## §3 Trees from documents

The kind of a record decides how its value is read. A value that stands before its kind is set aside
until the kind is known, and for that it has to denote a document as a whole. Whatever is read from
what was set aside may say a little less exactly which kind it is. -/

/-- What a node holds. -/
abbrev Content := Value ⊕ List Node

/-- The node of a key, a path and a content. -/
def ofContent (key : String) (path : KeyPath) : Content → Node
  | .inl value => .leaf key path value
  | .inr children => .branch key path children

/-- The kinds of content. -/
inductive Tag where
  | scalar
  | object
  deriving DecidableEq, Repr

/-- The kind of a name. -/
def Tag.ofName? (name : String) : Option Tag :=
  if name = "scalar" then some .scalar
  else if name = "object" then some .object
  else none

/-- The kind of a number. -/
def Tag.ofIndex? (index : Int) : Option Tag :=
  if index = 0 then some .scalar
  else if index = 1 then some .object
  else none

/-- Does a document say nothing? Set aside, an empty record says as little as null does. -/
def isVoid (aside : Bool) : Spelled → Bool
  | .leaf (some .null) => true
  | .object [] => aside
  | _ => false

/-- The kind in a record: its name, or a record whose only field has that name and says nothing. -/
def Tag.ofField? (aside : Bool) (depth : Nat) : Spelled → Option Tag
  | .leaf (some (.string name)) => ofName? name
  | .object [(some name, payload)] =>
    if 0 < depth ∧ isVoid aside payload then ofName? name else none
  | _ => none

/-- The kind in a list of fields: its name or, set aside, its number. -/
def Tag.ofItem? (aside : Bool) : Spelled → Option Tag
  | .leaf (some (.string name)) => ofName? name
  | .leaf (some (.number (.integer index))) => if aside then ofIndex? index else none
  | _ => none

/-- The kind that a record gives once. -/
def tagOf? (aside : Bool) (depth : Nat) (members : List (Option String × Spelled)) : Option Tag :=
  match members.filter fun member => member.1 = some "kind" with
  | [(_, kind)] => Tag.ofField? aside depth kind
  | _ => none

/-- Does a record give its value before its kind? -/
def valueComesFirst (members : List (Option String × Spelled)) : Bool :=
  match members.find? fun member => member.1 = some "kind" ∨ member.1 = some "value" with
  | some (name, _) => name = some "value"
  | none => false

/-- The text that a document is. -/
def textOf? : Spelled → Option String
  | .leaf (some (.string text)) => some text
  | _ => none

/-- The path that a document stands for. -/
def pathOf? : (depth : Nat) → Spelled → Option KeyPath
  | _ + 1, .array items => items.mapM textOf?
  | _, _ => none

/-- The fields of a node that have been read so far. -/
structure Draft where
  key : Option String
  path : Option KeyPath
  content : Option Content

/-- A draft without any field. -/
def Draft.empty : Draft := ⟨none, none, none⟩

/-- The node of a complete draft. -/
def Draft.node? : Draft → Option Node
  | ⟨some key, some path, some content⟩ => some (ofContent key path content)
  | _ => none

/-- Fills a field that has not been filled before. -/
def fill {α : Type} (slot : Option α) (value : Option α) : Option (Option α) :=
  match slot, value with
  | none, some value => some (some value)
  | _, _ => none

mutual

/-- The node that a document stands for; `depth` levels of it may be entered. -/
def ofSpelled? (aside : Bool) : (depth : Nat) → Spelled → Option Node
  | depth + 1, .object members => (draftOf? aside depth .empty members).bind Draft.node?
  | depth + 1, .array [key, path, content] =>
    match textOf? key, pathOf? depth path, contentOf? aside depth content with
    | some key, some path, some content => some (ofContent key path content)
    | _, _, _ => none
  | _, _ => none

/-- The nodes that documents stand for. -/
def ofItems? (aside : Bool) (depth : Nat) : List Spelled → Option (List Node)
  | [] => some []
  | item :: rest =>
    match ofSpelled? aside depth item, ofItems? aside depth rest with
    | some node, some nodes => some (node :: nodes)
    | _, _ => none

/-- Fills a draft from the members of a record. -/
def draftOf? (aside : Bool) (depth : Nat) (draft : Draft) :
    List (Option String × Spelled) → Option Draft
  | [] => some draft
  | (none, _) :: _ => none
  | (some name, item) :: rest =>
    if name = "key" then
      match fill draft.key (textOf? item) with
      | some key => draftOf? aside depth { draft with key } rest
      | none => none
    else if name = "path" then
      match fill draft.path (pathOf? depth item) with
      | some path => draftOf? aside depth { draft with path } rest
      | none => none
    else if name = "value" then
      match fill draft.content (contentOf? aside depth item) with
      | some content => draftOf? aside depth { draft with content } rest
      | none => none
    else draftOf? aside depth draft rest

/-- The content that a tagged document stands for. -/
def contentOf? (aside : Bool) : (depth : Nat) → Spelled → Option Content
  | depth + 1, .object members =>
    match tagOf? aside depth members with
    | some tag =>
      match payloadOf? (aside || valueComesFirst members) depth tag none members with
      | some (some content) => some content
      | _ => none
    | none => none
  | depth + 1, .array [kind, payload] =>
    match Tag.ofItem? aside kind with
    | some tag => taggedOf? aside depth tag payload
    | none => none
  | _, _ => none

/-- The content of the members called `value`, of which there is at most one. -/
def payloadOf? (aside : Bool) (depth : Nat) (tag : Tag) (found : Option Content) :
    List (Option String × Spelled) → Option (Option Content)
  | [] => some found
  | (none, _) :: _ => none
  | (some name, payload) :: rest =>
    if name = "value" then
      if aside ∧ (payload.value? depth).isNone then none
      else match fill found (taggedOf? aside depth tag payload) with
        | some content => payloadOf? aside depth tag content rest
        | none => none
    else payloadOf? aside depth tag found rest

/-- The content of a payload under its tag. -/
def taggedOf? (aside : Bool) (depth : Nat) (tag : Tag) : Spelled → Option Content
  | .array items =>
    match tag, depth with
    | .scalar, depth => ((Spelled.array items).value? depth).map .inl
    | .object, depth + 1 => (ofItems? aside depth items).map .inr
    | .object, 0 => none
  | payload =>
    match tag with
    | .scalar => (payload.value? depth).map .inl
    | .object => none

end

end Node

namespace Schema

/-- A tree as a document. -/
def toValue (schema : Schema) : Value := .array (Node.toValues schema)

/-- The tree that a spelled document stands for; `depth` levels of it may be entered. -/
def ofSpelled? : (depth : Nat) → Spelled → Option Schema
  | depth + 1, .array items => Node.ofItems? false depth items
  | _, _ => none

/-- The tree that a document stands for. -/
def ofValue? (value : Value) : Option Schema := ofSpelled? value.depth (.ofValue value)

/-- The tree of its serialized text. -/
def ofSerialized? (text : String) : Option Schema :=
  (Spelled.parse? text).bind (ofSpelled? Value.depthLimit)

end Schema

end TypedSettings

import Mathlib
import TypedSettings.Proofs.Generated.Descendants
import TypedSettings.Proofs.Generated.Tokens
import TypedSettings.Proofs.Text.TypeNames

/-!
# Types that a module mentions

What every type in a module is written for, in the order of the module: the types of fixed code, the
types of fields, and the structures that the initializer constructs. Read off the tokens of a
module, the types that it uses are these, and the structures that it declares are the holder and one
for every nested object.

Main facts:
- `Schema.mentions`: the types in a module, and what they were written for
- `Schema.used_moduleTokens`: they are the types that its tokens use
- `Schema.declared_moduleTokens`: the structures that its tokens declare
-/

namespace TypedSettings

open Code (cut Event Reads Types readTypes readTypes_append readTypes_ofList
  readTypes_name_ofList)

/-! ## §1 Mentions -/

/-- What the name of a type stands for. -/
inductive Meaning where
  /-- What a path from the root leads to. -/
  | outside (path : List String)
  /-- What a name stands for where no module declares it. -/
  | predeclared (name : String)
  | holder
  | nested (type : ValueType)
  deriving DecidableEq

/-- A type as a module names it, and what it was written for. -/
abbrev Mention := Code.TypeName × Meaning

namespace Mention

/-- What a path from the root leads to. -/
def outside (path : List String) : Mention := (.rooted path, .outside path)

/-- The type of the file name constant. -/
def fileNameType : Mention := (.plain "str", .predeclared "str")

/-- The uses of types that are mentioned. -/
def uses (mentions : List Mention) : List Event := mentions.map fun mention => .uses mention.1

theorem uses_append (first second : List Mention) :
    uses (first ++ second) = uses first ++ uses second :=
  List.map_append

theorem filterMap_used?_uses (mentions : List Mention) :
    (uses mentions).filterMap Event.used? = mentions.map Prod.fst := by
  simp [uses, List.filterMap_map, Function.comp_def, Event.used?]

theorem filterMap_declared?_uses (mentions : List Mention) :
    (uses mentions).filterMap Event.declared? = [] := by
  simp [uses, List.filterMap_map, Function.comp_def, Event.declared?]

end Mention

open Mention (outside uses)

/-- The types in the spelling of a scalar type. -/
def ScalarType.mentions : ScalarType → List Mention
  | .integer => [outside ["core", "primitive", "i64"]]
  | .boolean => [outside ["core", "primitive", "bool"]]
  | .string => [outside ["std", "string", "String"]]
  | .sequence item => outside ["std", "vec", "Vec"] :: item.mentions

namespace Node

/-- A nested object, by the name of its structure. -/
def structureMention (key : String) (path : KeyPath) (children : List Node) : Mention :=
  (.plain (Identifier.ofKey key), .nested ⟨Identifier.ofKey key, path, children.map field⟩)

/-- The types in the declaration of a field. -/
def fieldMentions : Node → List Mention
  | .leaf _ _ value => (ScalarType.infer value).mentions
  | .branch key path children => [structureMention key path children]

/-- The types in the declaration of the structure of a node. -/
def structureMentions : Node → List Mention
  | .leaf .. => []
  | .branch _ _ children => children.flatMap fieldMentions

mutual

/-- The types in the step that fills a field. -/
def stepMentions : Node → List Mention
  | .leaf .. => [outside ["settingsgen_runtime", "read"]]
  | .branch key path children => structureMention key path children :: stepsMentions children

/-- The types in several steps. -/
def stepsMentions : List Node → List Mention
  | [] => []
  | node :: rest => stepMentions node ++ stepsMentions rest

end

end Node

namespace Schema

/-- The types in the declarations of the file name and the instance. -/
def instanceMentions (own : Mention) : List Mention :=
  [.fileNameType, outside ["std", "sync", "LazyLock"], own,
    outside ["std", "sync", "LazyLock", "new"], own]

/-- The types in the accessors of the holder. -/
def accessorMentions (own : Mention) : List Mention :=
  [own, own,
    outside ["core", "result", "Result"], own, outside ["settingsgen_runtime", "Error"],
    outside ["settingsgen_runtime", "load_adjacent"], own,
    outside ["settingsgen_runtime", "Value"],
    outside ["core", "result", "Result"], own, outside ["settingsgen_runtime", "Error"], own]

/-- The types in a module, in the order of its text, and what they are written for. -/
def mentions (schema : Schema) (variant : Variant) : List Mention :=
  let own : Mention := (.plain variant.typeName, .holder)
  instanceMentions own ++ schema.flatMap Node.fieldMentions ++ accessorMentions own ++
    Node.stepsMentions (schema.filter Node.isAssigned) ++
    [outside ["core", "result", "Result", "Ok"]] ++
    (Node.descendantsOf schema).flatMap Node.structureMentions

end Schema

/-! ## §2 Declarations -/

namespace Source

variable {owner : String}

theorem readTypes_indent (level : Nat) (types : Types) :
    readTypes types (cut (indent level)) = ([], types) := by
  apply Code.readTypes_blanks
  rw [indent, Code.cut_ofList]
  induction 4 * level with
  | zero => exact List.forall_mem_nil _
  | succ count ih =>
    have hcut (chars : List Char) :
        Code.cutChars (' ' :: chars) = .mark ' ' :: Code.cutChars chars := rfl
    rw [List.replicate_succ, hcut, List.forall_mem_cons]
    exact ⟨List.mem_cons_self, ih⟩

/-- The end of a line changes nothing. -/
theorem readTypes_flatten_cons {line : List Code.Token} {rest : List (List Code.Token)}
    {events events' : List Event} {types middle last : Types}
    (hline : readTypes types line = (events, middle))
    (hrest : readTypes middle (flatten rest) = (events', last)) :
    readTypes types (flatten (line :: rest)) = (events ++ events', last) := by
  have hfeed : readTypes middle [.mark '\n'] = ([], middle) :=
    Code.readTypes_blanks (by simp) middle
  rw [flatten_cons]
  exact readTypes_append hline (readTypes_append hfeed hrest)

theorem readTypes_flatten_singleton {line : List Code.Token} {events : List Event}
    {types last : Types} (hline : readTypes types line = (events, last)) :
    readTypes types (flatten [line]) = (events, last) := by
  have hrest : readTypes last (flatten []) = ([], last) := rfl
  have hlines := readTypes_flatten_cons hline hrest
  rwa [List.append_nil] at hlines

/-- The spelling of a type ends at a comma or at the bracket that closes a sequence. -/
theorem readTypes_spelling (type : ScalarType) {depth : Nat} {c : Char} (hc : c ∈ [',', '>']) :
    readTypes ⟨.type depth, .nothing, owner⟩ (cut type.spelling ++ [.mark c]) =
      (uses type.mentions, ⟨Types.placeAfter (.type depth) .nothing c, .nothing, owner⟩) := by
  simp only [List.mem_cons, List.not_mem_nil, or_false] at hc
  induction type generalizing depth c with
  | integer =>
    rw [ScalarType.spelling, Code.cut_ofList]
    rcases hc with rfl | rfl <;> rfl
  | boolean =>
    rw [ScalarType.spelling, Code.cut_ofList]
    rcases hc with rfl | rfl <;> rfl
  | string =>
    rw [ScalarType.spelling, Code.cut_ofList]
    rcases hc with rfl | rfl <;> rfl
  | sequence item ih =>
    have hvec : readTypes ⟨.type depth, .nothing, owner⟩ (cut "::std::vec::Vec<") =
        ([.uses (.rooted ["std", "vec", "Vec"])], ⟨.type (depth + 1), .nothing, owner⟩) :=
      readTypes_ofList rfl
    have hclose : readTypes ⟨.type depth, .nothing, owner⟩ [.mark c] =
        ([], ⟨Types.placeAfter (.type depth) .nothing c, .nothing, owner⟩) := by
      rcases hc with rfl | rfl <;> rfl
    have hitem : readTypes ⟨.type (depth + 1), .nothing, owner⟩ (cut item.spelling ++ [.mark '>']) =
        (uses item.mentions, ⟨.type depth, .nothing, owner⟩) := ih (.inr rfl)
    have hgreater : cut ">" = [.mark '>'] := by decide
    rw [cut_sequence, hgreater, List.append_assoc]
    have hsequence := readTypes_append hvec (readTypes_append hitem hclose)
    simpa [ScalarType.mentions, uses, outside] using hsequence

/-- The type of a field, in front of the comma that ends its declaration. -/
theorem readTypes_typeTokens (node : Node) :
    readTypes ⟨.type 0, .nothing, owner⟩ (typeTokens node.type ++ [.mark ',']) =
      (uses node.fieldMentions, .between owner) := by
  cases node with
  | leaf key path value => exact readTypes_spelling _ (by simp)
  | branch key path children => rfl

theorem reads_fieldTokens (node : Node) :
    Reads owner (fieldTokens node.field) (uses node.fieldMentions) := by
  have hpub : readTypes (.between owner) (cut "pub ") = ([], .between owner) := readTypes_ofList rfl
  have hname : readTypes (.between owner) (.name node.ident :: cut ": ") =
      ([], ⟨.type 0, .nothing, owner⟩) := readTypes_name_ofList rfl
  have hcomma : cut "," = [.mark ','] := by decide
  have hopening := readTypes_append (readTypes_indent 2 (.between owner)) hpub
  have hfield := readTypes_append hopening (readTypes_append hname (readTypes_typeTokens node))
  rw [fieldTokens, hcomma]
  exact hfield

theorem readTypes_brace : readTypes (.between owner) (cut "\x7d") = ([], .between owner) :=
  readTypes_ofList rfl

/-- The declaration of a structure declares it, and uses the types of its fields. -/
theorem reads_structureTokens (owner name : String) (nodes : List Node) :
    Reads owner (flatten (structureTokens name (nodes.map Node.field)))
      (.declares name :: uses (nodes.flatMap Node.fieldMentions)) := by
  have hindent := readTypes_indent 1 (.between owner)
  have hderive : Reads owner (cut "#[derive(Debug, Clone, Default, PartialEq, Eq)]") [] :=
    readTypes_ofList rfl
  have hopening : readTypes (.between owner) (cut "pub struct ") =
      ([], ⟨.code, .declaring, owner⟩) := readTypes_ofList rfl
  cases nodes with
  | nil =>
    have hempty : readTypes ⟨.code, .declaring, owner⟩ (.name name :: cut " \x7b\x7d") =
        ([.declares name], .between owner) := readTypes_name_ofList rfl
    exact readTypes_flatten_cons (readTypes_append hindent hderive) (readTypes_flatten_cons
      (readTypes_append (readTypes_append hindent hopening) hempty) rfl)
  | cons node nodes =>
    have hbrace : readTypes ⟨.code, .declaring, owner⟩ (.name name :: cut " \x7b") =
        ([.declares name], .between owner) := readTypes_name_ofList rfl
    -- The fields stand between the braces, in their order.
    have hfields : Reads owner (flatten (((node :: nodes).map Node.field).map fieldTokens))
        (uses ((node :: nodes).flatMap Node.fieldMentions)) := by
      induction node :: nodes with
      | nil => rfl
      | cons node nodes ih =>
        rw [List.flatMap_cons, Mention.uses_append]
        exact readTypes_flatten_cons (reads_fieldTokens node) ih
    have hinner := hfields.append
      (readTypes_flatten_singleton (readTypes_append hindent readTypes_brace))
    rw [← flatten_append] at hinner
    simp only [List.append_nil] at hinner
    exact readTypes_flatten_cons (readTypes_append hindent hderive) (readTypes_flatten_cons
      (readTypes_append (readTypes_append hindent hopening) hbrace) hinner)

/-- The structures of nested objects, and the types of their fields. -/
def structureEvents : Node → List Event
  | .leaf .. => []
  | .branch key path children =>
    .declares (Identifier.ofKey key) :: uses (Node.branch key path children).structureMentions

theorem reads_sections (owner : String) (nodes : List Node) :
    Reads owner (flatten ((nodes.filterMap Node.ownType?).flatMap sectionTokens))
      (nodes.flatMap structureEvents) := by
  induction nodes with
  | nil => rfl
  | cons node nodes ih =>
    cases node with
    | leaf key path value => exact ih
    | branch key path children =>
      have hindent := readTypes_indent 1 (.between owner)
      have hcomment : readTypes (.between owner)
          [.comment ("/// Values of the `" ++ path.dotted ++ "` section.")] =
            ([], .between owner) := rfl
      have hsection : Reads owner (flatten (sectionTokens ⟨_, path, children.map Node.field⟩))
          (structureEvents (.branch key path children)) :=
        readTypes_flatten_cons (Code.readTypes_nil _) (readTypes_flatten_cons
          (readTypes_append hindent hcomment) (reads_structureTokens owner _ children))
      have hsections := hsection.append ih
      rw [← flatten_append] at hsections
      exact hsections

/-! ## §3 Statements -/

theorem readTypes_keyTokens : ∀ path : KeyPath,
    readTypes (.between owner) (keyTokens path) = ([], .between owner)
  | [] => rfl
  | [_] => rfl
  | _ :: next :: path => readTypes_keyTokens (next :: path)

/-- A call is used by its path from the root, wherever it stands. -/
theorem readTypes_readCall {place : Code.Place} (hplace : place ≠ .brackets) (path : KeyPath) :
    readTypes ⟨place, .nothing, owner⟩ (cut (readCall path)) =
      (uses [outside ["settingsgen_runtime", "read"]], .between owner) := by
  have hopening : readTypes ⟨place, .nothing, owner⟩ (cut callOpening) =
      (uses [outside ["settingsgen_runtime", "read"]], .between owner) := by
    rw [callOpening, Code.cut_ofList]
    cases place with
    | code => rfl
    | type depth => rfl
    | brackets => exact absurd rfl hplace
  have hclosing : readTypes (.between owner) (cut callClosing) = ([], .between owner) := by
    rw [callClosing, Code.cut_ofList]
    rfl
  rw [cut_readCall]
  exact readTypes_append hopening (readTypes_append (readTypes_keyTokens path) hclosing)

/-- The name in a structure expression is used, wherever the expression stands. -/
theorem readTypes_construct {place : Code.Place} (hplace : place ≠ .brackets) (name : String) :
    readTypes ⟨place, .nothing, owner⟩ (.name name :: cut " \x7b") =
      ([.uses (.plain name)], .between owner) := by
  rw [Code.cut_ofList]
  cases place with
  | code => rfl
  | type depth => rfl
  | brackets => exact absurd rfl hplace

mutual

theorem reads_stepTokens {level : Nat} {opening closing : List Code.Token} {place : Code.Place}
    (hplace : place ≠ .brackets)
    (hopening : readTypes (.between owner) opening = ([], ⟨place, .nothing, owner⟩))
    (hclosing : readTypes (.between owner) closing = ([], .between owner)) : ∀ node : Node,
    Reads owner (flatten (stepTokens level opening closing node.step)) (uses node.stepMentions)
  | .leaf _ path _ => by
    have hcall := readTypes_append (readTypes_indent level (.between owner))
      (readTypes_append hopening (readTypes_append (readTypes_readCall hplace path) hclosing))
    exact readTypes_flatten_singleton hcall
  | .branch key path [] => by
    have hempty : cut " \x7b\x7d" = cut " \x7b" ++ cut "\x7d" := by decide
    have hname := readTypes_append (readTypes_construct hplace (Identifier.ofKey key))
      (readTypes_append readTypes_brace hclosing)
    have hline := readTypes_append (readTypes_indent level (.between owner))
      (readTypes_append hopening hname)
    have hstep := readTypes_flatten_singleton hline
    simp only [Node.step, Node.steps, stepTokens, hempty, List.append_assoc]
    exact hstep
  | .branch key path (child :: children) => by
    have hfirst := readTypes_append (readTypes_indent level (.between owner))
      (readTypes_append hopening (readTypes_construct hplace (Identifier.ofKey key)))
    have hlast := readTypes_append (readTypes_indent level (.between owner))
      (readTypes_append readTypes_brace hclosing)
    have hinner := (reads_fieldsTokens (level + 1) (child :: children)).append
      (readTypes_flatten_singleton hlast)
    rw [← flatten_append] at hinner
    simp only [List.append_nil] at hinner
    exact readTypes_flatten_cons hfirst hinner

theorem reads_fieldsTokens (level : Nat) : ∀ nodes : List Node,
    Reads owner (flatten (fieldsTokens level (Node.steps nodes))) (uses (Node.stepsMentions nodes))
  | [] => rfl
  | node :: nodes => by
    have hopening : readTypes (.between owner) (.name node.step.target :: cut ": ") =
        ([], ⟨.type 0, .nothing, owner⟩) := readTypes_name_ofList rfl
    have hcomma : readTypes (.between owner) (cut ",") = ([], .between owner) :=
      readTypes_ofList rfl
    have hfield : Reads owner (flatten (stepTokens level _ _ node.step)) _ :=
      reads_stepTokens (by decide) hopening hcomma node
    have hfields := hfield.append (reads_fieldsTokens level nodes)
    rw [← flatten_append, ← Mention.uses_append] at hfields
    exact hfields

end

theorem reads_statements (owner : String) (nodes : List Node) :
    Reads owner (flatten ((Node.steps nodes).flatMap statementTokens))
      (uses (Node.stepsMentions nodes)) := by
  induction nodes with
  | nil => rfl
  | cons node nodes ih =>
    have hopening : readTypes (.between owner)
        (cut "settings." ++ .name node.step.target :: cut " = ") = ([], .between owner) := by
      rw [Code.cut_ofList, Code.cut_ofList]
      rfl
    have hsemicolon : readTypes (.between owner) (cut ";") = ([], .between owner) :=
      readTypes_ofList rfl
    have hstatement : Reads owner (flatten (statementTokens node.step)) _ :=
      reads_stepTokens (by decide) hopening hsemicolon node
    have hstatements := hstatement.append ih
    rw [← flatten_append, ← Mention.uses_append] at hstatements
    exact hstatements

/-! ## §4 Modules -/

theorem reads_headerTokens (owner : String) (holder : Holder) :
    Reads owner (flatten (headerTokens holder)) [] := by
  rw [headerTokens]
  repeat rw [Code.cut_ofList]
  rfl

set_option maxRecDepth 2000 in
theorem reads_instanceTokens (owner : String) (holder : Holder) :
    Reads owner (flatten (instanceTokens holder))
      (uses (Schema.instanceMentions (.plain holder.typeName, .holder))) := by
  rw [instanceTokens]
  repeat rw [Code.cut_ofList]
  rfl

/-- From the accessors on, `Self` abbreviates the name of the holder. -/
theorem readTypes_accessorTokens (variant : Variant) :
    readTypes (.between "Self") (flatten ([] :: accessorTokens variant.typeName)) =
      (uses (Schema.accessorMentions (.plain variant.typeName, .holder)),
        .between variant.typeName) := by
  rw [accessorTokens]
  repeat rw [Code.cut_ofList]
  cases variant <;> decide +kernel

/-- The end of the initializer and of the accessors. -/
theorem reads_return (variant : Variant) : Reads variant.typeName
    (flatten [cut "            ::core::result::Result::Ok(settings)", cut "        \x7d",
      cut "    \x7d"]) (uses [outside ["core", "result", "Result", "Ok"]]) := by
  repeat rw [Code.cut_ofList]
  rw [Reads]
  cases variant <;> decide +kernel

end Source

namespace Schema

open Source

variable (schema : Schema) (variant : Variant) (program : String)

/-- What the module of a variant declares and uses, in the order of its text. -/
def events : List Event :=
  let own : Mention := (.plain variant.typeName, .holder)
  uses (instanceMentions own) ++
    (.declares variant.typeName :: uses (schema.flatMap Node.fieldMentions) ++
      (uses (accessorMentions own) ++
        (uses (Node.stepsMentions (schema.filter Node.isAssigned)) ++
          (uses [outside ["core", "result", "Result", "Ok"]] ++
            (Node.descendantsOf schema).flatMap structureEvents))))

/-- **The events of a module** are read off its tokens. -/
theorem readTypes_moduleTokens :
    readTypes (.between "Self") (moduleTokens (schema.holder variant program) schema.valueTypes) =
      (schema.events variant, .between variant.typeName) := by
  have hview : Reads "Self" (flatten [cut (indent 1) ++
      [.comment ("/// Typed view of `" ++ (schema.holder variant program).fileName ++ "`.")]]) [] :=
    readTypes_flatten_singleton (readTypes_append (readTypes_indent 1 _) rfl)
  have hnames := ((reads_headerTokens "Self" (schema.holder variant program)).append
    (reads_instanceTokens "Self" (schema.holder variant program))).append hview
  have hend : Reads variant.typeName (flatten [cut "\x7d"]) [] :=
    readTypes_flatten_singleton readTypes_brace
  have hsections := (reads_sections variant.typeName (Node.descendantsOf schema)).append hend
  have hstatements := (reads_statements variant.typeName (schema.filter Node.isAssigned)).append
    ((reads_return variant).append hsections)
  have hplan := readTypes_append (reads_structureTokens "Self" variant.typeName schema)
    (readTypes_append (readTypes_accessorTokens variant) hstatements)
  have hmodule := readTypes_append hnames hplan
  have htypeName : (schema.holder variant program).typeName = variant.typeName := rfl
  have hproperties : (schema.holder variant program).properties = schema.map Node.field := rfl
  have hinitializer : (schema.holder variant program).initializer =
      Node.steps (schema.filter Node.isAssigned) := rfl
  rw [← Node.valueTypesOf_eq_filterMap] at hmodule
  rw [moduleTokens, htypeName, hproperties, hinitializer, events, valueTypes]
  simp only [← flatten_append, List.append_nil, List.nil_append, List.cons_append,
    List.append_assoc, htypeName] at hmodule ⊢
  exact hmodule

theorem filterMap_used?_structureEvents (nodes : List Node) :
    (nodes.flatMap structureEvents).filterMap Event.used? =
      (nodes.flatMap Node.structureMentions).map Prod.fst := by
  induction nodes with
  | nil => rfl
  | cons node nodes ih =>
    rw [List.flatMap_cons, List.flatMap_cons, List.filterMap_append, List.map_append, ih]
    cases node with
    | leaf key path value => rfl
    | branch key path children =>
      rw [structureEvents, Event.filterMap_used?_cons, Mention.filterMap_used?_uses]

theorem filterMap_declared?_structureEvents (nodes : List Node) :
    (nodes.flatMap structureEvents).filterMap Event.declared? =
      (nodes.filterMap Node.ownType?).map ValueType.name := by
  induction nodes with
  | nil => rfl
  | cons node nodes ih =>
    rw [List.flatMap_cons, List.filterMap_append, ih]
    cases node with
    | leaf key path value => rfl
    | branch key path children =>
      rw [structureEvents, Event.filterMap_declared?_cons, Mention.filterMap_declared?_uses]
      rfl

/-- **The structures that a module declares** are the holder and those of the nested objects. -/
theorem declared_moduleTokens :
    Code.declared (moduleTokens (schema.holder variant program) schema.valueTypes) =
      variant.typeName :: schema.valueTypes.map ValueType.name := by
  rw [Code.declared, readTypes_moduleTokens, events]
  simp only [List.filterMap_append, List.cons_append, Event.filterMap_declared?_cons,
    Mention.filterMap_declared?_uses, filterMap_declared?_structureEvents, List.nil_append,
    ← Node.valueTypesOf_eq_filterMap, valueTypes]

/-- **The types that a module uses** are the mentioned ones. -/
theorem used_moduleTokens :
    Code.used (moduleTokens (schema.holder variant program) schema.valueTypes) =
      (schema.mentions variant).map Prod.fst := by
  rw [Code.used, readTypes_moduleTokens, events, mentions]
  simp only [List.filterMap_append, List.cons_append, Event.filterMap_used?_cons,
    Mention.filterMap_used?_uses, filterMap_used?_structureEvents, List.map_append, List.map_cons,
    List.map_nil, List.nil_append, List.append_assoc]

end Schema

end TypedSettings

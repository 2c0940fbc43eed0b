import Mathlib
import TypedSettings.Generated.Display
import TypedSettings.Proofs.Generated.Legibility
import TypedSettings.Proofs.Generated.Mentions
import TypedSettings.Proofs.Generated.ProgramName

/-!
# Names of types in a module

A module declares the holder and one structure for every nested object, and refers to them by their
names alone; all other types but that of the file name constant are spelled by paths from the root,
which no declaration can redefine. Nothing keeps a nested object from having the name of the holder,
though. Where none has, every type that the text of the module mentions stands for what it was
written for, whatever the keys are.

Main facts:
- `Scope.ofHolder`, `Scope.denoted`: what names stand for in a module
- `Scope.denoted_of_resolves`: declared names stand for their structures
- `Schema.mentions_denote`: the types in the text of a module stand for what they were written for
-/

namespace TypedSettings

/-! ## §1 Scopes -/

/-- The structures that a module declares, by name. -/
abbrev Scope := List (String × Meaning)

namespace Scope

/-- The scope of a holder and its value types. -/
def ofHolder (holder : Holder) (types : List ValueType) : Scope :=
  (holder.typeName, .holder) :: types.map fun type => (type.name, .nested type)

/-- What a name stands for. Names are told apart by `identify`: by `id` if their spellings are
compared, by `Identifier.plain` if the identifiers are compared that they spell. -/
def meaningOf (identify : String → String) (scope : Scope) (name : String) : Meaning :=
  ((scope.find? fun declared => identify declared.1 == identify name).map Prod.snd).getD
    (.predeclared name)

/-- What a type stands for. Declarations matter to names only, not to paths from the root. -/
def denoted (identify : String → String) (scope : Scope) : Code.TypeName → Meaning
  | .rooted path => .outside path
  | .plain name => scope.meaningOf identify name

/-- Where declared names are told apart, each stands for its own structure. -/
theorem meaningOf_of_mem {identify : String → String} {scope : Scope}
    (h : (scope.map fun declared => identify declared.1).Nodup) {name : String} {meaning : Meaning}
    (hmem : (name, meaning) ∈ scope) : scope.meaningOf identify name = meaning := by
  rw [meaningOf]
  induction scope with
  | nil => cases hmem
  | cons first rest ih =>
    rw [List.map_cons, List.nodup_cons] at h
    rcases List.mem_cons.mp hmem with rfl | hrest
    · rw [List.find?_cons_of_pos (by simp)]
      rfl
    · have hne : identify first.1 ≠ identify name := fun heq =>
        h.1 (heq ▸ List.mem_map_of_mem (f := fun declared => identify declared.1) hrest)
      rw [List.find?_cons_of_neg (by simpa using hne)]
      exact ih h.2 hrest

/-- Declared names are told apart if value types are, and none of them is named as the holder. -/
theorem nodup_ofHolder_iff {identify : String → String} {holder : Holder} {types : List ValueType}
    (h : (types.map fun type => identify type.name).Nodup) :
    ((ofHolder holder types).map fun declared => identify declared.1).Nodup ↔
      ∀ type ∈ types, identify type.name ≠ identify holder.typeName := by
  rw [ofHolder, List.map_cons, List.map_map, List.nodup_cons]
  constructor
  · rintro ⟨hholder, -⟩ type htype heq
    exact hholder (List.mem_map.mpr ⟨type, htype, heq⟩)
  · intro hholder
    refine ⟨fun hmem => ?_, h⟩
    obtain ⟨type, htype, heq⟩ := List.mem_map.mp hmem
    exact hholder type htype heq

/-! ## §2 Mentions that a scope resolves -/

/-- A type is mentioned by a path from the root, or by the declared name of its structure. -/
def Resolves (scope : Scope) (mention : Mention) : Prop :=
  (∃ path, mention = .outside path) ∨
    ∃ name meaning, mention = (.plain name, meaning) ∧ (name, meaning) ∈ scope

/-- **Mentions stand for what they were written for**, where declared names are told apart. -/
theorem denoted_of_resolves {identify : String → String} {scope : Scope}
    (h : (scope.map fun declared => identify declared.1).Nodup) {mention : Mention}
    (hresolves : scope.Resolves mention) : scope.denoted identify mention.1 = mention.2 := by
  rcases hresolves with ⟨path, rfl⟩ | ⟨name, meaning, rfl, hmem⟩
  · rfl
  · exact meaningOf_of_mem h hmem

theorem resolves_outside (scope : Scope) (path : List String) :
    scope.Resolves (.outside path) := .inl ⟨path, rfl⟩

theorem resolves_of_mem_mentions (scope : Scope) (type : ScalarType) :
    ∀ mention ∈ type.mentions, scope.Resolves mention := by
  induction type with
  | sequence item ih =>
    rw [ScalarType.mentions, List.forall_mem_cons]
    exact ⟨scope.resolves_outside _, ih⟩
  | _ => exact List.forall_mem_singleton.mpr (scope.resolves_outside _)

end Scope

namespace Schema

variable {schema : Schema} {holder : Holder}

/-- The structure of a nested object is declared. -/
theorem resolves_structureMention {key : String} {path : KeyPath} {children : List Node}
    (h : Node.branch key path children ∈ Node.descendantsOf schema) :
    (Scope.ofHolder holder schema.valueTypes).Resolves
      (Node.structureMention key path children) := by
  have hmem : ⟨Identifier.ofKey key, path, children.map Node.field⟩ ∈ schema.valueTypes :=
    Node.mem_valueTypesOf_iff_ownType?.mpr ⟨_, h, rfl⟩
  exact .inr ⟨_, _, rfl, List.mem_cons_of_mem _ (List.mem_map.mpr ⟨_, hmem, rfl⟩)⟩

theorem resolves_fieldMentions {node : Node} (h : node ∈ Node.descendantsOf schema) :
    ∀ mention ∈ node.fieldMentions,
      (Scope.ofHolder holder schema.valueTypes).Resolves mention := by
  cases node with
  | leaf key path value => exact Scope.resolves_of_mem_mentions _ _
  | branch key path children => exact List.forall_mem_singleton.mpr (resolves_structureMention h)

theorem resolves_structureMentions {node : Node} (h : node ∈ Node.descendantsOf schema) :
    ∀ mention ∈ node.structureMentions,
      (Scope.ofHolder holder schema.valueTypes).Resolves mention := by
  cases node with
  | leaf key path value => exact nofun
  | branch key path children =>
    intro mention hmention
    obtain ⟨child, hchild, hmem⟩ := List.mem_flatMap.mp hmention
    exact resolves_fieldMentions (Node.child_mem_descendantsOf hchild schema h) mention hmem

mutual

theorem resolves_stepMentions : ∀ {node : Node},
    (∀ inner ∈ node.descendants, inner ∈ Node.descendantsOf schema) →
    ∀ mention ∈ node.stepMentions, (Scope.ofHolder holder schema.valueTypes).Resolves mention
  | .leaf .., _ => List.forall_mem_singleton.mpr (Scope.resolves_outside _ _)
  | .branch key path children, h => by
    rw [Node.descendants, List.forall_mem_cons] at h
    rw [Node.stepMentions, List.forall_mem_cons]
    exact ⟨resolves_structureMention h.1, resolves_stepsMentions h.2⟩

/-- Steps mention the structures of the nodes that are nested in them. -/
theorem resolves_stepsMentions : ∀ {nodes : List Node},
    (∀ inner ∈ Node.descendantsOf nodes, inner ∈ Node.descendantsOf schema) →
    ∀ mention ∈ Node.stepsMentions nodes,
      (Scope.ofHolder holder schema.valueTypes).Resolves mention
  | [], _ => nofun
  | node :: nodes, h => by
    rw [Node.descendantsOf, List.forall_mem_append] at h
    rw [Node.stepsMentions, List.forall_mem_append]
    exact ⟨resolves_stepMentions h.1, resolves_stepsMentions h.2⟩

end

/-- All types but that of the file name constant are mentioned so. -/
theorem resolves_of_mem_mentions {variant : Variant} (h : holder.typeName = variant.typeName) :
    ∀ mention ∈ (schema.mentions variant).tail,
      (Scope.ofHolder holder schema.valueTypes).Resolves mention := by
  have hown : (Scope.ofHolder holder schema.valueTypes).Resolves
      (.plain variant.typeName, .holder) := .inr ⟨_, _, rfl, h ▸ List.mem_cons_self⟩
  have hroot := (Scope.ofHolder holder schema.valueTypes).resolves_outside
  have hfields : ∀ mention ∈ schema.flatMap Node.fieldMentions,
      (Scope.ofHolder holder schema.valueTypes).Resolves mention := by
    intro mention hmention
    obtain ⟨node, hnode, hmem⟩ := List.mem_flatMap.mp hmention
    exact resolves_fieldMentions (Node.mem_descendantsOf hnode) mention hmem
  have hsteps : ∀ mention ∈ Node.stepsMentions (schema.filter Node.isAssigned),
      (Scope.ofHolder holder schema.valueTypes).Resolves mention := by
    apply resolves_stepsMentions
    intro inner hinner
    obtain ⟨outer, houter, hinner⟩ := Node.mem_descendantsOf_iff.mp hinner
    exact Node.mem_descendantsOf_iff.mpr ⟨outer, (List.mem_filter.mp houter).1, hinner⟩
  have hstructures : ∀ mention ∈ (Node.descendantsOf schema).flatMap Node.structureMentions,
      (Scope.ofHolder holder schema.valueTypes).Resolves mention := by
    intro mention hmention
    obtain ⟨node, hnode, hmem⟩ := List.mem_flatMap.mp hmention
    exact resolves_structureMentions hnode mention hmem
  simp only [mentions, instanceMentions, accessorMentions, List.cons_append, List.nil_append,
    List.append_assoc, List.tail_cons, List.forall_mem_cons, List.forall_mem_append]
  and_intros
  all_goals first
    | exact hown
    | exact hroot _
    | assumption

theorem isWord_moduleName (variant : Variant) (program : String) :
    Identifier.IsWord (variant.moduleName program) := by
  have hsuffix : variant.moduleSuffix ≠ "" := by cases variant <;> decide
  exact (Identifier.isName_moduleName (Source.isPlainChar_of_mem_moduleSuffix variant)
    hsuffix).isWord

/-- **Types stand for what they were written for.** The tokens of a module make up its text, and are
cut from it if its names are words. They declare the holder and the value types, and use the
mentioned types, in their order. The first of these is the type of the file name constant, of which
nothing more is said; every other one is spelled by a path from the root, or by the declared name of
the structure that it was written for. Let the value types be told apart by their names. Then the
structures are told apart exactly if no value type is named as the holder, and if so, every such
type stands for what it was written for. -/
theorem mentions_denote (identify : String → String) (schema : Schema) (variant : Variant)
    (program : String) (h : (schema.valueTypes.map fun type => identify type.name).Nodup) :
    let holder := schema.holder variant program
    let tokens := Source.moduleTokens holder schema.valueTypes
    let scope := Scope.ofHolder holder schema.valueTypes
    (Code.spell tokens = schema.source variant program ∧
      (schema.HasPlainKeys → SingleLine (variant.fileName program) →
        Code.cut (schema.source variant program) = tokens)) ∧
    (Code.declared tokens = scope.map Prod.fst ∧
      Code.used tokens = (schema.mentions variant).map Prod.fst ∧
      (schema.mentions variant).head? = some .fileNameType ∧
      ∀ mention ∈ (schema.mentions variant).tail, scope.Resolves mention) ∧
    (((Code.declared tokens).map identify).Nodup ↔
      ∀ type ∈ schema.valueTypes, identify type.name ≠ identify variant.typeName) ∧
    ((∀ type ∈ schema.valueTypes, identify type.name ≠ identify variant.typeName) →
      ∀ mention ∈ (schema.mentions variant).tail,
        scope.denoted identify mention.1 = mention.2) := by
  intro holder tokens scope
  have hdeclared : Code.declared tokens = scope.map Prod.fst := by
    rw [declared_moduleTokens]
    simp only [scope, Scope.ofHolder, List.map_cons, List.map_map]
    rfl
  have hnodup : (scope.map fun declared => identify declared.1).Nodup ↔
      ∀ type ∈ schema.valueTypes, identify type.name ≠ identify variant.typeName :=
    Scope.nodup_ofHolder_iff h
  refine ⟨⟨Source.spell_moduleTokens _ _, fun hkeys hfile => ?_⟩,
    ⟨hdeclared, used_moduleTokens schema variant program, rfl, resolves_of_mem_mentions rfl⟩, ?_,
    fun hholder mention hmem => ?_⟩
  · exact Source.cut_moduleText hkeys.legible hfile (isWord_moduleName variant program)
  · rw [hdeclared, List.map_map]
    exact hnodup
  · exact Scope.denoted_of_resolves (hnodup.mpr hholder) (resolves_of_mem_mentions rfl mention hmem)

/-- An object whose name is a keyword, and one nested in it. -/
theorem mentions_denote_nested :
    let schema : Schema := [.branch "type" ["type"] [.branch "Level" ["type", "Level"] []]]
    let tokens := Code.cut (schema.source .publicSettings "demo")
    let scope := Scope.ofHolder (schema.holder .publicSettings "demo") schema.valueTypes
    let level : ValueType := ⟨"Level", ["type", "Level"], []⟩
    let outer : ValueType :=
      ⟨"r#type", ["type"], [⟨"Level", "Level", ["type", "Level"], .value "Level"⟩]⟩
    Code.declared tokens = ["Settings", "r#type", "Level"] ∧
      (∀ type ∈ [Code.TypeName.plain "Settings", .plain "r#type", .plain "Level"],
        type ∈ Code.used tokens) ∧
      scope.denoted Identifier.plain (.plain "Settings") = .holder ∧
      scope.denoted Identifier.plain (.plain "r#type") = .nested outer ∧
      scope.denoted Identifier.plain (.plain "Level") = .nested level := by
  intro schema tokens scope level outer
  have hnames : (schema.valueTypes.map fun type => Identifier.plain type.name).Nodup := by
    decide +kernel
  have hholder : ∀ type ∈ schema.valueTypes,
      Identifier.plain type.name ≠ Identifier.plain Variant.publicSettings.typeName := by
    decide +kernel
  have hkeys : schema.HasPlainKeys := by
    simp [schema, HasPlainKeys, Node.descendantsOf, Node.descendants, Node.key, Node.path,
      Identifier.IsPlainKey]
  obtain ⟨⟨-, hcut⟩, ⟨hdeclared, hused, -⟩, -, hdenoted⟩ :=
    mentions_denote Identifier.plain schema .publicSettings "demo" hnames
  have htokens : tokens = _ := hcut hkeys (by decide)
  have hdenoted := hdenoted hholder
  rw [htokens, hdeclared, hused]
  refine ⟨by decide +kernel, by decide +kernel, ?_, ?_, ?_⟩
  · exact hdenoted (.plain "Settings", .holder) (by decide +kernel)
  · exact hdenoted (.plain "r#type", .nested outer) (by decide +kernel)
  · exact hdenoted (.plain "Level", .nested level) (by decide +kernel)

/-- A nested object that is named as the holder takes its name, and nothing prevents it. -/
theorem holder_name_redeclared :
    let schema : Schema := [.branch "Settings" ["Settings"] []]
    (schema.valueTypes.map ValueType.name).Nodup ∧
      ¬ (Code.declared (Code.cut (schema.source .publicSettings "demo"))).Nodup := by
  intro schema
  have hkeys : schema.HasPlainKeys := by
    simp [schema, HasPlainKeys, Node.descendantsOf, Node.descendants, Node.key, Node.path,
      Identifier.IsPlainKey]
  have hfile : SingleLine (Variant.publicSettings.fileName "demo") := by decide
  have hcut : Code.cut (schema.source .publicSettings "demo") = _ :=
    Source.cut_moduleText hkeys.legible hfile (isWord_moduleName .publicSettings "demo")
  rw [hcut, declared_moduleTokens]
  decide +kernel

end Schema

end TypedSettings

import Mathlib
import TypedSettings.Proofs.Generated.Declared

/-!
# Generated code and simulated initializers

Generated code converts what it reads to the type that a declaration gives to the target, and builds
typed instances. A simulated initializer converts to the type in its own plan and builds documents.
Declarations and plan are made by different recursions over the schema tree. If the names they use
are told apart, the two agree on every document: they fail with the same error, or the typed
instance stands for the simulated document.

Main facts:
- `Declarations.run_agrees`: the simulation between the two, for the statements of part of a tree
- `Holder.run_eq_simulate`: what a property of a structure type holds at the start is never seen
- `Declarations.load_agrees_with_simulate`: the agreement of whole initializers
-/

namespace TypedSettings

/-! ## §1 Statements and steps -/

theorem Instance.membersOf_insert (target : String) (value : Instance)
    (fields : List (String × Instance)) :
    membersOf (OrderedMap.insert target value fields) =
      OrderedMap.insert target value.toValue (membersOf fields) := by
  induction fields with
  | nil => rfl
  | cons field rest ih =>
    obtain ⟨name, old⟩ := field
    by_cases hname : name = target
    · simp only [OrderedMap.insert, hname, if_true, membersOf]
    · simp only [OrderedMap.insert, hname, if_false, membersOf, ih]

theorem Instance.membersOf_eq_map (fields : List (String × Instance)) :
    membersOf fields = fields.map fun field => (field.1, field.2.toValue) := by
  induction fields with
  | nil => rfl
  | cons field rest ih => rw [membersOf, ih, List.map_cons]

theorem Step.fetch_eq_map_read (type : ScalarType) (path : KeyPath) (document : Value) :
    fetch type path document = (document.read type.Carrier path).map type.embed := by
  unfold fetch Value.read
  cases document.field path with
  | error e => rfl
  | ok value => exact ScalarType.convert_eq_map_embed type path.dotted value

namespace Declarations

variable {declarations : Declarations}

/-- Outcomes that agree are the same error or corresponding results. -/
theorem cases_of_agree {α β : Type} {typed : Except LoadError α} {untyped : Except ReadError β}
    {f : α → β} (h : typed.map f = untyped.mapError LoadError.read) :
    (∃ e, typed = .error (.read e) ∧ untyped = .error e) ∨
      ∃ x, typed = .ok x ∧ untyped = .ok (f x) := by
  cases typed with
  | error e =>
    cases untyped with
    | error e' => exact Or.inl ⟨e', congrArg Except.error (Except.error.inj h), rfl⟩
    | ok value => cases h
  | ok x =>
    cases untyped with
    | error e' => cases h
    | ok value => exact Or.inr ⟨x, rfl, congrArg Except.ok (Except.ok.inj h).symm⟩

mutual

/-- The statement of a declared node and its step have the same outcome. -/
theorem evaluate_agrees (distinct : declarations.Distinct) (document : Value) :
    ∀ (node : Node) {name : String} {nodes : List Node}, Declares declarations name nodes →
      node ∈ nodes →
      (declarations.evaluate name document node.step).map Instance.toValue =
        (Step.evaluate document node.step).mapError LoadError.read
  | .leaf key path value, name, nodes, declared, hmem => by
    have htype := declared.typeOf?_eq distinct hmem
    simp only [Node.ident, Node.key, Node.type] at htype
    simp only [Node.step, evaluate, htype, Step.evaluate, Step.fetch_eq_map_read]
    cases document.read (ScalarType.infer value).Carrier path with
    | error e => rfl
    | ok x => rfl
  | .branch key path children, name, nodes, declared, hmem => by
    have htype := declared.typeOf?_eq distinct hmem
    simp only [Node.ident, Node.key, Node.type] at htype
    have hrun := run_agrees distinct document children (declared.children hmem)
      (fun _ hchild => hchild) []
    rw [Instance.membersOf] at hrun
    simp only [Node.step, evaluate, htype, if_true, Step.evaluate]
    -- The runs of the children end alike; it remains to wrap what they yield.
    rcases cases_of_agree hrun with ⟨e, htyped, huntyped⟩ | ⟨fields, htyped, huntyped⟩
    · rw [htyped, huntyped]
      rfl
    · rw [htyped, huntyped]
      rfl

/-- **Simulation**: statements of declared nodes and their steps, run from corresponding fields, end
with the same error or with corresponding fields. -/
theorem run_agrees (distinct : declarations.Distinct) (document : Value) :
    ∀ (part : List Node) {name : String} {nodes : List Node}, Declares declarations name nodes →
      (∀ node ∈ part, node ∈ nodes) → ∀ fields : List (String × Instance),
      (declarations.run name document fields (Node.steps part)).map Instance.membersOf =
        (Step.run document (Instance.membersOf fields) (Node.steps part)).mapError LoadError.read
  | [], _, _, _, _, _ => rfl
  | node :: rest, name, nodes, declared, hsub, fields => by
    have hnode := evaluate_agrees distinct document node declared (hsub node List.mem_cons_self)
    have hrest := run_agrees distinct document rest declared fun other hother =>
      hsub other (List.mem_cons_of_mem _ hother)
    rcases cases_of_agree hnode with ⟨e, htyped, huntyped⟩ | ⟨x, htyped, huntyped⟩
    · simp only [Node.steps, run, Step.run, htyped, huntyped]
      rfl
    · -- Both sides write the field, and then the rest runs from corresponding fields again.
      simp only [Node.steps, run, Step.run, htyped, huntyped]
      rw [hrest, Instance.membersOf_insert]

end

end Declarations

/-! ## §2 Whole initializers -/

/-- Values before any step: properties of a scalar type have its default, and those of a structure
type anything. -/
structure Holder.ScalarDefaults (holder : Holder) (initial : List (String × Value)) : Prop where
  keys_eq : OrderedMap.keys initial = holder.properties.map Field.ident
  find?_eq : ∀ property ∈ holder.properties, ∀ type, property.type = .scalar type →
    OrderedMap.find? property.ident initial = some (type.embed type.default)

theorem FieldType.initialValue_scalar (type : ScalarType) :
    (FieldType.scalar type).initialValue = type.embed type.default := by
  cases type <;> rfl

theorem ScalarType.admits_default (type : ScalarType) : type.Admits (type.embed type.default) := by
  cases type with
  | integer => exact .integer rfl
  | boolean => exact .boolean false
  | string => exact .string ""
  | sequence item => exact .sequence nofun

/-- Only properties of a scalar type can be left without a step. -/
theorem Node.type_of_not_isAssigned {node : Node} (h : node.isAssigned = false) :
    ∃ type, node.type = .scalar type := by
  cases node with
  | leaf key path value => exact ⟨.infer value, rfl⟩
  | branch key path children => cases h

namespace Holder

/-- Properties with distinct names, each with a value made from its type. -/
theorem scalarDefaults_of_map {holder : Holder} (hnodup : (holder.properties.map Field.ident).Nodup)
    (initial : FieldType → Value)
    (hscalar : ∀ type : ScalarType, initial (.scalar type) = type.embed type.default) :
    holder.ScalarDefaults (holder.properties.map fun p => (p.ident, initial p.type)) := by
  have hkeys : OrderedMap.keys (holder.properties.map fun p => (p.ident, initial p.type)) =
      holder.properties.map Field.ident := by
    rw [OrderedMap.keys, List.map_map]
    rfl
  -- Names are distinct, so the value next to a name is the one found under it.
  refine ⟨hkeys, fun property hproperty type htype => ?_⟩
  rw [OrderedMap.find?_eq_some_iff (hkeys ▸ hnodup), ← hscalar, ← htype]
  exact List.mem_map_of_mem hproperty

theorem scalarDefaults_defaults {holder : Holder}
    (hnodup : (holder.properties.map Field.ident).Nodup) :
    holder.ScalarDefaults holder.defaults := by
  have hmap := scalarDefaults_of_map hnodup FieldType.initialValue FieldType.initialValue_scalar
  have hdefaults : holder.defaults =
      holder.properties.map fun p => (p.ident, p.type.initialValue) := by
    rw [defaults]
    apply OrderedMap.ofPairs_eq_self
    rw [hmap.keys_eq]
    exact hnodup
  rw [hdefaults]
  exact hmap

/-! ### Holders of schema trees -/

section OfSchema

variable {schema : Schema} {variant : Variant} {program : String}

theorem target_or_scalar :
    ∀ property ∈ (schema.holder variant program).properties,
      property.ident ∈ (schema.holder variant program).initializer.map Step.target ∨
        ∃ type, property.type = .scalar type := by
  intro property hproperty
  simp only [Schema.holder, List.mem_map] at hproperty
  obtain ⟨node, hnode, rfl⟩ := hproperty
  cases hassigned : node.isAssigned with
  | false => exact Or.inr (Node.type_of_not_isAssigned hassigned)
  | true =>
    rw [map_target_initializer]
    exact Or.inl (List.mem_map_of_mem (List.mem_filter.mpr ⟨hnode, hassigned⟩))

/-- **Defaults of structures are never seen**: every property of a structure type is assigned, so an
initializer does not depend on what such a property holds at the start. -/
theorem run_eq_simulate
    (hnodup : ((schema.holder variant program).properties.map Field.ident).Nodup)
    (document : Value) {initial : List (String × Value)}
    (hinitial : (schema.holder variant program).ScalarDefaults initial) :
    Step.run document initial (schema.holder variant program).initializer =
      (schema.holder variant program).simulate document := by
  have hdefaults := scalarDefaults_defaults hnodup
  have hkeys : OrderedMap.keys initial = OrderedMap.keys (schema.holder variant program).defaults :=
    hinitial.keys_eq.trans hdefaults.keys_eq.symm
  rw [simulate]
  apply Step.run_congr hkeys (hinitial.keys_eq ▸ hnodup)
  · intro step hstep
    rw [hinitial.keys_eq]
    exact target_mem_idents _ (List.mem_map_of_mem hstep)
  · intro key hkey hunassigned
    rw [hinitial.keys_eq] at hkey
    obtain ⟨property, hmem, rfl⟩ := List.mem_map.mp hkey
    -- No step assigns this property, so its type is scalar and both maps hold its default.
    obtain ⟨type, htype⟩ := (target_or_scalar property hmem).resolve_left hunassigned
    rw [hinitial.find?_eq property hmem type htype, hdefaults.find?_eq property hmem type htype]

end OfSchema

end Holder

namespace Declarations

variable {schema : Schema} {variant : Variant} {program : String}

theorem declares_root : Declares (ofHolder (schema.holder variant program) schema.valueTypes)
    (schema.holder variant program).typeName schema where
  fields_mem := List.mem_cons_self
  nested_mem := fun _ htype => List.mem_cons_of_mem _ (List.mem_map_of_mem htype)

/-- The values that a simulated initializer ends with have the types of the properties. -/
theorem hasType_of_simulate
    (distinct : Distinct (ofHolder (schema.holder variant program) schema.valueTypes))
    {document : Value} {values : List (String × Value)}
    (h : (schema.holder variant program).simulate document = .ok values) :
    HasType (ofHolder (schema.holder variant program) schema.valueTypes)
      (.value (schema.holder variant program).typeName) (.object values) := by
  have hidents : ((schema.holder variant program).properties.map Field.ident).Nodup :=
    distinct.fields_nodup _ declares_root.fields_mem
  have hdefaults := Holder.scalarDefaults_defaults hidents
  obtain ⟨pairs, hwrites, hvalues⟩ := Holder.exists_writes_of_simulate h
  have htargets : OrderedMap.keys pairs =
      (schema.holder variant program).initializer.map Step.target := Step.keys_of_writes hwrites
  have hkeys : OrderedMap.keys values =
      (schema.holder variant program).properties.map Field.ident := by
    rw [hvalues, OrderedMap.keys_writeAll_of_subset, hdefaults.keys_eq]
    rw [htargets, hdefaults.keys_eq]
    exact Holder.target_mem_idents
  have hpairs := hasTypes_of_writes distinct (schema.filter Node.isAssigned) declares_root
    (fun _ hnode => (List.mem_filter.mp hnode).1) hwrites
  refine .value (declares_root.find?_eq distinct) (.of_forall hkeys ?_)
  intro property hproperty value hvalue
  have hfound := (OrderedMap.find?_eq_some_iff (hkeys ▸ hidents)).mpr hvalue
  rw [hvalues] at hfound
  rcases OrderedMap.mem_or_find?_of_find?_writeAll hfound with hwritten | ⟨hunwritten, hkept⟩
  · -- The property has been assigned: its value is what the step of its own node has yielded.
    obtain ⟨field, hfield, hident, htype⟩ := hpairs.exists_field _ hwritten
    have hdeclared : field ∈ (schema.holder variant program).properties := by
      obtain ⟨node, hnode, rfl⟩ := List.mem_map.mp hfield
      exact List.mem_map_of_mem (List.mem_filter.mp hnode).1
    exact eq_of_ident_eq hidents hdeclared hproperty hident ▸ htype
  · -- The property still has its default, so its type is scalar.
    obtain ⟨type, htype⟩ :=
      (Holder.target_or_scalar property hproperty).resolve_left (htargets ▸ hunwritten)
    rw [hdefaults.find?_eq property hproperty type htype, Option.some.injEq] at hkept
    rw [htype, ← hkept]
    exact .scalar type.admits_default

/-- An instance is built by running the initializer from default fields. -/
theorem load_eq_map_run (declarations : Declarations) (holder : Holder) (document : Value) :
    declarations.load holder document =
      (declarations.run holder.typeName document
        (holder.properties.map fun property =>
          (property.ident, declarations.defaultOf declarations.length property.type))
        holder.initializer).map (Instance.record holder.typeName) := by
  rw [load]
  cases declarations.run holder.typeName document _ holder.initializer with
  | error e => rfl
  | ok fields => rfl

/-- **Generated code does what the simulation says**: if structures and fields are told apart by
their names, the instance that generated code builds from a document stands for the simulated
values, and it fails where the simulation does, with the same error. The simulated values have the
declared types, and what stands for a property of a structure type at the start is in none of
them. -/
theorem load_agrees_with_simulate (schema : Schema) (variant : Variant) (program : String)
    (distinct : Distinct (ofHolder (schema.holder variant program) schema.valueTypes))
    (document : Value) :
    let holder := schema.holder variant program
    let declarations := ofHolder holder schema.valueTypes
    (declarations.load holder document).map Instance.toValue =
        ((holder.simulate document).map Value.object).mapError LoadError.read ∧
      (∀ values, holder.simulate document = .ok values →
        declarations.HasType (.value holder.typeName) (.object values)) ∧
      ∀ initial, holder.ScalarDefaults initial →
        Step.run document initial holder.initializer = holder.simulate document := by
  intro holder declarations
  have hidents : (holder.properties.map Field.ident).Nodup :=
    distinct.fields_nodup _ declares_root.fields_mem
  refine ⟨?_, fun values h => hasType_of_simulate distinct h, fun initial hinitial =>
    Holder.run_eq_simulate hidents document hinitial⟩
  let default (type : FieldType) : Value :=
    (declarations.defaultOf declarations.length type).toValue
  let initial : List (String × Instance) := holder.properties.map fun property =>
    (property.ident, declarations.defaultOf declarations.length property.type)
  have hmembers : Instance.membersOf initial =
      holder.properties.map fun property => (property.ident, default property.type) := by
    rw [Instance.membersOf_eq_map, List.map_map]
    rfl
  have hscalar : ∀ type : ScalarType, default (.scalar type) = type.embed type.default := by
    intro type
    simp only [default, defaultOf, Instance.toValue]
  have hsame : Step.run document (Instance.membersOf initial) holder.initializer =
      holder.simulate document :=
    Holder.run_eq_simulate hidents document
      (hmembers ▸ Holder.scalarDefaults_of_map hidents default hscalar)
  have hrun : (declarations.run holder.typeName document initial holder.initializer).map
        Instance.membersOf =
      (Step.run document (Instance.membersOf initial) holder.initializer).mapError
        LoadError.read :=
    run_agrees distinct document (schema.filter Node.isAssigned) declares_root
      (fun _ hnode => (List.mem_filter.mp hnode).1) initial
  -- It remains to wrap the fields on both sides.
  rw [load_eq_map_run, ← hsame]
  rcases cases_of_agree hrun with ⟨e, htyped, huntyped⟩ | ⟨fields, htyped, huntyped⟩
  · rw [htyped, huntyped]
    rfl
  · rw [htyped, huntyped]
    rfl

/-- A structure, an array and a property without a step, loaded from another document than the one
they were planned from. -/
theorem load_agrees_with_simulate_server :
    let schema : Schema := Node.ofMembers []
      [("server", .object [("port", .number (.integer 80)), ("tls", .boolean true)]),
        ("hosts", .array [.string "a"]), ("debug", .boolean true)]
    let holder := schema.holder .publicSettings "app"
    let declarations := ofHolder holder schema.valueTypes
    Distinct declarations ∧
      (declarations.load holder (.object
        [("hosts", .array [.null, .string "b"]), ("server", .object
          [("tls", .boolean false), ("port", .number (.integer 8080))])])).map Instance.toValue =
        .ok (.object
          [("server", .object [("port", .number (.integer 8080)), ("tls", .boolean false)]),
            ("hosts", .array [.string "", .string "b"]), ("debug", .boolean false)]) := by
  intro schema holder declarations
  have distinct : Distinct declarations := ⟨by decide +kernel, by decide +kernel⟩
  refine ⟨distinct, ?_⟩
  exact (load_agrees_with_simulate schema .publicSettings "app" distinct _).1.trans (by cbv)

end Declarations

end TypedSettings

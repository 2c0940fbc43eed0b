import Mathlib
import TypedSettings.Generated.Initializer
import TypedSettings.Proofs.Generated.Declared
import TypedSettings.Proofs.Schema.Image

/-!
# Enumerated objects

The value types of a text are the objects nested in its document, one for each, in the order of the
document: an object comes before the objects in it, and these before the next member. A value type
is found at its path, and its fields are the members of its object. Names can be shared, but paths
are not, so a field is declared as the value type at its own path.

Main facts:
- `Value.Precedes`: the order of paths in a document, which is strict by `Value.Precedes.asymm`
- `Node.mem_valueTypesOf_ofMembers_iff`: which value types there are
- `Node.pairwise_precedes_valueTypesOf`: in which order they come
- `Schema.valueTypes_enumerate_objects`: the value types and properties of a text
-/

namespace TypedSettings

/-! ## §1 The order of a document -/

namespace Value

/-- `Precedes document first second`: in the text of the document the member at the first path
starts before the one at the second, which is either nested in it or in a later member of an object
that holds both. -/
inductive Precedes (document : Value) : KeyPath → KeyPath → Prop where
  | nested (path : KeyPath) (key : String) (rest : KeyPath) :
      Precedes document path (path ++ key :: rest)
  | later {path : KeyPath} {members : List (String × Value)} {first second : String}
      (at_path : document.lookup path = some (.object members))
      (order : [first, second].Sublist (OrderedMap.keys members)) (rest rest' : KeyPath) :
      Precedes document (path ++ first :: rest) (path ++ second :: rest')

/-- A path goes on from a member of an object. -/
theorem UniqueKeys.lookup_cons_eq_some_iff {document value : Value} {key : String} {rest : KeyPath}
    (h : document.UniqueKeys) : document.lookup (key :: rest) = some value ↔
      ∃ members inner, document = .object members ∧ (key, inner) ∈ members ∧
        inner.lookup rest = some value := by
  rw [lookup]
  constructor
  · intro hlookup
    split at hlookup
    next => cases hlookup
    next inner hmember =>
      cases document with
      | object members => exact ⟨members, inner, rfl, OrderedMap.mem_of_find? hmember, hlookup⟩
      | _ => cases hmember
  · rintro ⟨members, inner, rfl, hmem, hlookup⟩
    rw [h.member?_eq_some hmem]
    exact hlookup

theorem UniqueKeys.of_lookup {document value : Value} {path : KeyPath} (h : document.UniqueKeys)
    (hlookup : document.lookup path = some value) : value.UniqueKeys := by
  induction path generalizing document with
  | nil => exact Option.some.inj hlookup ▸ h
  | cons key rest ih =>
    obtain ⟨members, inner, rfl, hmem, hinner⟩ := h.lookup_cons_eq_some_iff.mp hlookup
    exact ih (h.of_mem_object hmem) hinner

/-- Two different members of a list without repetitions are in one order only. -/
theorem not_sublist_swap {keys : List String} (hnodup : keys.Nodup) {first second : String}
    (h : [first, second].Sublist keys) : ¬ [second, first].Sublist keys := by
  intro hswap
  obtain ⟨before, after, rfl, hfirst, hsecond⟩ := List.cons_sublist_iff.mp h
  obtain ⟨before', after', heq, hsecond', hfirst'⟩ := List.cons_sublist_iff.mp hswap
  rw [List.singleton_sublist] at hsecond hfirst'
  have hdisjoint := List.disjoint_of_nodup_append hnodup
  obtain ⟨_, rfl, rfl⟩ | ⟨_, rfl, rfl⟩ := List.append_eq_append_iff.mp heq
  · exact hdisjoint hfirst (List.mem_append_right _ hfirst')
  · exact hdisjoint (List.mem_append_left _ hsecond') hsecond

/-- Two paths part at one place. -/
theorem parting_unique {path path' rest rest' others others' : KeyPath}
    {first first' second second' : String} (hne : first ≠ second) (hne' : first' ≠ second')
    (hfirst : path ++ first :: rest = path' ++ first' :: rest')
    (hsecond : path ++ second :: others = path' ++ second' :: others') :
    path = path' ∧ first = first' ∧ second = second' := by
  induction path generalizing path' with
  | nil =>
    cases path' with
    | nil => exact ⟨rfl, (List.cons.inj hfirst).1, (List.cons.inj hsecond).1⟩
    | cons key path' =>
      exact absurd ((List.cons.inj hfirst).1.trans (List.cons.inj hsecond).1.symm) hne
  | cons key path ih =>
    cases path' with
    | nil => exact absurd ((List.cons.inj hfirst).1.symm.trans (List.cons.inj hsecond).1) hne'
    | cons key' path' =>
      obtain ⟨rfl, htail⟩ := List.cons.inj hfirst
      obtain ⟨rfl, heqs⟩ := ih htail (List.cons.inj hsecond).2
      exact ⟨rfl, heqs⟩

/-- Where keys are not repeated, the order of a document is strict. -/
theorem Precedes.asymm {document : Value} {first second : KeyPath}
    (h : Precedes document first second) (unique : document.UniqueKeys) :
    ¬ Precedes document second first := by
  have ne_of_order {path members} (at_path : document.lookup path = some (.object members))
      {key key' : String} (order : [key, key'].Sublist (OrderedMap.keys members)) : key ≠ key' := by
    intro heq
    simpa [heq] using order.nodup (unique.of_lookup at_path).keys_nodup
  intro hswap
  generalize hsource : first = source at hswap
  generalize htarget : second = target at hswap
  cases h with
  | nested _ key rest =>
    cases hswap with
    | nested _ key' rest' =>
      -- Each of the two would be longer than the other.
      have hlength := congrArg List.length htarget
      simp only [hsource, List.length_append, List.length_cons] at hlength
      omega
    | later at_path order _ _ =>
      rw [hsource, List.append_assoc] at htarget
      exact ne_of_order at_path order (List.cons.inj (List.append_cancel_left htarget)).1.symm
  | later at_path order _ _ =>
    cases hswap with
    | nested _ key' rest' =>
      rw [← htarget, List.append_assoc] at hsource
      exact ne_of_order at_path order (List.cons.inj (List.append_cancel_left hsource)).1
    | later at_path' order' _ _ =>
      obtain ⟨rfl, rfl, rfl⟩ := parting_unique (ne_of_order at_path order)
        (ne_of_order at_path' order').symm hsource htarget
      cases at_path.symm.trans at_path'
      exact not_sublist_swap (unique.of_lookup at_path).keys_nodup order order'

/-- No path precedes itself. -/
theorem Precedes.ne {document : Value} {first second : KeyPath}
    (h : Precedes document first second) (unique : document.UniqueKeys) : first ≠ second := by
  rintro rfl
  exact h.asymm unique h

end Value

/-! ## §2 The value types of an object -/

/-- The value type of the object at a path, named after its last key. -/
def ValueType.ofObject (path : KeyPath) (members : List (String × Value)) : ValueType where
  name := Identifier.ofKey (path.getLast?.getD "")
  path := path
  fields := (Node.ofMembers path members).map Node.field

namespace Node

theorem valueTypes_ofMember_object (parent : KeyPath) (key : String)
    (members : List (String × Value)) :
    (ofMember parent key (.object members)).valueTypes =
      ValueType.ofObject (parent ++ [key]) members ::
        valueTypesOf (ofMembers (parent ++ [key]) members) := by
  simp [ofMember, valueTypes, ValueType.ofObject]

variable {type : ValueType}

mutual

/-- A member has a value type for every object that a path leads to within it. -/
theorem mem_valueTypes_ofMember_iff (parent : KeyPath) (key : String) :
    ∀ value : Value, value.UniqueKeys →
      (type ∈ (ofMember parent key value).valueTypes ↔
        ∃ rest inner, value.lookup rest = some (.object inner) ∧
          type = .ofObject (parent ++ key :: rest) inner)
  | .object members, unique => by
    rw [valueTypes_ofMember_object, List.mem_cons, mem_valueTypesOf_ofMembers_iff (parent ++ [key])
      members fun member => unique.of_mem_object]
    constructor
    · rintro (rfl | ⟨⟨next, value⟩, hmem, rest, inner, hlookup, rfl⟩)
      · exact ⟨[], members, rfl, rfl⟩
      · refine ⟨next :: rest, inner, ?_, by simp⟩
        exact unique.lookup_cons_eq_some_iff.mpr ⟨members, value, rfl, hmem, hlookup⟩
    · rintro ⟨rest, inner, hlookup, rfl⟩
      cases rest with
      | nil =>
        cases hlookup
        exact .inl rfl
      | cons next rest =>
        obtain ⟨_, value, heq, hmem, hinner⟩ := unique.lookup_cons_eq_some_iff.mp hlookup
        cases heq
        exact .inr ⟨(next, value), hmem, rest, inner, hinner, by simp⟩
  | .null, _ | .boolean _, _ | .number _, _ | .string _, _ | .array _, _ => by
    -- No path leads into a leaf, and a leaf is no object.
    simp only [ofMember, valueTypes, List.not_mem_nil, false_iff, not_exists, not_and]
    intro rest inner hlookup
    cases rest <;> cases hlookup

/-- Several members have the value types of each of them. -/
theorem mem_valueTypesOf_ofMembers_iff (parent : KeyPath) :
    ∀ members : List (String × Value), (∀ member ∈ members, member.2.UniqueKeys) →
      (type ∈ valueTypesOf (ofMembers parent members) ↔
        ∃ member ∈ members, ∃ rest inner, member.2.lookup rest = some (.object inner) ∧
          type = .ofObject (parent ++ member.1 :: rest) inner)
  | [], _ => by simp [ofMembers, valueTypesOf]
  | (key, value) :: others, unique => by
    rw [ofMembers, valueTypesOf, List.mem_append,
      mem_valueTypes_ofMember_iff parent key value (unique _ List.mem_cons_self),
      mem_valueTypesOf_ofMembers_iff parent others fun member hmem =>
        unique member (List.mem_cons_of_mem _ hmem)]
    simp only [List.exists_mem_cons_iff]

end

/-! ## §3 The order of value types -/

variable {document : Value}

mutual

theorem pairwise_precedes_valueTypes (unique : document.UniqueKeys) (parent : KeyPath)
    (key : String) : ∀ value : Value, document.lookup (parent ++ [key]) = some value →
      ((ofMember parent key value).valueTypes.map ValueType.path).Pairwise document.Precedes
  | .object members, found => by
    have hkeys := unique.of_lookup found
    rw [valueTypes_ofMember_object, List.map_cons, List.pairwise_cons]
    refine ⟨fun path hpath => ?_, pairwise_precedes_valueTypesOf unique (parent ++ [key]) found
      members List.suffix_rfl⟩
    -- Everything else is nested in the object itself.
    obtain ⟨type, htype, rfl⟩ := List.mem_map.mp hpath
    obtain ⟨member, -, rest, inner, -, rfl⟩ := (mem_valueTypesOf_ofMembers_iff (parent ++ [key])
      members fun member => hkeys.of_mem_object).mp htype
    exact .nested (parent ++ [key]) member.1 rest
  | .null, _ | .boolean _, _ | .number _, _ | .string _, _ | .array _, _ => by
    simp [ofMember, valueTypes]

/-- **Value types come in the order of the document.** -/
theorem pairwise_precedes_valueTypesOf (unique : document.UniqueKeys) (parent : KeyPath)
    {all : List (String × Value)} (found : document.lookup parent = some (.object all)) :
    ∀ members : List (String × Value), members <:+ all →
      ((valueTypesOf (ofMembers parent members)).map ValueType.path).Pairwise document.Precedes
  | [], _ => by simp [ofMembers, valueTypesOf]
  | (key, value) :: others, hsuffix => by
    have hall := unique.of_lookup found
    have hmem : (key, value) ∈ all := hsuffix.subset List.mem_cons_self
    rw [ofMembers, valueTypesOf, List.map_append, List.pairwise_append]
    refine ⟨pairwise_precedes_valueTypes unique parent key value (hall.lookup_member found hmem),
      pairwise_precedes_valueTypesOf unique parent found others
        ((List.suffix_cons _ _).trans hsuffix), fun path hpath other hother => ?_⟩
    -- What is nested in one member comes before what is nested in the members after it.
    obtain ⟨type, htype, rfl⟩ := List.mem_map.mp hpath
    obtain ⟨rest, inner, -, rfl⟩ := (mem_valueTypes_ofMember_iff parent key value
      (hall.of_mem_object hmem)).mp htype
    obtain ⟨type', htype', rfl⟩ := List.mem_map.mp hother
    obtain ⟨member, hmember, rest', inner', -, rfl⟩ := (mem_valueTypesOf_ofMembers_iff parent others
      fun member hmember => hall.of_mem_object
        (hsuffix.subset (List.mem_cons_of_mem _ hmember))).mp htype'
    refine .later found (List.Sublist.trans ?_ (hsuffix.sublist.map Prod.fst)) rest rest'
    exact (List.singleton_sublist.mpr (List.mem_map_of_mem hmember)).cons_cons key

end

end Node

/-! ## §4 Fields -/

/-- `IsFieldOf document types path field member`: the field is declared for a member of the object
at the path, a leaf by the type inferred from what its path leads to, and an object by the name of
the value type that has its path. -/
structure Field.IsFieldOf (document : Value) (types : List ValueType) (path : KeyPath)
    (field : Field) (member : String × Value) : Prop where
  key_eq : field.key = member.1
  ident_eq : field.ident = Identifier.ofKey member.1
  path_eq : field.path = path ++ [member.1]
  lookup_path : document.lookup field.path = some member.2
  leaf : member.2.kind ≠ .object → field.type = .scalar (.infer member.2)
  nested : member.2.kind = .object →
    ∃ type ∈ types, type.path = field.path ∧ field.type = .value type.name

/-- A field that is declared as a value type has one at its own path. -/
theorem Field.IsFieldOf.exists_type {document : Value} {types : List ValueType} {path : KeyPath}
    {field : Field} {member : String × Value} (h : field.IsFieldOf document types path member)
    {name : String} (hname : field.type = .value name) :
    ∃ type ∈ types, type.name = name ∧ type.path = field.path := by
  by_cases hkind : member.2.kind = .object
  · obtain ⟨type, htype, hpath, heq⟩ := h.nested hkind
    cases hname.symm.trans heq
    exact ⟨type, htype, rfl, hpath⟩
  · cases hname.symm.trans (h.leaf hkind)

namespace Schema

variable {members : List (String × Value)}

/-- The value types of a document are those of the objects that are nested in it. -/
theorem mem_valueTypes_iff (unique : (Value.object members).UniqueKeys) {type : ValueType} :
    type ∈ Schema.valueTypes (Node.ofMembers [] members) ↔
      ∃ path inner, path ≠ [] ∧ (Value.object members).lookup path = some (.object inner) ∧
        type = .ofObject path inner := by
  rw [Schema.valueTypes, Node.mem_valueTypesOf_ofMembers_iff [] members fun member =>
    unique.of_mem_object]
  constructor
  · rintro ⟨⟨key, value⟩, hmem, rest, inner, hlookup, rfl⟩
    exact ⟨key :: rest, inner, nofun,
      unique.lookup_cons_eq_some_iff.mpr ⟨members, value, rfl, hmem, hlookup⟩, rfl⟩
  · rintro ⟨path, inner, hpath, hlookup, rfl⟩
    obtain ⟨key, rest, rfl⟩ := List.exists_cons_of_ne_nil hpath
    obtain ⟨_, value, heq, hmem, hinner⟩ := unique.lookup_cons_eq_some_iff.mp hlookup
    cases heq
    exact ⟨(key, value), hmem, rest, inner, hinner, rfl⟩

/-- The fields of an object are declared for its members, in their order. -/
theorem isFieldOf_ofMembers (unique : (Value.object members).UniqueKeys) {path : KeyPath}
    {inner : List (String × Value)}
    (found : (Value.object members).lookup path = some (.object inner)) :
    List.Forall₂
      (Field.IsFieldOf (.object members) (Schema.valueTypes (Node.ofMembers [] members)) path)
      ((Node.ofMembers path inner).map Node.field) inner := by
  rw [Node.ofMembers_eq_map path inner, List.map_map, List.forall₂_map_left_iff, List.forall₂_same]
  rintro ⟨key, value⟩ hmem
  have hlookup := (unique.of_lookup found).lookup_member found hmem
  refine ⟨?_, ?_, ?_, ?_, fun hkind => ?_, fun hkind => ?_⟩
  · exact Node.key_ofMember path key value
  · exact congrArg Identifier.ofKey (Node.key_ofMember path key value)
  · exact Node.path_ofMember path key value
  · exact (congrArg (fun found => (Value.object members).lookup found)
      (Node.path_ofMember path key value)).trans hlookup
  · cases value with
    | object _ => exact absurd rfl hkind
    | _ => rfl
  · cases value with
    | object nested =>
      refine ⟨.ofObject (path ++ [key]) nested, ?_, rfl, ?_⟩
      · exact (mem_valueTypes_iff unique).mpr ⟨path ++ [key], nested, by simp, hlookup, rfl⟩
      · simp [ValueType.ofObject, Node.ofMember, Node.field, Node.type]
    | _ => cases hkind

/-! ## §5 The value types of a text -/

/-- **Value types enumerate the nested objects.** The paths of the value types of a text are those
of the objects below the root that are reached through objects, each once and in the order of the
document. The fields of a value type are declared for the members of the object at its path, the
properties of the holder for those of the root, and a field that is declared as a value type is
declared as the one at its own path. -/
theorem valueTypes_enumerate_objects {text : String} {schema : Schema}
    (h : ofText text = .ok schema) (variant : Variant) (program : String) :
    ∃ members, Value.parse text = .ok (.object members) ∧
      (∀ path, path ∈ schema.valueTypes.map ValueType.path ↔
        path ≠ [] ∧ ∃ inner, (Value.object members).lookup path = some (.object inner)) ∧
      (schema.valueTypes.map ValueType.path).Nodup ∧
      (schema.valueTypes.map ValueType.path).Pairwise (Value.Precedes (.object members)) ∧
      (∀ type ∈ schema.valueTypes, ∃ inner,
        (Value.object members).lookup type.path = some (.object inner) ∧
        List.Forall₂ (Field.IsFieldOf (.object members) schema.valueTypes type.path) type.fields
          inner) ∧
      List.Forall₂ (Field.IsFieldOf (.object members) schema.valueTypes [])
        (schema.holder variant program).properties members ∧
      ∀ field name, field.type = .value name →
        (field ∈ (schema.holder variant program).properties ∨
          ∃ type ∈ schema.valueTypes, field ∈ type.fields) →
        ∃ type ∈ schema.valueTypes, type.name = name ∧ type.path = field.path := by
  -- The schema of a text is that of its parsed document, in which no object repeats a key.
  obtain ⟨members, hparse, unique, rfl⟩ := eq_ofMembers_of_ofText h
  have hroot : (Value.object members).lookup [] = some (.object members) := rfl
  have horder : ((Schema.valueTypes (Node.ofMembers [] members)).map ValueType.path).Pairwise
      (Value.Precedes (.object members)) :=
    Node.pairwise_precedes_valueTypesOf unique [] hroot members List.suffix_rfl
  have hfields : ∀ type ∈ Schema.valueTypes (Node.ofMembers [] members), ∃ inner,
      (Value.object members).lookup type.path = some (.object inner) ∧
      List.Forall₂ (Field.IsFieldOf (.object members)
        (Schema.valueTypes (Node.ofMembers [] members)) type.path) type.fields inner := by
    intro type htype
    obtain ⟨path, inner, -, hlookup, rfl⟩ := (mem_valueTypes_iff unique).mp htype
    exact ⟨inner, hlookup, isFieldOf_ofMembers unique hlookup⟩
  have hproperties := isFieldOf_ofMembers unique hroot
  refine ⟨members, hparse, fun path => ?paths, horder.imp fun hprecedes => hprecedes.ne unique,
    horder, hfields, hproperties, fun field name hname hfield => ?declared⟩
  case paths =>
    rw [List.mem_map]
    constructor
    · rintro ⟨type, htype, rfl⟩
      obtain ⟨path, inner, hpath, hlookup, rfl⟩ := (mem_valueTypes_iff unique).mp htype
      exact ⟨hpath, inner, hlookup⟩
    · rintro ⟨hpath, inner, hlookup⟩
      exact ⟨_, (mem_valueTypes_iff unique).mpr ⟨path, inner, hpath, hlookup, rfl⟩, rfl⟩
  case declared =>
    rcases hfield with hmem | ⟨type, htype, hmem⟩
    · obtain ⟨i, hi, rfl⟩ := List.mem_iff_getElem.mp hmem
      exact (hproperties.get hi (hproperties.length_eq ▸ hi)).exists_type hname
    · obtain ⟨inner, -, hinner⟩ := hfields type htype
      obtain ⟨i, hi, rfl⟩ := List.mem_iff_getElem.mp hmem
      exact (hinner.get hi (hinner.length_eq ▸ hi)).exists_type hname

/-- Two objects with one name, an object in an array, and an object in another. -/
theorem valueTypes_enumerate_objects_shared_name :
    let text := "\x7b\"a\": \x7b\"b\": \x7b\x7d, \"t\": [\x7b\x7d]\x7d, \"c\": \x7b\"b\": \x7b\x7d\x7d\x7d"
    ∃ schema members, ofText text = .ok schema ∧ Value.parse text = .ok (.object members) ∧
      schema.valueTypes.map (fun type => (type.name, type.path)) =
        [("a", ["a"]), ("b", ["a", "b"]), ("c", ["c"]), ("b", ["c", "b"])] ∧
      (schema.valueTypes.map ValueType.path).Pairwise (Value.Precedes (.object members)) ∧
      List.Forall₂ (Field.IsFieldOf (.object members) schema.valueTypes [])
        (schema.holder .publicSettings "app").properties members := by
  intro text
  let members : List (String × Value) :=
    [("a", .object [("b", .object []), ("t", .array [.object []])]),
      ("c", .object [("b", .object [])])]
  have hdocument : Value.parse text = .ok (.object members) := by
    subst text
    cbv
  have hschema := ofText_of_parse hdocument
  obtain ⟨_, hparse, -, -, horder, -, hproperties, -⟩ :=
    valueTypes_enumerate_objects hschema .publicSettings "app"
  cases hdocument.symm.trans hparse
  exact ⟨_, _, hschema, hdocument, by cbv, horder, hproperties⟩

end Schema

end TypedSettings

import Mathlib
import TypedSettings.Proofs.Generated.Faults
import TypedSettings.Proofs.Generated.Idempotence

/-!
# Documents reproduced by their initializers

A settings document that its own initializer can read comes back as it is but for what the declared
types cannot hold: keys become identifiers, numbers integers and nulls empty texts, arrays become
sequences of one type, and booleans at the root keep their default. Members stay where they are, at
every level, as long as no two keys of an object share an identifier.

Main facts:
- `Value.Reproduces`: what each value comes back as
- `Value.reproduces_of_selfRead`: reading a document as its own types reproduces it
- `Value.Plain`: the documents that are reproduced as they are
- `Holder.simulate_reproduces`: what the initializer of a text makes of the text
-/

namespace TypedSettings

namespace Value

/-! ## §1 What values come back as -/

/-- The integer that a value can be read as; where the value stands only matters for errors. -/
def integer? (value : Value) : Option Int := (Readable.ofValue (α := Int) "" value).toOption

mutual

/-- `Reproduces value copy`: what a value below the root comes back as. -/
inductive Reproduces : Value → Value → Prop where
  | null : Reproduces .null (.string "")
  | boolean (b : Bool) : Reproduces (.boolean b) (.boolean b)
  | string (text : String) : Reproduces (.string text) (.string text)
  | number {n : Number} {k : Int} (read : (Value.number n).integer? = some k) :
      Reproduces (.number n) (.number (.integer k))
  | emptyArray : Reproduces (.array []) (.array [])
  /-- Every item of an array that starts with a number is replaced by the integer it is read as. -/
  | integers {first : Number} {others : List Value} {ks : List Int}
      (read : (Value.number first :: others).map integer? = ks.map some) :
      Reproduces (.array (.number first :: others)) (.array (ks.map fun k => .number (.integer k)))
  | booleans {first : Bool} {others : List Value} :
      Reproduces (.array (.boolean first :: others)) (.array (.boolean first :: others))
  /-- Every item of any other array is replaced by the text it is read as. -/
  | texts {first : Value} {others : List Value} (kind : first.kind ∉ [Kind.number, Kind.boolean]) :
      Reproduces (.array (first :: others))
        (.array ((first :: others).map fun item => .string (Readable.textOf item)))
  | object {members fields : List (String × Value)} (inner : ReproducesMembers members fields) :
      Reproduces (.object members) (.object fields)

/-- Members come back in their order, each under the identifier of its key. -/
inductive ReproducesMembers : List (String × Value) → List (String × Value) → Prop where
  | nil : ReproducesMembers [] []
  | cons {key : String} {value copy : Value} {members fields : List (String × Value)}
      (head : Reproduces value copy) (tail : ReproducesMembers members fields) :
      ReproducesMembers ((key, value) :: members) ((Identifier.ofKey key, copy) :: fields)

end

mutual

/-- A value comes back as one value only. -/
theorem Reproduces.unique {value first second : Value} :
    Reproduces value first → Reproduces value second → first = second
  | .null, .null => rfl
  | .boolean _, .boolean _ => rfl
  | .string _, .string _ => rfl
  | .number read, .number read' => by
    obtain rfl := Option.some.inj (read.symm.trans read')
    rfl
  | .emptyArray, .emptyArray => rfl
  | .integers read, .integers read' => by
    rw [(List.map_inj_right fun _ _ => Option.some.inj).mp (read.symm.trans read')]
  | .integers _, .texts kind => absurd (by simp [Value.kind]) kind
  | .booleans, .booleans => rfl
  | .booleans, .texts kind => absurd (by simp [Value.kind]) kind
  | .texts _, .texts _ => rfl
  | .texts kind, .integers _ => absurd (by simp [Value.kind]) kind
  | .texts kind, .booleans => absurd (by simp [Value.kind]) kind
  | .object inner, .object inner' => by rw [inner.unique inner']

theorem ReproducesMembers.unique {members first second : List (String × Value)} :
    ReproducesMembers members first → ReproducesMembers members second → first = second
  | .nil, .nil => rfl
  | .cons head tail, .cons head' tail' => by rw [head.unique head', tail.unique tail']

end

/-- A boolean is replaced by its default, everything else is kept. -/
def resetBoolean : Value → Value
  | .boolean _ => .boolean false
  | value => value

/-- Replaces the booleans among some members, but not those nested in them. -/
def resetBooleans (members : List (String × Value)) : List (String × Value) :=
  members.map fun member => (member.1, member.2.resetBoolean)

/-- Inside every object that can be reached through objects, distinct keys have distinct
identifiers. -/
def DistinctIdents (document : Value) : Prop :=
  ∀ path members, document.lookup path = some (.object members) →
    ∀ first ∈ members, ∀ second ∈ members,
      Identifier.ofKey first.1 = Identifier.ofKey second.1 → first.1 = second.1

/-! ## §2 Leaves -/

theorem integer?_of_convert {path : String} {value copy : Value}
    (h : ScalarType.integer.convert path value = .ok copy) :
    ∃ k, value.integer? = some k ∧ copy = .number (.integer k) := by
  obtain ⟨n, k, rfl, hn, rfl⟩ := ScalarType.exists_of_convert_integer h
  refine ⟨k, ?_, rfl⟩
  simp only [integer?, Readable.ofValue, hn, Option.elim_some, Except.toOption]

theorem integer?_of_fits {n : Int} (h : Number.fits n = true) :
    (Value.number (.integer n)).integer? = some n := by
  simp [integer?, Readable.ofValue, Number.toInteger?, h, Except.toOption]

theorem integers_of_readItems {path : String} {index : Nat} {items copies : List Value}
    (h : Readable.readItems (fun path value => ScalarType.integer.convert path value) path index
      items = .ok copies) :
    ∃ ks : List Int, items.map integer? = ks.map some ∧
      copies = ks.map fun k => Value.number (.integer k) := by
  induction items generalizing index copies with
  | nil =>
    cases h
    exact ⟨[], rfl, rfl⟩
  | cons first rest ih =>
    obtain ⟨copy, others, hfirst, hrest, rfl⟩ := Readable.readItems_cons_eq_ok_iff.mp h
    obtain ⟨k, hk, rfl⟩ := integer?_of_convert hfirst
    obtain ⟨ks, hks, rfl⟩ := ih hrest
    exact ⟨k :: ks, by rw [List.map_cons, hk, hks, List.map_cons], rfl⟩

theorem eq_of_convert_boolean {path : String} {value copy : Value}
    (h : ScalarType.boolean.convert path value = .ok copy) : copy = value := by
  obtain ⟨b, rfl, rfl⟩ := ScalarType.exists_of_convert_boolean h
  rfl

theorem booleans_of_readItems {path : String} {index : Nat} {items copies : List Value}
    (h : Readable.readItems (fun path value => ScalarType.boolean.convert path value) path index
      items = .ok copies) : copies = items := by
  induction items generalizing index copies with
  | nil =>
    cases h
    rfl
  | cons first rest ih =>
    obtain ⟨copy, others, hfirst, hrest, rfl⟩ := Readable.readItems_cons_eq_ok_iff.mp h
    rw [eq_of_convert_boolean hfirst, ih hrest]

/-- What a conversion of an array yields comes from its items. -/
theorem exists_items_of_convert {item : ScalarType} {path : String} {items : List Value}
    {copy : Value} (h : (ScalarType.sequence item).convert path (.array items) = .ok copy) :
    ∃ copies, Readable.readItems (fun path value => item.convert path value) path 0 items =
      .ok copies ∧ copy = .array copies := by
  obtain ⟨_, copies, heq, hcopies, rfl⟩ := ScalarType.exists_of_convert_sequence h
  cases heq
  exact ⟨copies, hcopies, rfl⟩

/-- **A leaf is reproduced** by conversion to the type inferred from it. -/
theorem reproduces_of_convert {path : String} {copy : Value} : ∀ {value : Value},
    value.kind ≠ .object → (ScalarType.infer value).convert path value = .ok copy →
      Reproduces value copy
  | .null, _, h => by
    cases h
    exact .null
  | .boolean b, _, h => by
    cases h
    exact .boolean b
  | .string text, _, h => by
    cases h
    exact .string text
  | .number n, _, h => by
    obtain ⟨k, hk, rfl⟩ := integer?_of_convert h
    exact .number hk
  | .array [], _, h => by
    cases h
    exact .emptyArray
  | .array (.number first :: others), _, h => by
    obtain ⟨copies, hcopies, rfl⟩ := exists_items_of_convert h
    obtain ⟨ks, hks, rfl⟩ := integers_of_readItems hcopies
    exact .integers hks
  | .array (.boolean first :: others), _, h => by
    obtain ⟨copies, hcopies, rfl⟩ := exists_items_of_convert h
    rw [booleans_of_readItems hcopies]
    exact .booleans
  -- Any other first item makes a sequence of texts.
  | .array (.null :: others), _, h | .array (.string _ :: others), _, h
  | .array (.array _ :: others), _, h | .array (.object _ :: others), _, h => by
    cases (ScalarType.convert_sequence_string path _).symm.trans h
    exact .texts (by simp [kind])
  | .object members, hkind, _ => absurd rfl hkind

/-! ## §3 Objects -/

theorem DistinctIdents.nodup {members : List (String × Value)}
    (h : (Value.object members).DistinctIdents) (unique : (OrderedMap.keys members).Nodup) :
    (members.map fun member => Identifier.ofKey member.1).Nodup := by
  rw [List.Nodup, List.pairwise_map]
  rw [OrderedMap.keys, List.Nodup, List.pairwise_map] at unique
  refine unique.imp_of_mem fun {first second} hfirst hsecond hne heq => ?_
  exact hne (h [] members rfl first hfirst second hsecond heq)

/-- The members of an object have what the object has. -/
theorem DistinctIdents.of_mem {members : List (String × Value)} {member : String × Value}
    (h : (Value.object members).DistinctIdents) (unique : (Value.object members).UniqueKeys)
    (hmem : member ∈ members) : member.2.DistinctIdents := by
  intro path inner hlookup
  refine h (member.1 :: path) inner ?_
  rw [lookup, unique.member?_eq_some hmem]
  exact hlookup

theorem DistinctIdents.leaf {value : Value} (hkind : value.kind ≠ .object) :
    value.DistinctIdents := by
  intro path members hlookup
  cases path with
  | nil =>
    cases hlookup
    exact absurd rfl hkind
  | cons key path =>
    cases value with
    | object members => exact absurd rfl hkind
    | _ => cases hlookup

theorem DistinctIdents.object {members : List (String × Value)}
    (hmembers : ∀ member ∈ members, member.2.DistinctIdents)
    (hidents : ∀ first ∈ members, ∀ second ∈ members,
      Identifier.ofKey first.1 = Identifier.ofKey second.1 → first.1 = second.1) :
    (Value.object members).DistinctIdents := by
  intro path inner hlookup
  cases path with
  | nil =>
    cases hlookup
    exact hidents
  | cons key path =>
    rw [lookup] at hlookup
    split at hlookup
    next => cases hlookup
    next value hvalue => exact hmembers _ (OrderedMap.mem_of_find? hvalue) path inner hlookup

/-- Members whose identifiers are new are added one after the other. -/
theorem selfReadMembers_eq_append {path : KeyPath} {fields members result : List (String × Value)}
    (h : selfReadMembers path fields members = .ok result)
    (hnodup : (OrderedMap.keys fields ++ members.map fun member => Identifier.ofKey member.1).Nodup)
    (hmembers : ∀ member ∈ members, ∀ path copy, selfRead path member.2 = .ok copy →
      Reproduces member.2 copy) :
    ∃ copies, result = fields ++ copies ∧ ReproducesMembers members copies := by
  induction members generalizing fields with
  | nil =>
    cases h
    exact ⟨[], (List.append_nil _).symm, .nil⟩
  | cons member rest ih =>
    obtain ⟨key, value⟩ := member
    obtain ⟨copy, hcopy, hrest⟩ := selfReadMembers_cons_eq_ok_iff.mp h
    obtain ⟨hvalue, hothers⟩ := List.forall_mem_cons.mp hmembers
    rw [List.map_cons] at hnodup
    have hnew : Identifier.ofKey key ∉ OrderedMap.keys fields := fun hmem =>
      (List.nodup_append.mp hnodup).2.2 _ hmem _ List.mem_cons_self rfl
    rw [OrderedMap.insert_of_notMem hnew] at hrest
    obtain ⟨copies, rfl, hcopies⟩ := ih hrest (by simpa using hnodup) hothers
    exact ⟨(Identifier.ofKey key, copy) :: copies, by simp, .cons (hvalue _ copy hcopy) hcopies⟩

theorem reproduces_of_leaf {path : KeyPath} {value copy : Value} (hkind : value.kind ≠ .object)
    (h : selfRead path value = .ok copy) : Reproduces value copy := by
  rw [selfRead_of_not_object hkind] at h
  exact reproduces_of_convert hkind h

/-- **Reading reproduces**: what a document becomes when it is read as its own types. -/
theorem reproduces_of_selfRead {value : Value} (unique : value.UniqueKeys) :
    value.DistinctIdents → ∀ {path : KeyPath} {copy : Value},
      selfRead path value = .ok copy → Reproduces value copy := by
  induction unique with
  | null => exact fun _ _ _ h => reproduces_of_leaf nofun h
  | boolean b => exact fun _ _ _ h => reproduces_of_leaf nofun h
  | number n => exact fun _ _ _ h => reproduces_of_leaf nofun h
  | string text => exact fun _ _ _ h => reproduces_of_leaf nofun h
  | array _ _ => exact fun _ _ _ h => reproduces_of_leaf nofun h
  | @object members keys_nodup members_unique ih =>
    intro distinct path copy h
    have unique : (Value.object members).UniqueKeys := .object keys_nodup members_unique
    rw [selfRead] at h
    split at h
    next => cases h
    next fields hfields =>
      cases h
      obtain ⟨copies, rfl, hcopies⟩ := selfReadMembers_eq_append hfields
        (distinct.nodup keys_nodup) fun member hmember path copy hcopy =>
          ih member hmember (distinct.of_mem unique hmember) hcopy
      exact .object hcopies

/-! ## §4 The root

At the root the fields are there before any member is read, and each member that is read replaces
the default in its place. -/

theorem reproduces_initialValue {key : String} {value : Value} (h : value.isAssigned = false) :
    Reproduces value.resetBoolean (Node.ofMember [] key value).type.initialValue := by
  cases value with
  | null => exact .null
  | boolean b => exact .boolean false
  | number n => cases h
  | string text => cases h
  | array items => cases h
  | object members => cases h

theorem resetBoolean_of_isAssigned {value : Value} (h : value.isAssigned = true) :
    value.resetBoolean = value := by
  cases value with
  | boolean b => cases h
  | _ => rfl

/-- The defaults of some members, in their order. -/
def defaultFields (members : List (String × Value)) : List (String × Value) :=
  members.map fun member =>
    (Identifier.ofKey member.1, (Node.ofMember [] member.1 member.2).type.initialValue)

theorem initialFields_eq_defaultFields {members : List (String × Value)}
    (h : (members.map fun member => Identifier.ofKey member.1).Nodup) :
    Holder.initialFields members = defaultFields members := by
  apply OrderedMap.ofPairs_eq_self
  rw [OrderedMap.keys, List.map_map]
  exact h

/-- Assigned members take the places of their defaults, the others keep them. -/
theorem selfReadMembers_filter_eq_append (done : List (String × Value))
    {members result : List (String × Value)}
    (h : selfReadMembers [] (done ++ defaultFields members)
      (members.filter fun member => member.2.isAssigned) = .ok result)
    (hnodup : (OrderedMap.keys done ++ members.map fun member => Identifier.ofKey member.1).Nodup)
    (hmembers : ∀ member ∈ members, ∀ path copy, selfRead path member.2 = .ok copy →
      Reproduces member.2 copy) :
    ∃ copies, result = done ++ copies ∧ ReproducesMembers (resetBooleans members) copies := by
  induction members generalizing done with
  | nil =>
    cases h
    exact ⟨[], rfl, .nil⟩
  | cons member rest ih =>
    obtain ⟨key, value⟩ := member
    obtain ⟨hvalue, hothers⟩ := List.forall_mem_cons.mp hmembers
    rw [List.map_cons] at hnodup
    have hnew : Identifier.ofKey key ∉ OrderedMap.keys done := fun hmem =>
      (List.nodup_append.mp hnodup).2.2 _ hmem _ List.mem_cons_self rfl
    -- In either case the field of this member has its final value, and the rest follows it.
    have next : ∀ copy, Reproduces value.resetBoolean copy →
        selfReadMembers [] ((done ++ [(Identifier.ofKey key, copy)]) ++ defaultFields rest)
          (rest.filter fun member => member.2.isAssigned) = .ok result →
        ∃ copies, result = done ++ copies ∧
          ReproducesMembers (resetBooleans ((key, value) :: rest)) copies := by
      intro copy hcopy hrest
      obtain ⟨copies, rfl, hcopies⟩ := ih _ hrest (by simpa using hnodup) hothers
      exact ⟨(Identifier.ofKey key, copy) :: copies, by simp, .cons hcopy hcopies⟩
    cases hassigned : value.isAssigned with
    | false =>
      rw [List.filter_cons_of_neg (by simp [hassigned])] at h
      exact next _ (reproduces_initialValue hassigned) (by simpa [defaultFields] using h)
    | true =>
      rw [List.filter_cons_of_pos (by simp [hassigned])] at h
      obtain ⟨copy, hcopy, hrest⟩ := selfReadMembers_cons_eq_ok_iff.mp h
      rw [defaultFields, List.map_cons, OrderedMap.insert_append_cons hnew] at hrest
      refine next copy ?_ (by simpa [defaultFields] using hrest)
      rw [resetBoolean_of_isAssigned hassigned]
      exact hvalue _ copy hcopy

/-! ## §5 Documents reproduced as they are -/

/-- Documents whose keys are identifiers, whose numbers are signed 64-bit integers and whose arrays
have items of one kind, and that hold no null. -/
inductive Plain : Value → Prop where
  | boolean (b : Bool) : Plain (.boolean b)
  | string (text : String) : Plain (.string text)
  | integer {n : Int} (fits : Number.fits n = true) : Plain (.number (.integer n))
  | integers {items : List Value}
      (h : ∀ item ∈ items, ∃ n, Number.fits n = true ∧ item = .number (.integer n)) :
      Plain (.array items)
  | booleans {items : List Value} (h : ∀ item ∈ items, item.kind = .boolean) : Plain (.array items)
  | strings {items : List Value} (h : ∀ item ∈ items, item.kind = .string) : Plain (.array items)
  | object {members : List (String × Value)}
      (keys_fixed : ∀ member ∈ members, Identifier.ofKey member.1 = member.1)
      (members_plain : ∀ member ∈ members, Plain member.2) : Plain (.object members)

/-- Items of one type make a sequence of that type. -/
theorem admits_infer_array (type : ScalarType) {items : List Value}
    (h : ∀ item ∈ items, ScalarType.ofItem item = type ∧ type.Admits item) :
    (ScalarType.infer (.array items)).Admits (.array items) := by
  cases items with
  | nil => exact .sequence (List.forall_mem_nil _)
  | cons first rest =>
    rw [ScalarType.infer, (h first List.mem_cons_self).1]
    exact .sequence fun item hitem => (h item hitem).2

theorem exists_of_kind_boolean {value : Value} (h : value.kind = .boolean) :
    ∃ b, value = .boolean b := by
  cases value <;> cases h
  exact ⟨_, rfl⟩

theorem exists_of_kind_string {value : Value} (h : value.kind = .string) :
    ∃ text, value = .string text := by
  cases value <;> cases h
  exact ⟨_, rfl⟩

theorem Plain.settled {value : Value} (h : Plain value) : value.UniqueKeys →
    ∀ {limit : Nat}, value.depth ≤ limit → Settled limit value := by
  induction h with
  | boolean b => exact fun _ _ hdepth => .leaf (.boolean b) hdepth
  | string text => exact fun _ _ hdepth => .leaf (.string text) hdepth
  | integer fits => exact fun _ _ hdepth => .leaf (.integer fits) hdepth
  | integers h =>
    refine fun _ _ hdepth => .leaf (admits_infer_array .integer fun item hitem => ?_) hdepth
    obtain ⟨n, fits, rfl⟩ := h item hitem
    exact ⟨rfl, .integer fits⟩
  | booleans h =>
    refine fun _ _ hdepth => .leaf (admits_infer_array .boolean fun item hitem => ?_) hdepth
    obtain ⟨b, rfl⟩ := exists_of_kind_boolean (h item hitem)
    exact ⟨rfl, .boolean b⟩
  | strings h =>
    refine fun _ _ hdepth => .leaf (admits_infer_array .string fun item hitem => ?_) hdepth
    obtain ⟨text, rfl⟩ := exists_of_kind_string (h item hitem)
    exact ⟨rfl, .string text⟩
  | @object members keys_fixed _ ih =>
    intro unique limit hdepth
    rw [depth] at hdepth
    obtain ⟨inner, rfl⟩ : ∃ n, limit = n + 1 := Nat.exists_eq_add_one_of_ne_zero (by omega)
    have hinner := membersDepth_le_iff.mp (Nat.le_of_succ_le_succ hdepth)
    exact .object unique.keys_nodup keys_fixed fun member hmember =>
      ih member hmember (unique.of_mem_object hmember) (hinner member hmember)

@[simp] theorem keys_resetBooleans (members : List (String × Value)) :
    OrderedMap.keys (resetBooleans members) = OrderedMap.keys members := by
  rw [resetBooleans, OrderedMap.keys, List.map_map]
  rfl

@[simp] theorem isAssigned_resetBoolean (value : Value) :
    value.resetBoolean.isAssigned = value.isAssigned := by
  cases value <;> rfl

theorem filter_isAssigned_resetBooleans (members : List (String × Value)) :
    ((resetBooleans members).filter fun member => member.2.isAssigned) =
      members.filter fun member => member.2.isAssigned := by
  induction members with
  | nil => rfl
  | cons member rest ih =>
    obtain ⟨key, value⟩ := member
    rw [resetBooleans, List.map_cons, ← resetBooleans]
    cases hassigned : value.isAssigned with
    | true => simp [resetBoolean_of_isAssigned hassigned, hassigned, ih]
    | false => simp [hassigned, ih]

/-- Of the members of a plain document only booleans are not assigned. -/
theorem Plain.exists_of_not_isAssigned {value : Value} (h : Plain value)
    (hassigned : value.isAssigned = false) : ∃ b, value = .boolean b := by
  cases h with
  | boolean b => exact ⟨b, rfl⟩
  | _ => cases hassigned

end Value

namespace Holder

/-- **Plain documents come back as they are**, but for booleans at the root. -/
theorem simulate_of_plain {members : List (String × Value)}
    (unique : (Value.object members).UniqueKeys) (plain : (Value.object members).Plain)
    (variant : Variant) (program : String) :
    (Schema.holder (Node.ofMembers [] members) variant program).simulate (.object members) =
      .ok (Value.resetBooleans members) := by
  cases plain with
  | object hfixed hplain =>
    rw [simulate_eq_writeAll unique hfixed fun member hmember => ((hplain member hmember).settled
      (unique.of_mem_object hmember) (Nat.le_refl _)).selfRead_eq]
    congr 1
    -- The assigned members are the same with and without the booleans reset.
    rw [← Value.filter_isAssigned_resetBooleans]
    refine OrderedMap.writeAll_filter ?_ ?_ fun field hfield hunassigned => ?_
    · rw [Value.keys_resetBooleans]
      exact unique.keys_nodup
    · rw [Value.keys_resetBooleans, OrderedMap.keys, List.map_map]
      rfl
    · -- What no step assigns is a boolean, and its default is what it is replaced by.
      obtain ⟨⟨key, value⟩, hmember, rfl⟩ := List.mem_map.mp hfield
      rw [Value.isAssigned_resetBoolean] at hunassigned
      obtain ⟨b, rfl⟩ := (hplain _ hmember).exists_of_not_isAssigned hunassigned
      exact List.mem_map_of_mem (f := fun member : String × Value =>
        (member.1, (Node.ofMember [] member.1 member.2).type.initialValue)) hmember

/-- **Self-simulation reproduces a document**: what the initializer of a text makes of the text is
the one map that its members come back as, and a plain document comes back as it is but for booleans
at the root. -/
theorem simulate_reproduces {text : String} {schema : Schema} {document : Value}
    (hschema : Schema.ofText text = .ok schema) (hdocument : Value.parse text = .ok document)
    (variant : Variant) (program : String) :
    (∀ values, (schema.holder variant program).simulate document = .ok values →
      document.DistinctIdents → ∃ members, document = .object members ∧
        ∀ fields, Value.ReproducesMembers (Value.resetBooleans members) fields ↔
          fields = values) ∧
    (∀ n, Number.fits n = true → (Value.number (.integer n)).integer? = some n) ∧
    (document.Plain → ∃ members, document = .object members ∧
      (schema.holder variant program).simulate document = .ok (Value.resetBooleans members)) := by
  obtain ⟨members, hmembers, unique, rfl⟩ := Schema.eq_ofMembers_of_ofText hschema
  obtain rfl : document = .object members := Except.ok.inj (hdocument.symm.trans hmembers)
  refine ⟨fun values hvalues distinct => ⟨members, rfl, ?_⟩, fun n => Value.integer?_of_fits,
    fun plain => ⟨members, rfl, simulate_of_plain unique plain variant program⟩⟩
  have hnodup := distinct.nodup unique.keys_nodup
  rw [simulate_of_document unique, Value.initialFields_eq_defaultFields hnodup] at hvalues
  -- Every member is read in the end, so the fields before the first one are none.
  obtain ⟨copies, rfl, hcopies⟩ := Value.selfReadMembers_filter_eq_append [] hvalues hnodup
    fun member hmember path copy hcopy =>
      Value.reproduces_of_selfRead (unique.of_mem_object hmember) (distinct.of_mem unique hmember)
        hcopy
  intro fields
  constructor
  · intro hfields
    exact hfields.unique hcopies
  · rintro rfl
    exact hcopies

/-- A key that is no identifier, a boolean at the root, items of several kinds, and a null. -/
theorem simulate_reproduces_mixed :
    let text := "\x7b\"a.b\": [\"x\", 1, null], \"on\": true, \"db\": \x7b\"as\": null\x7d\x7d"
    let values : List (String × Value) := [("a_b", .array [.string "x", .string "1", .string ""]),
      ("on", .boolean false), ("db", .object [("r#as", .string "")])]
    ∃ schema members, Schema.ofText text = .ok schema ∧ Value.parse text = .ok (.object members) ∧
      (Value.object members).DistinctIdents ∧
      (schema.holder .publicSettings "app").simulate (.object members) = .ok values ∧
      Value.ReproducesMembers (Value.resetBooleans members) values := by
  intro text values
  let members : List (String × Value) :=
    [("a.b", .array [.string "x", .number (.integer 1), .null]), ("on", .boolean true),
      ("db", .object [("as", .null)])]
  have hdocument : Value.parse text = .ok (.object members) := by
    subst text
    cbv
  have hschema := Schema.ofText_of_parse hdocument
  have hvalues : (Schema.holder (Node.ofMembers [] members) .publicSettings "app").simulate
      (.object members) = .ok values := by cbv
  have hdistinct : (Value.object members).DistinctIdents := by
    have hdotted : Identifier.ofKey "a.b" = "a_b" := by cbv
    have hon : Identifier.ofKey "on" = "on" := by cbv
    have hdb : Identifier.ofKey "db" = "db" := by cbv
    refine .object ?_ (by simp [members, hdotted, hon, hdb])
    simp only [members, List.forall_mem_cons]
    refine ⟨.leaf (by decide), .leaf (by decide), .object ?_ (by simp), List.forall_mem_nil _⟩
    exact List.forall_mem_singleton.mpr (.leaf (by decide))
  obtain ⟨_, hmembers, hreproduced⟩ :=
    (simulate_reproduces hschema hdocument _ _).1 values hvalues hdistinct
  cases hmembers
  exact ⟨_, _, hschema, hdocument, hdistinct, hvalues, (hreproduced _).mpr rfl⟩

end Holder

end TypedSettings

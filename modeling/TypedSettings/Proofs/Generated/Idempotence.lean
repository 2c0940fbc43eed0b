import Mathlib
import TypedSettings.Proofs.Generated.Settled

/-!
# Previews of previews

A preview runs the initializer of a settings text on the text itself and prints what it ends with.
The printed map is a settings text of its own. Its preview is the same map: what has been read is
settled, properties that no step assigns have the same defaults again, and members that took each
other's place the first time do not meet a second time.

Main facts:
- `Holder.settled_of_simulate`: a preview is settled
- `Holder.simulate_eq_self`: a settled map is its own preview
- `Holder.simulate_idempotent`: a preview is its own preview
-/

namespace TypedSettings

namespace Value

theorem isAssigned_of_selfRead {path : KeyPath} {value result : Value}
    (hassigned : value.isAssigned = true) (h : selfRead path value = .ok result) :
    result.isAssigned = true := by
  -- Reading gives a value of the inferred type, and values of all types but that of booleans count.
  cases value with
  | null => cases hassigned
  | boolean b => cases hassigned
  | number n =>
    have hadmits : ScalarType.integer.Admits result := ScalarType.admits_of_convert h
    cases hadmits
    rfl
  | string text =>
    cases h
    rfl
  | array items =>
    have hadmits : (ScalarType.infer (.array items)).Admits result := ScalarType.admits_of_convert h
    cases items with
    | nil =>
      cases hadmits
      rfl
    | cons first rest =>
      cases hadmits
      rfl
  | object members =>
    rw [selfRead] at h
    split at h
    next => cases h
    next =>
      cases h
      rfl

/-- The value of a property that a second reading assigns again or else starts with: all defaults
are assigned when they are read but that of a boolean, which is its own default. -/
def Reproduced (value : Value) : Prop := value.isAssigned = true ∨ value = .boolean false

end Value

/-! ## §1 Previews are settled -/

theorem FieldType.settled_initialValue {limit : Nat} {key : String} {value : Value}
    (hdepth : value.depth ≤ limit) :
    Value.Settled limit (Node.ofMember [] key value).type.initialValue := by
  cases value with
  | null => exact .leaf (.string "") (Nat.zero_le _)
  | boolean b => exact .leaf (.boolean false) (Nat.zero_le _)
  | number n => exact .leaf (.integer rfl) (Nat.zero_le _)
  | string text => exact .leaf (.string "") (Nat.zero_le _)
  | array items =>
    have hlimit : 1 ≤ limit := Nat.le_trans (Nat.le_add_left 1 _) hdepth
    cases items with
    | nil => exact .leaf (.sequence (List.forall_mem_nil _)) hlimit
    | cons first rest => exact .leaf (.sequence (List.forall_mem_nil _)) hlimit
  | object members =>
    have hlimit : 1 ≤ limit := Nat.le_trans (Nat.le_add_left 1 _) hdepth
    obtain ⟨inner, rfl⟩ : ∃ n, limit = n + 1 := Nat.exists_eq_add_one_of_ne_zero (by omega)
    exact .object List.nodup_nil (List.forall_mem_nil _) (List.forall_mem_nil _)

theorem FieldType.reproduced_initialValue (key : String) (value : Value) :
    (Node.ofMember [] key value).type.initialValue.Reproduced := by
  cases value with
  | null => exact Or.inl rfl
  | boolean b => exact Or.inr rfl
  | number n => exact Or.inl rfl
  | string text => exact Or.inl rfl
  | array items => cases items <;> exact Or.inl rfl
  | object members => exact Or.inl rfl

namespace Holder

theorem exists_of_mem_initialFields {members : List (String × Value)} {field : String × Value}
    (h : field ∈ initialFields members) :
    ∃ member ∈ members, field = (Identifier.ofKey member.1,
      (Node.ofMember [] member.1 member.2).type.initialValue) := by
  obtain ⟨member, hmember, rfl⟩ := List.mem_map.mp (OrderedMap.mem_of_mem_ofPairs h)
  exact ⟨member, hmember, rfl⟩

/-- **Previews are settled**, and what a second reading does not assign in them it starts with. -/
theorem settled_of_simulate {limit : Nat} {members values : List (String × Value)}
    {variant : Variant} {program : String} (regular : Value.Regular limit (.object members))
    (h : (Schema.holder (Node.ofMembers [] members) variant program).simulate (.object members) =
      .ok values) :
    Value.Settled limit (.object values) ∧ ∀ field ∈ values, field.2.Reproduced := by
  rw [simulate_of_document regular.uniqueKeys] at h
  obtain ⟨inner, rfl, hinner⟩ := regular.of_object
  let Good (field : String × Value) : Prop :=
    Identifier.ofKey field.1 = field.1 ∧ Value.Settled inner field.2 ∧ field.2.Reproduced
  have hinitial : ∀ field ∈ initialFields members, Good field := by
    intro field hfield
    obtain ⟨member, hmember, rfl⟩ := exists_of_mem_initialFields hfield
    have hdepth := (hinner member hmember).depth_le
    exact ⟨Identifier.ofKey_ofKey _, FieldType.settled_initialValue hdepth,
      FieldType.reproduced_initialValue _ _⟩
  have hread : ∀ member ∈ members.filter fun member => member.2.isAssigned,
      ∀ path value, Value.selfRead path member.2 = .ok value →
        Good (Identifier.ofKey member.1, value) := by
    intro member hfiltered path value hvalue
    obtain ⟨hmember, hassigned⟩ := List.mem_filter.mp hfiltered
    have hregular := hinner member hmember
    exact ⟨Identifier.ofKey_ofKey _,
      Value.settled_of_selfRead hregular.uniqueKeys hregular.depth_le hvalue,
      Or.inl (Value.isAssigned_of_selfRead hassigned hvalue)⟩
  -- What holds of the defaults and of every reading holds in the end, whatever is overwritten.
  have hall : ∀ field ∈ values, Good field :=
    Value.forall_mem_of_selfReadMembers h hinitial hread
  have hnodup : (OrderedMap.keys values).Nodup :=
    Value.nodup_keys_of_selfReadMembers h (OrderedMap.nodup_keys_ofPairs _)
  exact ⟨.object hnodup (fun field hfield => (hall field hfield).1)
    fun field hfield => (hall field hfield).2.1, fun field hfield => (hall field hfield).2.2⟩

/-! ## §2 Settled maps are their own previews -/

theorem initialFields_eq_map {members : List (String × Value)}
    (hnodup : (OrderedMap.keys members).Nodup)
    (hfixed : ∀ member ∈ members, Identifier.ofKey member.1 = member.1) :
    initialFields members = members.map fun member =>
      (member.1, (Node.ofMember [] member.1 member.2).type.initialValue) := by
  have hmap : (members.map fun member => (Identifier.ofKey member.1,
      (Node.ofMember [] member.1 member.2).type.initialValue)) =
      members.map fun member =>
        (member.1, (Node.ofMember [] member.1 member.2).type.initialValue) :=
    List.map_congr_left fun member hmember => by rw [hfixed member hmember]
  rw [initialFields, hmap]
  apply OrderedMap.ofPairs_eq_self
  rw [OrderedMap.keys, List.map_map]
  exact hnodup

/-- Where members come back as they are, those that a step assigns are written over what all of
them start with. -/
theorem simulate_eq_writeAll {members : List (String × Value)}
    (unique : (Value.object members).UniqueKeys)
    (hfixed : ∀ member ∈ members, Identifier.ofKey member.1 = member.1)
    (hkept : ∀ member ∈ members, ∀ path, Value.selfRead path member.2 = .ok member.2)
    (variant : Variant) (program : String) :
    (Schema.holder (Node.ofMembers [] members) variant program).simulate (.object members) =
      .ok (OrderedMap.writeAll (members.filter fun member => member.2.isAssigned)
        (members.map fun member =>
          (member.1, (Node.ofMember [] member.1 member.2).type.initialValue))) := by
  have hassigned : ∀ member ∈ members.filter fun member => member.2.isAssigned,
      member ∈ members := fun _ h => (List.mem_filter.mp h).1
  rw [simulate_of_document unique, initialFields_eq_map unique.keys_nodup hfixed]
  exact Value.selfReadMembers_eq_writeAll (fun member h => hfixed member (hassigned member h))
    fun member h => hkept member (hassigned member h)

/-- **Settled maps are their own previews.** -/
theorem simulate_eq_self {limit : Nat} {members : List (String × Value)}
    (settled : Value.Settled limit (.object members))
    (hreproduced : ∀ member ∈ members, member.2.Reproduced) (variant : Variant) (program : String) :
    (Schema.holder (Node.ofMembers [] members) variant program).simulate (.object members) =
      .ok members := by
  obtain ⟨inner, rfl, hnodup, hfixed, hmembers⟩ := settled.exists_of_object
  rw [simulate_eq_writeAll settled.regular.uniqueKeys hfixed fun member hmember =>
    (hmembers member hmember).selfRead_eq]
  congr 1
  refine OrderedMap.writeAll_filter hnodup ?_ fun member hmember hunassigned => ?_
  · rw [OrderedMap.keys, List.map_map]
    rfl
  · -- What no step assigns is a boolean default, and that is what it starts with.
    obtain ⟨key, value⟩ := member
    obtain rfl : value = .boolean false :=
      (hreproduced _ hmember).resolve_left (by simp [hunassigned])
    exact List.mem_map_of_mem (f := fun member : String × Value =>
      (member.1, (Node.ofMember [] member.1 member.2).type.initialValue)) hmember

/-! ## §3 Previews of texts -/

/-- **A preview is its own preview**: the map that a settings text is evaluated to, printed and
taken as a settings text, is read back and evaluated to the same map, for either variant. -/
theorem simulate_idempotent {text : String} {schema : Schema} {document : Value}
    {variant : Variant} {program : String} {values : List (String × Value)}
    (hschema : Schema.ofText text = .ok schema) (hdocument : Value.parse text = .ok document)
    (hvalues : (schema.holder variant program).simulate document = .ok values) :
    ∃ again, Schema.ofText (Value.object values).compact = .ok again ∧
      Value.parse (Value.object values).compact = .ok (.object values) ∧
      ∀ variant program, (again.holder variant program).simulate (.object values) = .ok values := by
  obtain ⟨members, hparse, -, rfl⟩ := Schema.eq_ofMembers_of_ofText hschema
  obtain rfl : document = .object members := Except.ok.inj (hdocument.symm.trans hparse)
  obtain ⟨hsettled, hreproduced⟩ := settled_of_simulate (Value.regular_of_parse hparse) hvalues
  have hread : Value.parse (Value.object values).compact = .ok (.object values) :=
    hsettled.parse_compact
  exact ⟨Node.ofMembers [] values, Schema.ofText_of_parse hread, hread,
    simulate_eq_self hsettled hreproduced⟩

/-- Two keys that meet, a property without a step, and a nested object with a keyword and a null. -/
theorem simulate_idempotent_colliding :
    let text := "\x7b\"a.b\": [true], \"on\": true, \"a_b\": 2, \"db\": \x7b\"as\": null\x7d\x7d"
    let values : List (String × Value) := [("a_b", .number (.integer 2)), ("on", .boolean false),
      ("db", .object [("r#as", .string "")])]
    ∃ schema document,
      Schema.ofText text = .ok schema ∧ Value.parse text = .ok document ∧
      (schema.holder .publicSettings "app").simulate document = .ok values ∧
      Value.parse (Value.object values).compact = .ok (.object values) := by
  intro text values
  let members : List (String × Value) := [("a.b", .array [.boolean true]), ("on", .boolean true),
    ("a_b", .number (.integer 2)), ("db", .object [("as", .null)])]
  have hdocument : Value.parse text = .ok (.object members) := by
    subst text
    cbv
  have hschema := Schema.ofText_of_parse hdocument
  have hvalues : (Schema.holder (Node.ofMembers [] members) .publicSettings "app").simulate
      (.object members) = .ok values := by cbv
  obtain ⟨-, -, hagain, -⟩ := simulate_idempotent hschema hdocument hvalues
  exact ⟨_, _, hschema, hdocument, hvalues, hagain⟩

end Holder

end TypedSettings

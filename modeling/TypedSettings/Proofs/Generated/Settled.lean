import Mathlib
import TypedSettings.Proofs.Document.RoundTrip
import TypedSettings.Proofs.Generated.SelfReading
import TypedSettings.Proofs.Identifier
import TypedSettings.Proofs.Reading.Conversion

/-!
# Settled documents

A document is settled if reading it as its own types changes nothing: its keys are identifiers, its
numbers are integers of the signed range, it has no nulls, and the items of an array are of one
type. Reading any document as its own types gives a settled one, so a second reading is the last.

Main facts:
- `ScalarType.admits_infer`: the type inferred from a converted document is one of the document
- `Value.settled_of_selfRead`: what is read is settled
- `Value.Settled.selfRead_eq`: a settled document is read as it is
- `Value.Settled.parse_compact`: and it survives being printed
-/

namespace TypedSettings

/-! ## §1 Types inferred from converted documents -/

namespace ScalarType

theorem ofItem_ne_sequence (value : Value) (item : ScalarType) : ofItem value ≠ .sequence item := by
  cases value <;> nofun

/-- Conversion to the type of an item keeps that type. -/
theorem ofItem_of_admits {value result : Value} (h : (ofItem value).Admits result) :
    ofItem result = ofItem value := by
  generalize htype : ofItem value = type at h
  cases h with
  | integer fits => rfl
  | boolean b => rfl
  | string text => rfl
  | sequence all => exact absurd htype (ofItem_ne_sequence value _)

theorem depth_of_admits_ofItem {value result : Value} (h : (ofItem value).Admits result) :
    result.depth = 0 := by
  generalize htype : ofItem value = type at h
  cases h with
  | integer fits => rfl
  | boolean b => rfl
  | string text => rfl
  | sequence all => exact absurd htype (ofItem_ne_sequence value _)

/-- Sequences are inferred from arrays only, and their items are of a type inferred from an item. -/
theorem exists_of_infer_eq_sequence {value : Value} {item : ScalarType}
    (h : infer value = .sequence item) :
    ∃ items, value = .array items ∧ ∃ source, item = ofItem source := by
  cases value with
  | array items =>
    refine ⟨items, rfl, ?_⟩
    cases items with
    | nil =>
      cases h
      exact ⟨.null, rfl⟩
    | cons first rest =>
      cases h
      exact ⟨first, rfl⟩
  | null => cases h
  | boolean b => cases h
  | number n => cases h
  | string text => cases h
  | object members => cases h

/-- **Inference is stable**: a converted document is one of the type inferred from it. -/
theorem admits_infer {value result : Value} (h : (infer value).Admits result) :
    (infer result).Admits result := by
  generalize htype : infer value = type at h
  cases h with
  | integer fits => exact .integer fits
  | boolean b => exact .boolean b
  | string text => exact .string text
  | @sequence item items all =>
    obtain ⟨-, -, source, rfl⟩ := exists_of_infer_eq_sequence htype
    cases items with
    | nil => exact .sequence (List.forall_mem_nil _)
    | cons first rest =>
      -- The first item decides, and conversion has not changed its type.
      have hfirst : ofItem first = ofItem source := ofItem_of_admits (all first List.mem_cons_self)
      rw [infer, hfirst]
      exact .sequence all

/-- Conversion makes no document deeper. -/
theorem depth_le_of_admits {value result : Value} (h : (infer value).Admits result) :
    result.depth ≤ value.depth := by
  generalize htype : infer value = type at h
  cases h with
  | integer fits => exact Nat.zero_le _
  | boolean b => exact Nat.zero_le _
  | string text => exact Nat.zero_le _
  | @sequence item items all =>
    obtain ⟨sources, rfl, source, rfl⟩ := exists_of_infer_eq_sequence htype
    have hitems : Value.itemsDepth items ≤ 0 :=
      Value.itemsDepth_le_iff.mpr fun x hx => Nat.le_of_eq (depth_of_admits_ofItem (all x hx))
    rw [Value.depth, Value.depth]
    omega

theorem Admits.uniqueKeys {type : ScalarType} {value : Value} (h : type.Admits value) :
    value.UniqueKeys := by
  induction h with
  | integer fits => exact .number _
  | boolean b => exact .boolean b
  | string text => exact .string text
  | sequence all ih => exact .array ih

theorem Admits.integral {type : ScalarType} {value : Value} (h : type.Admits value) :
    value.Integral := by
  induction h with
  | integer fits => exact .number (Number.isInteger_of_fits fits)
  | boolean b => exact .boolean b
  | string text => exact .string text
  | sequence all ih => exact .array ih

end ScalarType

namespace Value

/-! ## §2 Settled documents -/

/-- `Settled limit value`: the document has at most `limit` levels and is read as it is. -/
inductive Settled : Nat → Value → Prop where
  | leaf {limit : Nat} {value : Value} (admits : (ScalarType.infer value).Admits value)
      (depth_le : value.depth ≤ limit) : Settled limit value
  | object {limit : Nat} {members : List (String × Value)}
      (keys_nodup : (OrderedMap.keys members).Nodup)
      (keys_fixed : ∀ member ∈ members, Identifier.ofKey member.1 = member.1)
      (members_settled : ∀ member ∈ members, Settled limit member.2) :
      Settled (limit + 1) (.object members)

theorem Settled.exists_of_object {limit : Nat} {members : List (String × Value)}
    (h : Settled limit (.object members)) :
    ∃ inner, limit = inner + 1 ∧ (OrderedMap.keys members).Nodup ∧
      (∀ member ∈ members, Identifier.ofKey member.1 = member.1) ∧
      ∀ member ∈ members, Settled inner member.2 := by
  cases h with
  | leaf admits _ => cases admits
  | object keys_nodup keys_fixed members_settled =>
    exact ⟨_, rfl, keys_nodup, keys_fixed, members_settled⟩

theorem Settled.regular {limit : Nat} {value : Value} (h : Settled limit value) :
    Regular limit value := by
  induction h with
  | leaf admits depth_le => exact ⟨admits.uniqueKeys, depth_le⟩
  | object keys_nodup _ _ ih => exact OrderedMap.ofPairs_eq_self keys_nodup ▸ Regular.object ih

theorem Settled.integral {limit : Nat} {value : Value} (h : Settled limit value) :
    value.Integral := by
  induction h with
  | leaf admits _ => exact admits.integral
  | object _ _ _ ih => exact .object ih

/-- **Settled documents survive being printed.** -/
theorem Settled.parse_compact {value : Value} (h : Settled depthLimit value) :
    parse value.compact = .ok value :=
  Value.parse_compact h.regular h.integral

/-- Members that are read as they are are written under their own keys. -/
theorem selfReadMembers_eq_writeAll {path : KeyPath} {fields members : List (String × Value)}
    (hfixed : ∀ member ∈ members, Identifier.ofKey member.1 = member.1)
    (hread : ∀ member ∈ members, ∀ path, selfRead path member.2 = .ok member.2) :
    selfReadMembers path fields members = .ok (OrderedMap.writeAll members fields) := by
  induction members generalizing fields with
  | nil => rfl
  | cons member rest ih =>
    obtain ⟨key, value⟩ := member
    obtain ⟨hkey, hrestKeys⟩ := List.forall_mem_cons.mp hfixed
    obtain ⟨hvalue, hrest⟩ := List.forall_mem_cons.mp hread
    rw [selfReadMembers, hvalue, OrderedMap.writeAll_cons]
    simp only [hkey]
    exact ih hrestKeys hrest

/-- **Settled documents are read as they are.** -/
theorem Settled.selfRead_eq {limit : Nat} {value : Value} (h : Settled limit value) :
    ∀ path, selfRead path value = .ok value := by
  induction h with
  | @leaf limit value admits _ =>
    intro path
    -- No scalar type admits an object.
    have hobject : value.kind ≠ .object := by
      intro hkind
      cases value <;> cases hkind
      cases admits
    rw [selfRead_of_not_object hobject]
    exact ScalarType.convert_eq_self admits path.dotted
  | @object limit members keys_nodup keys_fixed _ ih =>
    intro path
    have hread : selfReadMembers path [] members = .ok (OrderedMap.ofPairs members) :=
      selfReadMembers_eq_writeAll keys_fixed ih
    rw [selfRead, hread, OrderedMap.ofPairs_eq_self keys_nodup]

/-! ## §3 Reading settles -/

theorem nodup_keys_of_selfReadMembers {path : KeyPath}
    {fields members result : List (String × Value)}
    (h : selfReadMembers path fields members = .ok result)
    (hfields : (OrderedMap.keys fields).Nodup) : (OrderedMap.keys result).Nodup := by
  induction members generalizing fields with
  | nil =>
    cases h
    exact hfields
  | cons member rest ih =>
    obtain ⟨read, -, hrest⟩ := selfReadMembers_cons_eq_ok_iff.mp h
    exact ih hrest (OrderedMap.nodup_keys_insert hfields)

/-- What holds of the fields so far and of every member that is read holds of all fields in the end,
also if members take each other's place. -/
theorem forall_mem_of_selfReadMembers {P : String × Value → Prop} {path : KeyPath}
    {fields members result : List (String × Value)}
    (h : selfReadMembers path fields members = .ok result) (hfields : ∀ field ∈ fields, P field)
    (hmembers : ∀ member ∈ members, ∀ path value, selfRead path member.2 = .ok value →
      P (Identifier.ofKey member.1, value)) : ∀ field ∈ result, P field := by
  induction members generalizing fields with
  | nil =>
    cases h
    exact hfields
  | cons member rest ih =>
    obtain ⟨hmember, hothers⟩ := List.forall_mem_cons.mp hmembers
    obtain ⟨read, hread, hrest⟩ := selfReadMembers_cons_eq_ok_iff.mp h
    refine ih hrest (fun field hfield => ?_) hothers
    -- A field is the one just written or was there before.
    rcases OrderedMap.mem_of_mem_insert hfield with rfl | hold
    · exact hmember _ read hread
    · exact hfields field hold

theorem settled_of_leaf {limit : Nat} {path : KeyPath} {value result : Value}
    (hobject : value.kind ≠ .object) (hdepth : value.depth ≤ limit)
    (h : selfRead path value = .ok result) : Settled limit result := by
  rw [selfRead_of_not_object hobject] at h
  have hadmits := ScalarType.admits_of_convert h
  exact .leaf (ScalarType.admits_infer hadmits)
    (Nat.le_trans (ScalarType.depth_le_of_admits hadmits) hdepth)

/-- **Reading settles**: what a document becomes when it is read as its own types is settled. -/
theorem settled_of_selfRead {value : Value} (unique : value.UniqueKeys) :
    ∀ {limit : Nat} {path : KeyPath} {result : Value}, value.depth ≤ limit →
      selfRead path value = .ok result → Settled limit result := by
  induction unique with
  | null => exact settled_of_leaf nofun
  | boolean b => exact settled_of_leaf nofun
  | number n => exact settled_of_leaf nofun
  | string text => exact settled_of_leaf nofun
  | array _ _ => exact settled_of_leaf nofun
  | @object members _ _ ih =>
    intro limit path result hdepth h
    rw [selfRead] at h
    split at h
    next => cases h
    next fields hfields =>
      cases h
      rw [depth] at hdepth
      obtain ⟨inner, rfl⟩ : ∃ n, limit = n + 1 := Nat.exists_eq_add_one_of_ne_zero (by omega)
      have hinner := membersDepth_le_iff.mp (Nat.le_of_succ_le_succ hdepth)
      -- Every field is written under an identifier and is a settled reading of some member.
      have hall := forall_mem_of_selfReadMembers (P := fun field =>
          Identifier.ofKey field.1 = field.1 ∧ Settled inner field.2) hfields
        (List.forall_mem_nil _) fun member hmember path value hvalue =>
          ⟨Identifier.ofKey_ofKey member.1, ih member hmember (hinner member hmember) hvalue⟩
      exact .object (nodup_keys_of_selfReadMembers hfields List.nodup_nil)
        (fun field hfield => (hall field hfield).1) fun field hfield => (hall field hfield).2

end Value

end TypedSettings

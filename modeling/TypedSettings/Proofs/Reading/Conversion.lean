import Mathlib
import TypedSettings.Schema.FieldType
import TypedSettings.Proofs.Reading.Items

/-!
# Conversions and typed values

A document can be converted to a scalar type in two ways: to a value of the type, or to another
document that stands for such a value. Both succeed on the same documents with corresponding results
and fail with the same errors, for sequences of any depth. What a conversion yields is a document of
the type, and such a document is converted to itself.

Main facts:
- `ScalarType.convert_eq_map_embed`: the two conversions agree
- `ScalarType.Admits`: the documents of a type
- `ScalarType.admits_of_convert`, `ScalarType.convert_eq_self`: they are what conversions yield and
  keep
-/

namespace TypedSettings

namespace ScalarType

/-! ## §1 Two conversions -/

theorem convert_array (item : ScalarType) (path : String) (items : List Value) :
    convert path (.sequence item) (.array items) =
      (Readable.readItems (fun path value => item.convert path value) path 0 items).map
        Value.array := by
  simp only [convert]
  cases Readable.readItems (fun path value => item.convert path value) path 0 items with
  | error e => rfl
  | ok converted => rfl

/-- **Conversion mirrors typed reading**: the converted document is the typed value, embedded. -/
theorem convert_eq_map_embed (type : ScalarType) (path : String) (value : Value) :
    type.convert path value =
      (Readable.ofValue (α := type.Carrier) path value).map type.embed := by
  induction type generalizing path value with
  | integer =>
    show convert path .integer value = (Readable.ofValue (α := Int) path value).map _
    simp only [convert]
    cases Readable.ofValue (α := Int) path value with
    | error e => rfl
    | ok n => rfl
  | boolean =>
    show convert path .boolean value = (Readable.ofValue (α := Bool) path value).map _
    simp only [convert]
    cases Readable.ofValue (α := Bool) path value with
    | error e => rfl
    | ok b => rfl
  | string => rfl
  | sequence item ih =>
    cases value with
    | array items =>
      -- The two ways of reading an item agree, so reading and embedding can be swapped.
      have hconvert : (fun path value => item.convert path value) =
          fun path value => (Readable.ofValue (α := item.Carrier) path value).map item.embed := by
        funext path value
        exact ih path value
      rw [convert_array, hconvert, Readable.readItems_map]
      show _ = (Readable.readItems (Readable.ofValue (α := item.Carrier)) path 0 items).map _
      cases Readable.readItems (Readable.ofValue (α := item.Carrier)) path 0 items with
      | error e => rfl
      | ok xs => rfl
    | null => rfl
    | boolean b => rfl
    | number n => rfl
    | string text => rfl
    | object members => rfl

/-! ## §2 Documents of a type -/

/-- `Admits type value`: the document stands for a value of the type. -/
inductive Admits : ScalarType → Value → Prop where
  | integer {n : Int} (fits : Number.fits n = true) : Admits .integer (.number (.integer n))
  | boolean (b : Bool) : Admits .boolean (.boolean b)
  | string (text : String) : Admits .string (.string text)
  | sequence {item : ScalarType} {items : List Value} (all : ∀ value ∈ items, Admits item value) :
      Admits (.sequence item) (.array items)

theorem fits_of_toInteger? {n : Number} {k : Int} (h : n.toInteger? = some k) :
    Number.fits k = true := by
  cases n with
  | integer m =>
    simp only [Number.toInteger?] at h
    split at h
    next hfits => exact Option.some.inj h ▸ hfits
    next => cases h
  | float x =>
    simp only [Number.toInteger?] at h
    split at h
    next hfits => exact Option.some.inj h ▸ hfits
    next => cases h

theorem exists_of_convert_integer {path : String} {value result : Value}
    (h : ScalarType.integer.convert path value = .ok result) :
    ∃ n k, value = .number n ∧ n.toInteger? = some k ∧ result = .number (.integer k) := by
  cases value with
  | number n =>
    simp only [convert, Readable.ofValue] at h
    cases hn : n.toInteger? with
    | none => simp [hn] at h
    | some k =>
      simp only [hn, Option.elim_some, Except.ok.injEq] at h
      exact ⟨n, k, rfl, hn, h.symm⟩
  | null => cases h
  | boolean b => cases h
  | string text => cases h
  | array items => cases h
  | object members => cases h

theorem exists_of_convert_boolean {path : String} {value result : Value}
    (h : ScalarType.boolean.convert path value = .ok result) :
    ∃ b, value = .boolean b ∧ result = .boolean b := by
  cases value with
  | boolean b =>
    cases h
    exact ⟨b, rfl, rfl⟩
  | null => cases h
  | number n => cases h
  | string text => cases h
  | array items => cases h
  | object members => cases h

theorem exists_of_convert_sequence {item : ScalarType} {path : String} {value result : Value}
    (h : (ScalarType.sequence item).convert path value = .ok result) :
    ∃ items converted, value = .array items ∧
      Readable.readItems (fun path value => item.convert path value) path 0 items =
        .ok converted ∧ result = .array converted := by
  cases value with
  | array items =>
    rw [convert_array] at h
    cases hitems : Readable.readItems (fun path value => item.convert path value) path 0 items with
    | error e => simp [hitems, Except.map] at h
    | ok converted =>
      simp only [hitems, Except.map, Except.ok.injEq] at h
      exact ⟨items, converted, rfl, hitems, h.symm⟩
  | null => cases h
  | boolean b => cases h
  | number n => cases h
  | string text => cases h
  | object members => cases h

/-- What a conversion yields is a document of the type. -/
theorem admits_of_convert {type : ScalarType} {path : String} {value result : Value}
    (h : type.convert path value = .ok result) : type.Admits result := by
  induction type generalizing path value result with
  | integer =>
    obtain ⟨n, k, -, hn, rfl⟩ := exists_of_convert_integer h
    exact .integer (fits_of_toInteger? hn)
  | boolean =>
    obtain ⟨b, -, rfl⟩ := exists_of_convert_boolean h
    exact .boolean b
  | string =>
    cases h
    exact .string _
  | sequence item ih =>
    obtain ⟨items, converted, -, hitems, rfl⟩ := exists_of_convert_sequence h
    refine .sequence fun x hx => ?_
    obtain ⟨source, -, itemPath, hread⟩ := Readable.exists_of_mem_readItems hitems x hx
    exact ih hread

/-- **Converted documents are stable**: a document of a type is converted to itself. -/
theorem convert_eq_self {type : ScalarType} {value : Value} (h : type.Admits value)
    (path : String) : type.convert path value = .ok value := by
  induction h generalizing path with
  | integer fits => simp [convert, Readable.ofValue, Number.toInteger?, fits]
  | boolean b => rfl
  | string text => rfl
  | sequence all ih =>
    rw [convert_array, Readable.readItems_eq_ok (f := id) fun item hitem path => ih item hitem path]
    simp only [Except.map, List.map_id]

end ScalarType

end TypedSettings

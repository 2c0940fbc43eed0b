import Mathlib
import TypedSettings.Generated.Source
import TypedSettings.Proofs.Generated.Legibility
import TypedSettings.Proofs.Reading.Conversion
import TypedSettings.Proofs.Reading.Offender

/-!
# Conversions at spelled types

A plan converts a leaf by the tag of its scalar type, and generated code reads it at the type that
the declaration spells. The spelling of a scalar type denotes one type of values, so the two can be
compared: a document that one accepts is accepted by the other, what they make of it is the same
integer, boolean, text or list, and a document that they refuse is refused with one error.

Main facts:
- `ReadableType.Denoted`, `ScalarType.denoted_spelling_iff`: the type that a spelling denotes
- `ScalarType.Stands`: documents that stand for typed values
- `ScalarType.convert_mirrors_reading`: the two conversions
-/

namespace TypedSettings

/-! ## §1 Spelled types -/

/-- A type of values with the way in which they are read from documents. -/
structure ReadableType where
  carrier : Type
  readable : Readable carrier

/-- `Denoted text type`: the text spells the type by its path from the root. -/
inductive ReadableType.Denoted : String → ReadableType → Prop where
  | integer : Denoted "::core::primitive::i64" ⟨Int, inferInstance⟩
  | boolean : Denoted "::core::primitive::bool" ⟨Bool, inferInstance⟩
  | string : Denoted "::std::string::String" ⟨String, inferInstance⟩
  | list {text : String} {carrier : Type} [readable : Readable carrier]
      (item : Denoted text ⟨carrier, readable⟩) :
      Denoted ("::std::vec::Vec<" ++ text ++ ">") ⟨List carrier, inferInstance⟩

namespace ScalarType

/-- The values of a scalar type with the way in which they are read. -/
def toReadable (type : ScalarType) : ReadableType := ⟨type.Carrier, type.readable⟩

theorem spelling_sequence (item : ScalarType) :
    (sequence item).spelling = "::std::vec::Vec<" ++ item.spelling ++ ">" := by
  simp [spelling, ← String.toList_inj]

theorem denoted_spelling : ∀ type : ScalarType, ReadableType.Denoted type.spelling type.toReadable
  | .integer => .integer
  | .boolean => .boolean
  | .string => .string
  | .sequence item => by
    rw [spelling_sequence]
    exact @ReadableType.Denoted.list _ _ item.readable (denoted_spelling item)

/-- Whatever is denoted is the type of the values of a scalar type. -/
theorem exists_of_denoted {text : String} {denoted : ReadableType} (h : denoted.Denoted text) :
    ∃ type : ScalarType, type.spelling = text ∧ denoted = type.toReadable := by
  induction h with
  | integer => exact ⟨.integer, rfl, rfl⟩
  | boolean => exact ⟨.boolean, rfl, rfl⟩
  | string => exact ⟨.string, rfl, rfl⟩
  | list _ ih =>
    obtain ⟨item, rfl, heq⟩ := ih
    cases heq
    exact ⟨.sequence item, spelling_sequence item, rfl⟩

/-- **A spelling denotes one type**: that of the values of the scalar type. -/
theorem denoted_spelling_iff {type : ScalarType} {denoted : ReadableType} :
    denoted.Denoted type.spelling ↔ denoted = type.toReadable := by
  constructor
  · intro h
    obtain ⟨other, hspelling, rfl⟩ := exists_of_denoted h
    rw [spelling_injective hspelling]
  · rintro rfl
    exact denoted_spelling type

/-! ## §2 Documents in place of typed values -/

/-- `type.Stands x value`: the document is the typed value again, an integer of 64 bits as a number,
a boolean or a text as such, and a list as an array with its items in order. -/
def Stands : (type : ScalarType) → type.Carrier → Value → Prop
  | .integer, (n : Int), value => Number.fits n ∧ value = .number (.integer n)
  | .boolean, (b : Bool), value => value = .boolean b
  | .string, (text : String), value => value = .string text
  | .sequence item, (xs : List item.Carrier), value =>
    ∃ items, value = .array items ∧ List.Forall₂ item.Stands xs items

/-- Only its embedding stands for a typed value. -/
theorem eq_embed_of_stands {type : ScalarType} {x : type.Carrier} {value : Value}
    (h : type.Stands x value) : value = type.embed x := by
  induction type generalizing value with
  | integer => exact h.2
  | boolean => exact h
  | string => exact h
  | sequence item ih =>
    obtain ⟨items, rfl, hitems⟩ := h
    have hembed : List.map item.embed x = items := by
      rw [← List.forall₂_eq_eq_eq]
      exact List.forall₂_map_left_iff.mpr (hitems.imp fun _ _ hitem => (ih hitem).symm)
    exact congrArg Value.array hembed.symm

/-- An embedded value stands for itself where it is a document of the type. -/
theorem stands_embed {type : ScalarType} {x : type.Carrier} (h : type.Admits (type.embed x)) :
    type.Stands x (type.embed x) := by
  induction type with
  | integer =>
    cases h with
    | integer fits => exact ⟨fits, rfl⟩
  | boolean => rfl
  | string => rfl
  | sequence item ih =>
    cases h with
    | sequence all =>
      refine ⟨_, rfl, List.forall₂_map_right_iff.mpr (List.forall₂_same.mpr fun y hy => ih ?_)⟩
      exact all _ (List.mem_map_of_mem hy)

/-! ## §3 Two conversions -/

/-- **Conversion mirrors reading at the spelled type.** The spelling of a scalar type denotes one
type. A document is converted exactly if it is read at that type, and the result stands for the
typed value; it is refused with the mismatch that reading has, at the same indices. -/
theorem convert_mirrors_reading (type : ScalarType) :
    (∀ denoted : ReadableType, denoted.Denoted type.spelling ↔ denoted = type.toReadable) ∧
    ∀ path value,
      (∀ result, type.convert path value = .ok result ↔
        ∃ x : type.Carrier, Readable.ofValue path value = .ok x ∧ type.Stands x result) ∧
      (∀ e, type.convert path value = .error e ↔
        Readable.ofValue (α := type.Carrier) path value = .error e) ∧
      ∀ e, type.convert path value = .error e →
        ∃ indices expected found,
          e = .mismatch (path ++ Readable.suffix indices) expected found := by
  refine ⟨fun _ => denoted_spelling_iff, fun path value => ?_⟩
  -- A leaf is converted by reading it and embedding the result, so the two can fail only together.
  have hconvert := type.convert_eq_map_embed path value
  cases hread : Readable.ofValue (α := type.Carrier) path value with
  | error e =>
    rw [hread] at hconvert
    rw [hconvert, Except.map]
    refine ⟨fun result => ?_, fun e' => by simp, fun e' heq => ?_⟩
    · exact ⟨nofun, by rintro ⟨x, hx, -⟩; cases hx⟩
    · cases heq
      obtain ⟨indices, expected, found, rfl, -⟩ := exists_firstOffender hread
      exact ⟨indices, expected, found, rfl⟩
  | ok x =>
    rw [hread] at hconvert
    -- Whatever is converted is a document of the type, so the integers in it fit.
    have hstands : type.Stands x (type.embed x) := stands_embed (admits_of_convert hconvert)
    rw [hconvert]
    refine ⟨fun result => ⟨?_, ?_⟩, fun e => ⟨nofun, nofun⟩, nofun⟩
    · rintro ⟨⟩
      exact ⟨x, rfl, hstands⟩
    · rintro ⟨x', hx', hresult⟩
      cases hx'
      rw [eq_embed_of_stands hresult]
      rfl

end ScalarType

end TypedSettings

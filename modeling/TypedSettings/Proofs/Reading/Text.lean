import Mathlib
import TypedSettings.Proofs.Document.DepthLimit
import TypedSettings.Reading.Readable

/-!
# Values read as text

Any value can be read as text. A string is its own text and null the empty one; every other value
is written in its compact form. Such a text is a settings text again: up to the depth limit it is
read as the value it was made from, and beyond it is refused for its depth.

Main facts:
- `Value.parse_textOf`: the text of a value that is neither a string nor null is read back
- `Readable.text_lossless`: reading as text and parsing are inverse
-/

namespace TypedSettings

namespace Value

/-- Is the value written in its compact form where a text is wanted? -/
def IsWritten (value : Value) : Prop := value.kind ≠ .string ∧ value.kind ≠ .null

theorem textOf_eq_compact {value : Value} (h : value.IsWritten) :
    Readable.textOf value = value.compact := by
  obtain ⟨hstring, hnull⟩ := h
  cases value with
  | string text => exact absurd rfl hstring
  | null => exact absurd rfl hnull
  | _ => rfl

/-- The compact form tells everything about the value: it is neither a string nor null, has no
repeated keys, and its numbers are integers of the two 64-bit forms. -/
structure IsExact (value : Value) : Prop where
  isWritten : value.IsWritten
  uniqueKeys : value.UniqueKeys
  integral : value.Integral

/-- The text of a value within the depth limit is read as that value. -/
theorem parse_textOf {value : Value} (h : value.IsExact) (hdepth : value.depth ≤ depthLimit) :
    parse (Readable.textOf value) = .ok value := by
  rw [textOf_eq_compact h.isWritten]
  exact parse_compact ⟨h.uniqueKeys, hdepth⟩ h.integral

theorem parse_textOf_of_depth {value : Value} (h : value.IsExact)
    (hdepth : depthLimit < value.depth) :
    ∃ position, parse (Readable.textOf value) = .error ⟨.recursionLimit, position⟩ := by
  rw [textOf_eq_compact h.isWritten]
  exact parse_compact_of_depth h.uniqueKeys h.integral hdepth

/-- Values within the depth limit are told apart by their texts, also from values beyond it. -/
theorem eq_of_textOf_eq {first second : Value} (hfirst : first.IsExact)
    (hsecond : second.IsExact) (hdepth : first.depth ≤ depthLimit)
    (h : Readable.textOf first = Readable.textOf second) : first = second := by
  have hparsed := parse_textOf hfirst hdepth
  rw [h] at hparsed
  rcases Nat.lt_or_ge depthLimit second.depth with hdeep | hflat
  · obtain ⟨position, hrefused⟩ := parse_textOf_of_depth hsecond hdeep
    cases hparsed.symm.trans hrefused
  · exact Except.ok.inj (hparsed.symm.trans (parse_textOf hsecond hflat))

end Value

/-- **Text loses nothing**: reading a value as text never fails; the text of a boolean, an integer,
an array or an object is read back as exactly that value, or is refused with the recursion limit if
the value lies deeper than a reader goes. So up to that depth different values have different
texts. -/
theorem Readable.text_lossless (path : String) {value : Value} (h : value.IsExact) :
    ∃ text, (Readable.ofValue path value : Except ReadError String) = .ok text ∧
      (value.depth ≤ Value.depthLimit → Value.parse text = .ok value) ∧
      (Value.depthLimit < value.depth →
        ∃ position, Value.parse text = .error ⟨.recursionLimit, position⟩) ∧
      ∀ other : Value, other.IsExact →
        value.depth ≤ Value.depthLimit ∨ other.depth ≤ Value.depthLimit → ∀ otherPath,
        (Readable.ofValue otherPath other : Except ReadError String) = .ok text →
          value = other := by
  refine ⟨Readable.textOf value, rfl, Value.parse_textOf h, Value.parse_textOf_of_depth h, ?_⟩
  intro other hother hdepth otherPath htext
  have htext : Readable.textOf other = Readable.textOf value := Except.ok.inj htext
  rcases hdepth with hdepth | hdepth
  · exact Value.eq_of_textOf_eq h hother hdepth htext.symm
  · exact (Value.eq_of_textOf_eq hother h hdepth htext).symm

/-- Marks of comments in a key, an escape and a NUL character in a string, and both ends of the
integer range. -/
theorem Readable.text_lossless_marks :
    let value : Value := .object [("//", .array [.number (.integer (-2 ^ 63)),
      .string "\"*/ \\u0041\x00"]), ("", .number (.integer (2 ^ 64 - 1)))]
    value.IsExact ∧ value.depth ≤ Value.depthLimit ∧
      ∃ text, (Readable.ofValue "Tags[0]" value : Except ReadError String) = .ok text ∧
        Value.parse text = .ok value := by
  intro value
  have hleast : Number.IsInteger (.integer (-(2 ^ 63 : Nat))) := .signed (by decide) (by decide)
  have hgreatest : Number.IsInteger (.integer (2 ^ 64 - 1 : Nat)) := .unsigned (by decide)
  have hunique : value.UniqueKeys := by
    refine .object (by decide) (List.forall_mem_cons.mpr
      ⟨.array ?_, List.forall_mem_singleton.mpr (.number _)⟩)
    exact List.forall_mem_cons.mpr ⟨.number _, List.forall_mem_singleton.mpr (.string _)⟩
  have hintegral : value.Integral := by
    refine .object (List.forall_mem_cons.mpr
      ⟨.array ?_, List.forall_mem_singleton.mpr (.number hgreatest)⟩)
    exact List.forall_mem_cons.mpr ⟨.number hleast, List.forall_mem_singleton.mpr (.string _)⟩
  have hexact : value.IsExact := ⟨⟨nofun, nofun⟩, hunique, hintegral⟩
  have hdepth : value.depth ≤ Value.depthLimit := by decide
  obtain ⟨text, htext, hback, -⟩ := Readable.text_lossless "Tags[0]" hexact
  exact ⟨hexact, hdepth, text, htext, hback hdepth⟩

end TypedSettings

import Mathlib
import TypedSettings.Proofs.Document.Meaning
import TypedSettings.Proofs.Number.ScaledNumeral

/-!
# Documents in range

The grammar says nothing of how numerals are evaluated if all it asks of them is to be in range.
That is enough to tell which texts are accepted.

Main facts:
- `Value.Document.mono`: a document stays one when its numerals mean more
- `Value.exists_parse_eq_ok_iff`: the accepted texts are the documents of numerals in range
-/

namespace TypedSettings.Value

/-! ## §1 Documents of numerals that mean more -/

section

variable {α : Type} {Word Word' : List Char → α → Prop}

theorem Padded.mono (hword : ∀ text x, Word text x → Word' text x) {text : List Char} {x : α}
    (h : Padded Word text x) : Padded Word' text x := by
  cases h with
  | mk hbefore h hafter => exact .mk hbefore (hword _ _ h) hafter

theorem Separated.mono (hword : ∀ text x, Word text x → Word' text x) {text : List Char}
    {xs : List α} (h : Separated Word text xs) : Separated Word' text xs := by
  induction h with
  | single h => exact .single (hword _ _ h)
  | cons h _ ih => exact .cons (hword _ _ h) ih

theorem Listed.mono (hword : ∀ text x, Word text x → Word' text x) {text : List Char}
    {xs : List α} (h : Listed Word text xs) : Listed Word' text xs := by
  cases h with
  | none hgap => exact .none hgap
  | some h => exact .some (h.mono hword)
  | trailing h hgap => exact .trailing (h.mono hword) hgap

end

section

variable {Inner Inner' : List Char → Value → Prop}

theorem Member.mono (hinner : ∀ text value, Inner text value → Inner' text value)
    {text : List Char} {member : String × Value} (h : Member Inner text member) :
    Member Inner' text member := by
  cases h with
  | mk hkey hbefore hafter h => exact .mk hkey hbefore hafter (hinner _ _ h)

theorem Nested.mono (hinner : ∀ text value, Inner text value → Inner' text value)
    {text : List Char} {value : Value} (h : Nested Inner text value) :
    Nested Inner' text value := by
  cases h with
  | array h => exact .array (h.mono fun _ _ h => h.mono hinner)
  | object h hfields =>
    exact .object (h.mono fun _ _ h => h.mono fun _ _ h => h.mono hinner) hfields

end

section

variable {denotes denotes' : Numeral → Number → Prop}
  (hdenotes : ∀ word n number, Numeral.Spells word n → denotes n number → denotes' n number)

include hdenotes

theorem Scalar.mono {word : List Char} {value : Value} (h : Scalar denotes word value) :
    Scalar denotes' word value := by
  cases h with
  | null => exact .null
  | true => exact .true
  | false => exact .false
  | number h hnumber => exact .number h (hdenotes _ _ _ h hnumber)
  | string h => exact .string h

theorem Spells.mono : ∀ (depth : Nat) (word : List Char) (value : Value),
    Spells denotes depth word value → Spells denotes' depth word value
  | 0, _, _, h => Scalar.mono hdenotes h
  | depth + 1, _, _, h => h.imp (Scalar.mono hdenotes) (Nested.mono (Spells.mono depth))

theorem Enclosed.mono {depth : Nat} {text : List Char} {value : Value}
    (h : Enclosed denotes depth text value) : Enclosed denotes' depth text value := by
  cases h with
  | mk hbefore h hafter => exact .mk hbefore (Spells.mono hdenotes depth _ _ h) hafter

/-- **Numerals that mean more**: a document stays one, and of the same value. -/
theorem Document.mono {text : List Char} {value : Value} (h : Document denotes text value) :
    Document denotes' text value := by
  cases h with
  | plain h => exact .plain (h.mono hdenotes)
  | marked h => exact .marked (h.mono hdenotes)

end

/-! ## §2 Accepted texts -/

theorem inRange_iff_of_spells {word : List Char} {n : Numeral} (h : Numeral.Spells word n) :
    n.InRange ↔ ∃ number, n.Denotes number := by
  cases h with
  | mk hwhole => exact (Numeral.exists_denotes_iff_inRange hwhole.isDigit).symm

/-- **The accepted texts** are the documents whose numerals are in range. -/
theorem exists_parse_eq_ok_iff {text : String} : (∃ value, parse text = .ok value) ↔
    ∃ value, Document (fun n _ => n.InRange) text.toList value := by
  constructor
  · rintro ⟨value, h⟩
    refine ⟨value, (parse_eq_ok_iff_document.mp h).mono ?_⟩
    exact fun _ n number hspells hnumber => (inRange_iff_of_spells hspells).mpr ⟨number, hnumber⟩
  · rintro ⟨value, h⟩
    have hdenotes : Document (fun n _ => ∃ found, n.Denotes found) text.toList value :=
      h.mono fun _ _ _ hspells => (inRange_iff_of_spells hspells).mp
    rcases parse_of_document hdenotes with ⟨found, hfound, -⟩ | ⟨-, n, -, ⟨found, hfound⟩, hnone⟩
    · exact ⟨found, hfound⟩
    · exact absurd hfound (hnone found)

end TypedSettings.Value

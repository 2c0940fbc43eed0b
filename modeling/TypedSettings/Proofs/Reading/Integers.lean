import Mathlib
import TypedSettings.Proofs.Document.Meaning
import TypedSettings.Proofs.Number.ScaledNumeral
import TypedSettings.Proofs.Reading.Conversion

/-!
# Reading integers

A whole numeral means the integer it spells, however many digits that takes. Wherever a document
holds it, by itself, as a member or as an item, it is read as exactly this integer if that fits 64
bits and as a mismatch if not. There are two exceptions: an integer just below the range is rounded
onto the least one in it, and a text with an integer out of range of the binary values is refused.

Main facts:
- `Numeral.Means`: what numerals mean if no integer is rounded
- `Value.rounds_at?`: places of a document and of the one it is read as
- `Value.integers_exact`: what integers are read as
-/

namespace TypedSettings

/-! ## §1 Exact numbers -/

/-- `Means n number`: a whole numeral means the integer it spells, any other one the number that it
denotes. -/
inductive Numeral.Means : Numeral → Number → Prop where
  | integer {negative : Bool} {ds : List Char} (hds : Digits.Whole ds) :
      Means ⟨negative, ds, [], none⟩ (.integer (signedInteger negative (Digits.toNat ds 0)))
  | other {n : Numeral} {number : Number} (h : n.fraction ≠ [] ∨ n.exponent ≠ none)
      (hnumber : n.Denotes number) : Means n number

namespace Numeral

/-- **What an integer is read as**, however its numeral is rounded. -/
theorem Means.toInteger?_eq {n : Numeral} {k : Int} {found : Number} (h : n.Means (.integer k))
    (hfound : n.Denotes found) (hclamped : ¬ Number.IsClamped k) :
    found.toInteger? = Number.exactInteger? k := by
  cases h with
  | integer hds => exact toInteger?_of_denotes hds.isDigit hclamped hfound
  | other h hnumber =>
    obtain ⟨x, hx⟩ := isFloat_of_denotes h hnumber
    cases hx

theorem Means.natAbs_lt {n : Numeral} {k : Int} {found : Number} (h : n.Means (.integer k))
    (hfound : n.Denotes found) : k.natAbs < leastOutOfRange := by
  cases h with
  | integer hds =>
    rw [natAbs_signedInteger]
    exact (exists_denotes_iff hds.isDigit _).mp ⟨found, hfound⟩
  | other h hnumber =>
    obtain ⟨x, hx⟩ := isFloat_of_denotes h hnumber
    cases hx

/-- Only a large integer is out of range. -/
theorem Means.exists_denotes {n : Numeral} {number : Number} (h : n.Means number)
    (hrange : ∀ k, number = .integer k → k.natAbs < leastOutOfRange) :
    ∃ found, n.Denotes found := by
  cases h with
  | @integer negative ds hds =>
    have hlt := hrange _ rfl
    rw [natAbs_signedInteger] at hlt
    exact (exists_denotes_iff hds.isDigit negative).mpr hlt
  | other _ hnumber => exact ⟨number, hnumber⟩

end Numeral

/-! ## §2 Places -/

namespace Value

/-- What leads from a document to a part of it. -/
inductive Selector where
  | member (key : String)
  | item (index : Nat)

def child? : Selector → Value → Option Value
  | .member key, value => value.member? key
  | .item index, value => value.items?.bind (·[index]?)

/-- The part of a document at a place. -/
def at? : List Selector → Value → Option Value
  | [], value => some value
  | selector :: place, value => (value.child? selector).bind (at? place)

theorem at?_member (path : KeyPath) (value : Value) :
    value.at? (path.map .member) = value.lookup path := by
  induction path generalizing value with
  | nil => rfl
  | cons key path ih =>
    rw [List.map_cons, at?, lookup]
    show (value.member? key).bind _ = _
    cases value.member? key with
    | none => rfl
    | some inner => exact ih inner

variable {meaning : Numeral → Number → Prop} {exact found part : Value}

theorem rounds_find? {exact found : List (String × Value)} {key : String} {part : Value}
    (h : List.Forall₂ (RoundsMember meaning) exact found)
    (hpart : OrderedMap.find? key exact = some part) :
    ∃ part', OrderedMap.find? key found = some part' ∧ Rounds meaning part part' := by
  induction h with
  | nil => cases hpart
  | cons hfirst _ ih =>
    cases hfirst with
    | @mk other _ _ hfirst =>
      rw [OrderedMap.find?] at hpart ⊢
      split at hpart
      next hkey =>
        cases hpart
        exact ⟨_, if_pos hkey, hfirst⟩
      next hkey =>
        rw [if_neg hkey]
        exact ih hpart

theorem rounds_getElem? {exact found : List Value} {index : Nat} {part : Value}
    (h : List.Forall₂ (Rounds meaning) exact found) (hpart : exact[index]? = some part) :
    ∃ part', found[index]? = some part' ∧ Rounds meaning part part' := by
  induction h generalizing index with
  | nil => cases hpart
  | cons hfirst _ ih =>
    cases index with
    | zero =>
      cases hpart
      exact ⟨_, rfl, hfirst⟩
    | succ index => exact ih hpart

theorem rounds_child? {selector : Selector} (h : Rounds meaning exact found)
    (hpart : exact.child? selector = some part) :
    ∃ part', found.child? selector = some part' ∧ Rounds meaning part part' := by
  cases selector with
  | member key =>
    cases h with
    | object h => exact rounds_find? h hpart
    | null => cases hpart
    | boolean => cases hpart
    | number => cases hpart
    | string => cases hpart
    | array => cases hpart
  | item index =>
    cases h with
    | array h => exact rounds_getElem? h hpart
    | null => cases hpart
    | boolean => cases hpart
    | number => cases hpart
    | string => cases hpart
    | object => cases hpart

/-- The same place leads to the same part, but for its numbers. -/
theorem rounds_at? {place : List Selector} (h : Rounds meaning exact found)
    (hpart : exact.at? place = some part) :
    ∃ part', found.at? place = some part' ∧ Rounds meaning part part' := by
  induction place generalizing exact found with
  | nil =>
    cases hpart
    exact ⟨found, rfl, h⟩
  | cons selector place ih =>
    rw [at?] at hpart ⊢
    obtain ⟨inner, hinner, hpart⟩ := Option.bind_eq_some_iff.mp hpart
    obtain ⟨inner', hinner', h⟩ := rounds_child? h hinner
    rw [hinner']
    exact ih h hpart

end Value

/-! ## §3 Readings -/

namespace Readable

/-- An integer of the signed 64-bit range, and a mismatch in place of any other. -/
def exactInteger (path : String) (k : Int) : Except ReadError Int :=
  if -2 ^ 63 ≤ k ∧ k < 2 ^ 63 then .ok k else .error (.mismatch path .integer .number)

/-- Integers of the signed 64-bit range, and a mismatch at the first other one. -/
def exactIntegers (path : String) (ks : List Int) : Except ReadError (List Int) :=
  match ks.findIdx? fun k => !decide (-2 ^ 63 ≤ k ∧ k < 2 ^ 63) with
  | none => .ok ks
  | some i => .error (.mismatch (itemPath path i) .integer .number)

theorem ofValue_of_toInteger? {path : String} {k : Int} {found : Number}
    (h : found.toInteger? = Number.exactInteger? k) :
    ofValue path (.number found) = exactInteger path k := by
  show found.toInteger?.elim (Except.error (mismatch path .integer (.number found))) Except.ok = _
  rw [h, Number.exactInteger?, exactInteger]
  by_cases hfits : -2 ^ 63 ≤ k ∧ k < 2 ^ 63
  · have hk : Number.fits k = true := by
      rw [Number.fits, Number.leastInteger, Number.integerBound]
      simpa using hfits
    rw [if_pos hfits, hk]
    rfl
  · have hk : Number.fits k = false := by
      rw [Number.fits, Number.leastInteger, Number.integerBound]
      simpa using hfits
    rw [if_neg hfits, hk]
    rfl

/-- Items that are read as integers one by one are read as a list of them. -/
theorem readItems_eq_exactIntegers {path : String} {ks : List Int} {items : List Value}
    (h : List.Forall₂ (fun k item => ∀ path, ofValue path item = exactInteger path k) ks items)
    (index : Nat) : readItems (ofValue (α := Int)) path index items =
      match ks.findIdx? fun k => !decide (-2 ^ 63 ≤ k ∧ k < 2 ^ 63) with
      | none => .ok ks
      | some i => .error (.mismatch (itemPath path (index + i)) .integer .number) := by
  induction h generalizing index with
  | nil => rfl
  | @cons k item ks items hfirst _ ih =>
    rw [readItems, hfirst, ih (index + 1), List.findIdx?_cons, exactInteger]
    by_cases hfits : -2 ^ 63 ≤ k ∧ k < 2 ^ 63
    · simp only [hfits, and_self, if_true, decide_true, Bool.not_true, Bool.false_eq_true, if_false]
      cases ks.findIdx? fun k => !decide (-2 ^ 63 ≤ k ∧ k < 2 ^ 63) with
      | none => rfl
      | some i =>
        have hshift : index + 1 + i = index + (i + 1) := by omega
        simp only [Option.map_some, hshift]
    · simp only [hfits, if_false, decide_false, Bool.not_false, if_true, Nat.add_zero]

end Readable

namespace Value

open Numeral (Means leastOutOfRange)
open Number (IsClamped)
open Readable (exactInteger exactIntegers)

variable {text : String} {document value : Value}

theorem document_of_spells {meaning : Numeral → Number → Prop} {word : List Char} {value : Value}
    (h : Spells meaning 127 word value) : Document meaning word value := by
  have henclosed : Enclosed meaning 127 ([] ++ (word ++ [])) value := .mk .nil h (.gap .nil)
  rw [List.nil_append, List.append_nil] at henclosed
  exact .plain henclosed

/-- A text that is a whole numeral is a document of its number. -/
theorem document_of_whole {meaning : Numeral → Number → Prop} {number : Number} (negative : Bool)
    {ds : List Char} (h : Digits.Whole ds) (hnumber : meaning ⟨negative, ds, [], none⟩ number) :
    Document meaning (Numeral.signed negative ds) (.number number) :=
  document_of_spells (.of_scalar (.number (Numeral.spells_whole h) hnumber))

/-- `ReadsExactly type exact found`: at every path the document is read as a value of the type, and
converted to the type, as `exact` says. -/
def ReadsExactly (type : ScalarType) (exact : String → Except ReadError type.Carrier)
    (found : Value) : Prop :=
  ∀ path, Readable.ofValue path found = exact path ∧
    type.convert path found = (exact path).map type.embed

theorem readsExactly_of_ofValue {type : ScalarType} {exact : String → Except ReadError type.Carrier}
    {found : Value} (h : ∀ path, Readable.ofValue path found = exact path) :
    ReadsExactly type exact found := by
  intro path
  refine ⟨h path, ?_⟩
  rw [ScalarType.convert_eq_map_embed, h]

theorem readsExactly_integer {k : Int} {found : Value}
    (h : Rounds Means (.number (.integer k)) found)
    (hclamped : ¬ IsClamped k) : ReadsExactly .integer (exactInteger · k) found := by
  cases h with
  | number hmeaning hfound =>
    apply readsExactly_of_ofValue
    intro path
    exact Readable.ofValue_of_toInteger? (hmeaning.toInteger?_eq hfound hclamped)

theorem readsExactly_integers {ks : List Int} {found : Value}
    (h : Rounds Means (.array (ks.map fun k => .number (.integer k))) found)
    (hclamped : ∀ k ∈ ks, ¬ IsClamped k) :
    ReadsExactly (.sequence .integer) (exactIntegers · ks) found := by
  cases h with
  | @array _ items h =>
    have hitems : List.Forall₂ (fun k item => ∀ path, Readable.ofValue path item =
        exactInteger path k) ks items := by
      rw [List.forall₂_map_left_iff] at h
      induction h with
      | nil => exact .nil
      | cons hfirst _ ih =>
        obtain ⟨hk, hks⟩ := List.forall_mem_cons.mp hclamped
        exact .cons (fun path => (readsExactly_integer hfirst hk path).1) (ih hks)
    apply readsExactly_of_ofValue
    intro path
    show Readable.readItems (Readable.ofValue (α := Int)) path 0 items = exactIntegers path ks
    rw [Readable.readItems_eq_exactIntegers hitems, exactIntegers]
    simp only [Nat.zero_add]

/-- A document with an integer that is out of range is refused. -/
theorem refused_of_at? (h : Document Means text.toList document) {place : List Selector} {k : Int}
    (hat : document.at? place = some (.number (.integer k)))
    (hlarge : leastOutOfRange ≤ k.natAbs) :
    ∃ position, parse text = .error ⟨.numberOutOfRange, position⟩ := by
  rcases parse_of_document h with ⟨found, -, hrounds⟩ | ⟨hrefused, -⟩
  · obtain ⟨part, -, hpart⟩ := rounds_at? hrounds hat
    cases hpart with
    | number hmeaning hfound => exact absurd (hmeaning.natAbs_lt hfound) (Nat.not_lt.mpr hlarge)
  · exact hrefused

/-- A document of smaller integers is accepted. -/
theorem accepted_of_document (h : Document (fun n number => n.Means number ∧
      ∀ k, number = .integer k → k.natAbs < leastOutOfRange) text.toList document) :
    ∃ value, parse text = .ok value := by
  rcases parse_of_document h with ⟨value, hvalue, -⟩ | ⟨-, n, number, ⟨hmeaning, hrange⟩, hnone⟩
  · exact ⟨value, hvalue⟩
  · obtain ⟨found, hfound⟩ := hmeaning.exists_denotes hrange
    exact absurd hfound (hnone found)

theorem read_of_readsExactly {type : ScalarType} {exact : String → Except ReadError type.Carrier}
    {path : KeyPath} {found : Value} (hlookup : value.lookup path = some found)
    (h : ReadsExactly type exact found) : value.read type.Carrier path = exact path.dotted := by
  rw [read, field, hlookup]
  exact (h path.dotted).1

/-- **Integers are read exactly or not at all.** A document whose whole numerals mean the integers
they spell is accepted or refused for a number out of range: accepted while these integers stay
below the least one that is out of range, refused if one of them does not. Once it is accepted, an
integer at any place is read and converted as itself or as a mismatch, and so is a list of integers;
only those that are rounded onto the least one of the range are left out. -/
theorem integers_exact (h : Document Means text.toList document) :
    ((∃ value, parse text = .ok value) ∨
      ∃ position, parse text = .error ⟨.numberOutOfRange, position⟩) ∧
    (Document (fun n number => n.Means number ∧
        ∀ k, number = .integer k → k.natAbs < leastOutOfRange) text.toList document →
      ∃ value, parse text = .ok value) ∧
    (∀ place k, document.at? place = some (.number (.integer k)) → leastOutOfRange ≤ k.natAbs →
      ∃ position, parse text = .error ⟨.numberOutOfRange, position⟩) ∧
    ∀ value, parse text = .ok value →
      (∀ place k, document.at? place = some (.number (.integer k)) → ¬ IsClamped k →
        ∃ found, value.at? place = some found ∧ ReadsExactly .integer (exactInteger · k) found) ∧
      (∀ place ks, document.at? place = some (.array (ks.map fun k => .number (.integer k))) →
        (∀ k ∈ ks, ¬ IsClamped k) → ∃ found, value.at? place = some found ∧
          ReadsExactly (.sequence .integer) (exactIntegers · ks) found) ∧
      ∀ path k, document.lookup path = some (.number (.integer k)) → ¬ IsClamped k →
        value.read Int path = exactInteger path.dotted k := by
  refine ⟨?outcome, accepted_of_document, fun place k => refused_of_at? h, fun value hvalue => ?_⟩
  case outcome =>
    rcases parse_of_document h with ⟨value, hvalue, -⟩ | ⟨hrefused, -⟩
    · exact Or.inl ⟨value, hvalue⟩
    · exact Or.inr hrefused
  have hrounds : Rounds Means document value := by
    rcases parse_of_document h with ⟨found, hfound, hrounds⟩ | ⟨⟨position, hrefused⟩, -⟩
    · cases hfound.symm.trans hvalue
      exact hrounds
    · cases hrefused.symm.trans hvalue
  have hinteger : ∀ place k, document.at? place = some (.number (.integer k)) → ¬ IsClamped k →
      ∃ found, value.at? place = some found ∧ ReadsExactly .integer (exactInteger · k) found := by
    intro place k hat hclamped
    obtain ⟨found, hfound, hpart⟩ := rounds_at? hrounds hat
    exact ⟨found, hfound, readsExactly_integer hpart hclamped⟩
  refine ⟨hinteger, fun place ks hat hclamped => ?_, fun path k hlookup hclamped => ?_⟩
  · obtain ⟨found, hfound, hpart⟩ := rounds_at? hrounds hat
    exact ⟨found, hfound, readsExactly_integers hpart hclamped⟩
  · rw [← at?_member] at hlookup
    obtain ⟨found, hfound, hreads⟩ := hinteger _ k hlookup hclamped
    rw [at?_member] at hfound
    exact read_of_readsExactly hfound hreads

/-- An item past 64 bits in a list that is read. -/
theorem integers_exact_item :
    let text := "[7,18446744073709551616]"
    let document : Value := .array ([7, 18446744073709551616].map fun k => .number (.integer k))
    Document Means text.toList document ∧ ∃ value, parse text = .ok value ∧
      value.read (List Int) [] = .error (.mismatch "[1]" .integer .number) := by
  intro text document
  have hseven : Digits.Whole ['7'] := ⟨nofun, List.all_eq_true.mp rfl, by simp⟩
  have hlarge : Digits.Whole "18446744073709551616".toList :=
    ⟨nofun, List.all_eq_true.mp rfl, by simp⟩
  have hdocument {meaning : Numeral → Number → Prop}
      (hfirst : meaning ⟨false, ['7'], [], none⟩ (.integer 7))
      (hsecond : meaning ⟨false, "18446744073709551616".toList, [], none⟩
        (.integer 18446744073709551616)) : Document meaning text.toList document := by
    have hitem {word : List Char} {item : Value} (h : Scalar meaning word item) :
        Padded (Spells meaning 126) word item := by
      have hword : Spells meaning 126 word item := .of_scalar h
      have hpadded := Padded.mk Filler.Gap.nil hword .nil
      rwa [List.nil_append, List.append_nil] at hpadded
    have hitems := Separated.cons (hitem (.number (Numeral.spells_whole hseven) hfirst))
      (.single (hitem (.number (Numeral.spells_whole hlarge) hsecond)))
    have htext : text.toList = '[' :: (Numeral.signed false ['7'] ++
        ',' :: Numeral.signed false "18446744073709551616".toList ++ [']']) := by decide
    rw [htext]
    exact document_of_spells (Or.inr (.array (.some hitems)))
  have hmeans : Document Means text.toList document := hdocument (.integer hseven) (.integer hlarge)
  obtain ⟨-, haccepted, -, hread⟩ := integers_exact hmeans
  obtain ⟨value, hvalue⟩ := haccepted <| hdocument
    ⟨.integer hseven, fun k hk => by cases hk; decide +kernel⟩
    ⟨.integer hlarge, fun k hk => by cases hk; decide +kernel⟩
  have hclamped : ∀ k ∈ [7, 18446744073709551616], ¬ IsClamped k := by
    simp [IsClamped, Number.leastInteger]
  obtain ⟨found, hfound, hreads⟩ := (hread value hvalue).2.1 [] _ rfl hclamped
  cases hfound
  exact ⟨hmeans, value, hvalue, (hreads "").1⟩

/-- An integer that is read as another one, and one with which a text is refused. -/
theorem integer_rounded_or_refused :
    (Document Means "-9223372036854775809".toList (.number (.integer (-9223372036854775809))) ∧
      ∃ value, parse "-9223372036854775809" = .ok value ∧
        value.read Int [] = .ok (-9223372036854775808)) ∧
    let digits := '1' :: List.replicate 400 '0'
    Document Means digits (.number (.integer (10 ^ 400))) ∧
      ∃ position, parse (String.ofList digits) = .error ⟨.numberOutOfRange, position⟩ := by
  refine ⟨⟨?below, ?rounded⟩, ?large⟩
  case below =>
    have hwhole : Digits.Whole "9223372036854775809".toList :=
      ⟨nofun, List.all_eq_true.mp rfl, by simp⟩
    exact document_of_whole true hwhole (.integer hwhole)
  case rounded =>
    have hwhole : Digits.Whole "9223372036854775809".toList :=
      ⟨nofun, List.all_eq_true.mp rfl, by simp⟩
    have hdenotes : (Numeral.mk true "9223372036854775809".toList [] none).Denotes
      (.float ⟨true, 0x10000000000000, 11⟩) := rfl
    exact ⟨_, parse_eq_ok_iff_document.mpr (document_of_whole true hwhole hdenotes), rfl⟩
  case large =>
    intro digits
    have hwhole : Digits.Whole digits :=
      ⟨nofun, List.all_eq_true.mp (by decide +kernel),
        fun _ heq => absurd (List.cons.inj heq).1 (by decide)⟩
    have hvalue : Digits.toNat digits 0 = 10 ^ 400 := by decide +kernel
    have hlarge : leastOutOfRange ≤ 10 ^ 400 := by decide +kernel
    let k := Numeral.signedInteger false (Digits.toNat digits 0)
    have hk : k = 10 ^ 400 := by
      show ((Digits.toNat digits 0 : Nat) : Int) = _
      rw [hvalue]
      exact Nat.cast_pow 10 400
    have hdocument : Document Means digits (.number (.integer k)) :=
      document_of_whole false hwhole (.integer hwhole)
    have htext : Document Means (String.ofList digits).toList (.number (.integer k)) := by
      rwa [String.toList_ofList]
    refine ⟨hk ▸ hdocument, refused_of_at? htext (show at? [] _ = _ from rfl) ?_⟩
    rw [Numeral.natAbs_signedInteger, hvalue]
    exact hlarge

end Value

end TypedSettings

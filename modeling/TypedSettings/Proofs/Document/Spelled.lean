import Mathlib
import TypedSettings.Document.Spelled
import TypedSettings.Proofs.Document.RoundTrip

/-!
# Spellings of documents

The spelling of a document denotes the document again. And the pretty form of a document, which
programs print for one another, is read as the spelling of the document, if its numbers are
integers of the two 64-bit forms.

Main facts:
- `Spelled.value?_ofValue`: a spelling denotes its document
- `Spelled.scan?_prettyChars`: a pretty form is read up to its end
- `Spelled.parse?_pretty_newline`: a printed line is read as the spelling of the document
-/

namespace TypedSettings.Spelled

open Value (Regular Integral newline prettyChars prettyItems prettyMembers)

/-! ## §1 Spellings denote their documents -/

mutual

/-- **A spelling denotes its document**, as far as one may go down. -/
theorem value?_ofValue {depth : Nat} : ∀ {value : Value}, Regular depth value →
    (ofValue value).value? depth = some value
  | .null, _ | .boolean _, _ | .number _, _ | .string _, _ => by simp [ofValue, value?]
  | .array items, h => by
    obtain ⟨inner, rfl, hitems⟩ := h.of_array
    rw [ofValue, value?, valuesOf?_ofItems hitems, Option.map_some]
  | .object members, h => by
    obtain ⟨inner, rfl, hmembers⟩ := h.of_object
    rw [ofValue, value?, pairsOf?_ofMembers hmembers, Option.map_some,
      OrderedMap.ofPairs_eq_self h.uniqueKeys.keys_nodup]

theorem valuesOf?_ofItems {depth : Nat} : ∀ {items : List Value},
    (∀ item ∈ items, Regular depth item) → valuesOf? depth (ofItems items) = some items
  | [], _ => rfl
  | item :: others, h => by
    obtain ⟨hitem, hothers⟩ := List.forall_mem_cons.mp h
    rw [ofItems, valuesOf?, value?_ofValue hitem, valuesOf?_ofItems hothers]

theorem pairsOf?_ofMembers {depth : Nat} : ∀ {members : List (String × Value)},
    (∀ member ∈ members, Regular depth member.2) →
      pairsOf? depth (ofMembers members) = some members
  | [], _ => rfl
  | (key, value) :: others, h => by
    obtain ⟨hvalue, hothers⟩ := List.forall_mem_cons.mp h
    simp only [ofMembers, pairsOf?, value?_ofValue hvalue, pairsOf?_ofMembers hothers]

end

/-! ## §2 Pieces of a printed document -/

section

variable {c : Char} {rest : List Char}

theorem skipBlanks_cons (h : Filler.isBlank c = false) : skipBlanks (c :: rest) = c :: rest := by
  simp [skipBlanks, h]

theorem skipBlanks_newline (level : Nat) (rest : List Char) :
    skipBlanks (newline level ++ rest) = skipBlanks rest := by
  refine List.dropWhile_append_of_pos fun c hc => ?_
  rcases List.mem_cons.mp hc with rfl | hblank
  · rfl
  · rw [List.eq_of_mem_replicate hblank]
    rfl

theorem scan?_leaf (fuel : Nat) (hblank : Filler.isBlank c = false) (hlist : c ≠ '[')
    (hobject : c ≠ '\x7b') : scan? (fuel + 1) (c :: rest) = scanLeaf? c rest := by
  simp [scan?, skipBlanks_cons hblank, hlist, hobject]

end

theorem scanText?_encodeBody (text : String) (rest : List Char) :
    scanText? (Quoted.encodeBody text.toList ++ '"' :: rest) = some (some text, rest) := by
  simp [scanText?, Quoted.scanBody_encodeBody]

theorem encode_append (text : String) (rest : List Char) :
    Quoted.encode text ++ rest = '"' :: (Quoted.encodeBody text.toList ++ '"' :: rest) := by
  simp [Quoted.encode]

theorem scan?_encode (fuel : Nat) (text : String) (rest : List Char) :
    scan? (fuel + 1) (Quoted.encode text ++ rest) = some (ofValue (.string text), rest) := by
  rw [encode_append, scan?_leaf fuel rfl (by decide) (by decide), scanLeaf?, if_neg (by decide),
    if_neg (by decide), if_neg (by decide), if_pos rfl, scanText?_encodeBody]
  rfl

theorem scan?_toText (fuel : Nat) {number : Number} (h : number.IsInteger) {rest : List Char}
    (hends : Numeral.Ends rest) :
    scan? (fuel + 1) (number.toText ++ rest) = some (ofValue (.number number), rest) := by
  obtain ⟨numeral, hspelled, hnumber⟩ := h.exists_spells_toText
  obtain ⟨atExponent, hscan⟩ := hspelled.exists_scanSpelling hends
  obtain ⟨c, others, htext, hc⟩ := hspelled.exists_head
  -- A sign or a digit begins no other piece.
  have hne := Numeral.ne_of_begins hc
  rw [htext, List.cons_append] at hscan ⊢
  rw [scan?_leaf fuel (Numeral.isBlank_of_begins hc) (hne _ (by decide)) (hne _ (by decide)),
    scanLeaf?, if_neg (hne _ (by decide)), if_neg (hne _ (by decide)), if_neg (hne _ (by decide)),
    if_neg (hne _ (by decide)), if_pos hc, hscan]
  simp only [hnumber, ofValue, Except.toOption, Option.map_some]

/-- A printed document begins with neither a blank nor a closing bracket. -/
theorem exists_head_prettyChars (level : Nat) {value : Value} (h : value.Integral) :
    ∃ c rest, prettyChars level value = c :: rest ∧ Filler.isBlank c = false ∧ c ≠ ']' := by
  cases h with
  | null => exact ⟨'n', _, rfl, rfl, by decide⟩
  | boolean b => cases b <;> exact ⟨_, _, rfl, rfl, by decide⟩
  | @number n h =>
    obtain ⟨numeral, hspelled, -⟩ := h.exists_spells_toText
    obtain ⟨c, others, htext, hc⟩ := hspelled.exists_head
    exact ⟨c, others, htext, Numeral.isBlank_of_begins hc, Numeral.ne_of_begins hc _ (by decide)⟩
  | string text => exact ⟨'"', _, rfl, rfl, by decide⟩
  | @array items h => cases items <;> exact ⟨'[', _, rfl, rfl, by decide⟩
  | @object members h => cases members <;> exact ⟨'\x7b', _, rfl, rfl, by decide⟩

/-! ## §3 Printed documents -/

section

variable {first second : List Char}

/-- Blanks before a document make no difference. -/
theorem scan?_congr (fuel : Nat) (h : skipBlanks first = skipBlanks second) :
    scan? fuel first = scan? fuel second := by
  cases fuel with
  | zero => simp only [scan?]
  | succ fuel => simp only [scan?, h]

theorem scanItems?_congr (fuel : Nat) (h : skipBlanks first = skipBlanks second) :
    scanItems? fuel first = scanItems? fuel second := by
  cases fuel with
  | zero => simp only [scanItems?]
  | succ fuel => simp only [scanItems?, scan?_congr fuel h]

theorem scanMembers?_congr (fuel : Nat) (h : skipBlanks first = skipBlanks second) :
    scanMembers? fuel first = scanMembers? fuel second := by
  cases fuel with
  | zero => simp only [scanMembers?]
  | succ fuel => simp only [scanMembers?, h]

theorem skipBlanks_skipBlanks (text : List Char) : skipBlanks (skipBlanks text) = skipBlanks text :=
  List.dropWhile_idempotent Filler.isBlank text

/-- An array that does not close at once is read by its items. -/
theorem scan?_list (fuel : Nat) (h : (skipBlanks first).head? ≠ some ']') :
    scan? (fuel + 1) ('[' :: first) =
      (scanItems? fuel first).map fun (items, rest) => (.array items, rest) := by
  rw [scan?, skipBlanks_cons rfl]
  simp only [if_true]
  split
  next hclose => exact absurd (congrArg List.head? hclose) h
  next => rw [scanItems?_congr fuel (skipBlanks_skipBlanks first)]

/-- An object that does not close at once is read by its members. -/
theorem scan?_record (fuel : Nat) (h : (skipBlanks first).head? ≠ some '\x7d') :
    scan? (fuel + 1) ('\x7b' :: first) =
      (scanMembers? fuel first).map fun (members, rest) => (.object members, rest) := by
  rw [scan?, skipBlanks_cons rfl]
  simp only [if_true]
  rw [if_neg (by decide)]
  split
  next hclose => exact absurd (congrArg List.head? hclose) h
  next => rw [scanMembers?_congr fuel (skipBlanks_skipBlanks first)]

end

theorem ends_prettyItems (level : Nat) (items : List Value) (rest : List Char) :
    Numeral.Ends (prettyItems level items ++ rest) := by
  cases items with
  | nil => exact ⟨rfl, by decide, rfl⟩
  | cons item others => exact ⟨rfl, by decide, rfl⟩

theorem ends_prettyMembers (level : Nat) (members : List (String × Value)) (rest : List Char) :
    Numeral.Ends (prettyMembers level members ++ rest) := by
  cases members with
  | nil => exact ⟨rfl, by decide, rfl⟩
  | cons member others => exact ⟨rfl, by decide, rfl⟩

/-- `Reads level value`: the pretty form of the value at an indentation level is read up to its end
as the spelling of the value, with fuel for twice its length. -/
def Reads (level : Nat) (value : Value) : Prop :=
  ∀ (fuel : Nat) (rest : List Char), Numeral.Ends rest →
    2 * (prettyChars level value).length ≤ fuel →
    scan? fuel (prettyChars level value ++ rest) = some (ofValue value, rest)

/-- Fuel for a text is left for what follows its first character. -/
theorem exists_fuel {c : Char} {text : List Char} {fuel : Nat}
    (h : 2 * (c :: text).length ≤ fuel) : ∃ n, fuel = n + 1 ∧ 2 * text.length < n := by
  rw [List.length_cons] at h
  exact ⟨fuel - 1, by omega, by omega⟩

section

variable {level fuel : Nat} {key : String} {value : Value} {rest left : List Char}

/-- The last member is read up to the brace that closes the object. -/
theorem scanMembers?_last (hvalue : Reads level value) (hends : Numeral.Ends rest)
    (hfuel : 2 * (prettyChars level value).length ≤ fuel)
    (hclose : skipBlanks rest = '\x7d' :: left) :
    scanMembers? (fuel + 1)
        (Quoted.encode key ++ ':' :: ' ' :: (prettyChars level value ++ rest)) =
      some ([(some key, ofValue value)], left) := by
  have hblank : skipBlanks (' ' :: (prettyChars level value ++ rest)) =
      skipBlanks (prettyChars level value ++ rest) := rfl
  rw [scanMembers?, encode_append, skipBlanks_cons rfl]
  simp only [scanText?_encodeBody, skipBlanks_cons (show Filler.isBlank ':' = false from rfl),
    scan?_congr fuel hblank, hvalue fuel rest hends hfuel, hclose]

/-- After another member the others follow behind a comma. -/
theorem scanMembers?_more (hvalue : Reads level value) (hends : Numeral.Ends rest)
    (hfuel : 2 * (prettyChars level value).length ≤ fuel)
    (hcomma : skipBlanks rest = ',' :: left) :
    scanMembers? (fuel + 1)
        (Quoted.encode key ++ ':' :: ' ' :: (prettyChars level value ++ rest)) =
      (scanMembers? fuel left).map fun (members, rest) =>
        ((some key, ofValue value) :: members, rest) := by
  have hblank : skipBlanks (' ' :: (prettyChars level value ++ rest)) =
      skipBlanks (prettyChars level value ++ rest) := rfl
  rw [scanMembers?, encode_append, skipBlanks_cons rfl]
  simp only [scanText?_encodeBody, skipBlanks_cons (show Filler.isBlank ':' = false from rfl),
    scan?_congr fuel hblank, hvalue fuel rest hends hfuel, hcomma]

end

-- The induction is on the document. Every character pays for two calls of the reader: an item takes
-- one call for itself and one for the list that it stands in.
mutual

/-- **Pretty forms are read** up to their ends. -/
theorem reads_prettyChars (level : Nat) : ∀ {value : Value}, value.Integral → Reads level value
  | .null, _, fuel, rest, _, hfuel
  | .boolean true, _, fuel, rest, _, hfuel
  | .boolean false, _, fuel, rest, _, hfuel
  | .array [], _, fuel, rest, _, hfuel
  | .object [], _, fuel, rest, _, hfuel => by
    obtain ⟨fuel, rfl, -⟩ := exists_fuel hfuel
    rfl
  | .number n, .number h, fuel, rest, hends, hfuel => by
    obtain ⟨c, others, htext, -⟩ := exists_head_prettyChars level (.number h)
    rw [htext] at hfuel
    obtain ⟨fuel, rfl, -⟩ := exists_fuel hfuel
    rw [prettyChars, scan?_toText fuel h hends]
  | .string text, _, fuel, rest, _, hfuel => by
    obtain ⟨fuel, rfl, -⟩ := exists_fuel hfuel
    rw [prettyChars, scan?_encode]
  | .array (item :: others), .array h, fuel, rest, _, hfuel => by
    obtain ⟨hitem, hothers⟩ := List.forall_mem_cons.mp h
    simp only [prettyChars, List.cons_append, List.append_assoc] at hfuel ⊢
    obtain ⟨fuel, rfl, hleft⟩ := exists_fuel hfuel
    obtain ⟨c, tail, htext, hblank, hc⟩ := exists_head_prettyChars (level + 1) hitem
    -- The first item is no bracket, so the array does not close at once.
    have hopen : (skipBlanks (newline (level + 1) ++ (prettyChars (level + 1) item ++
        (prettyItems level others ++ rest)))).head? ≠ some ']' := by
      rw [skipBlanks_newline, htext, List.cons_append, skipBlanks_cons hblank]
      simpa using hc
    have hitems := scanItems?_pretty level hothers (reads_prettyChars (level + 1) hitem) fuel rest
      (by simp only [List.length_append] at hleft ⊢; omega)
    rw [scan?_list fuel hopen, scanItems?_congr fuel (skipBlanks_newline _ _), hitems]
    rfl
  | .object ((key, value) :: others), .object h, fuel, rest, _, hfuel => by
    obtain ⟨hvalue, hothers⟩ := List.forall_mem_cons.mp h
    simp only [prettyChars, List.cons_append, List.append_assoc, List.nil_append] at hfuel ⊢
    obtain ⟨fuel, rfl, hleft⟩ := exists_fuel hfuel
    have hopen : (skipBlanks (newline (level + 1) ++ (Quoted.encode key ++ ':' :: ' ' ::
        (prettyChars (level + 1) value ++ (prettyMembers level others ++ rest))))).head? ≠
          some '\x7d' := by
      rw [skipBlanks_newline, encode_append, skipBlanks_cons rfl]
      simp
    have hmembers := scanMembers?_pretty level hothers key (reads_prettyChars (level + 1) hvalue)
      fuel rest (by simp only [List.length_append, List.length_cons] at hleft ⊢; omega)
    rw [scan?_record fuel hopen, scanMembers?_congr fuel (skipBlanks_newline _ _), hmembers]
    rfl

/-- The items of a printed array are read if the first one is read and the others are integral. -/
theorem scanItems?_pretty (level : Nat) : ∀ {others : List Value},
    (∀ item ∈ others, item.Integral) → ∀ {first : Value}, Reads (level + 1) first →
    ∀ (fuel : Nat) (rest : List Char),
    2 * (prettyChars (level + 1) first ++ prettyItems level others).length ≤ fuel →
    scanItems? fuel (prettyChars (level + 1) first ++ (prettyItems level others ++ rest)) =
      some (ofItems (first :: others), rest)
  -- An item takes one unit of fuel, and two are there for each of its characters.
  | [], _, first, hfirst, fuel, rest, hfuel => by
    simp only [prettyItems, List.length_append, List.length_singleton] at hfuel
    obtain ⟨fuel, rfl⟩ : ∃ n, fuel = n + 1 := ⟨fuel - 1, by omega⟩
    have hend : skipBlanks (prettyItems level [] ++ rest) = ']' :: rest := by
      rw [prettyItems, List.append_assoc, skipBlanks_newline]
      exact skipBlanks_cons rfl
    rw [scanItems?, hfirst fuel _ (ends_prettyItems level [] rest) (by omega)]
    simp only [hend]
    rfl
  | second :: others, h, first, hfirst, fuel, rest, hfuel => by
    obtain ⟨hsecond, hothers⟩ := List.forall_mem_cons.mp h
    simp only [prettyItems, List.cons_append, List.append_assoc, List.length_append,
      List.length_cons] at hfuel
    obtain ⟨fuel, rfl⟩ : ∃ n, fuel = n + 1 := ⟨fuel - 1, by omega⟩
    have hmore := scanItems?_pretty level hothers (reads_prettyChars (level + 1) hsecond) fuel rest
      (by simp only [List.length_append]; omega)
    have hcomma : skipBlanks (prettyItems level (second :: others) ++ rest) =
        ',' :: (newline (level + 1) ++ (prettyChars (level + 1) second ++
          (prettyItems level others ++ rest))) := by
      simp only [prettyItems, List.cons_append, List.append_assoc]
      exact skipBlanks_cons rfl
    rw [scanItems?, hfirst fuel _ (ends_prettyItems level (second :: others) rest) (by omega)]
    simp only [hcomma, scanItems?_congr fuel (skipBlanks_newline _ _), hmore]
    rfl

theorem scanMembers?_pretty (level : Nat) : ∀ {others : List (String × Value)},
    (∀ member ∈ others, member.2.Integral) → ∀ (key : String) {first : Value},
    Reads (level + 1) first → ∀ (fuel : Nat) (rest : List Char),
    2 * (Quoted.encode key ++ ':' :: ' ' :: (prettyChars (level + 1) first ++
      prettyMembers level others)).length ≤ fuel →
    scanMembers? fuel (Quoted.encode key ++ ':' :: ' ' :: (prettyChars (level + 1) first ++
      (prettyMembers level others ++ rest))) = some (ofMembers ((key, first) :: others), rest)
  | [], _, key, first, hfirst, fuel, rest, hfuel => by
    simp only [prettyMembers, List.length_append, List.length_cons] at hfuel
    obtain ⟨fuel, rfl⟩ : ∃ n, fuel = n + 1 := ⟨fuel - 1, by omega⟩
    have hend : skipBlanks (prettyMembers level [] ++ rest) = '\x7d' :: rest := by
      rw [prettyMembers, List.append_assoc, skipBlanks_newline]
      exact skipBlanks_cons rfl
    exact scanMembers?_last hfirst (ends_prettyMembers level [] rest) (by omega) hend
  | (secondKey, second) :: others, h, key, first, hfirst, fuel, rest, hfuel => by
    obtain ⟨hsecond, hothers⟩ := List.forall_mem_cons.mp h
    simp only [prettyMembers, List.cons_append, List.append_assoc, List.nil_append,
      List.length_append, List.length_cons] at hfuel
    obtain ⟨fuel, rfl⟩ : ∃ n, fuel = n + 1 := ⟨fuel - 1, by omega⟩
    have hmore := scanMembers?_pretty level hothers secondKey
      (reads_prettyChars (level + 1) hsecond) fuel rest
      (by simp only [List.length_append, List.length_cons]; omega)
    have hcomma : skipBlanks (prettyMembers level ((secondKey, second) :: others) ++ rest) =
        ',' :: (newline (level + 1) ++ (Quoted.encode secondKey ++ ':' :: ' ' ::
          (prettyChars (level + 1) second ++ (prettyMembers level others ++ rest)))) := by
      simp only [prettyMembers, List.cons_append, List.append_assoc, List.nil_append]
      exact skipBlanks_cons rfl
    rw [scanMembers?_more hfirst (ends_prettyMembers level _ rest) (by omega) hcomma,
      scanMembers?_congr fuel (skipBlanks_newline _ _), hmore]
    rfl

end

/-- **Printed lines are read back**: as the spelling of the document that was printed. -/
theorem parse?_pretty_newline {value : Value} (h : value.Integral) :
    parse? (value.pretty ++ "\n") = some (ofValue value) := by
  have htext : (value.pretty ++ "\n").toList = prettyChars 0 value ++ ['\n'] := by
    simp [Value.pretty]
  have hread := reads_prettyChars 0 h (2 * (prettyChars 0 value ++ ['\n']).length + 2) ['\n']
    ⟨rfl, by decide, rfl⟩ (by simp only [List.length_append]; omega)
  simp only [parse?, htext, hread]
  rfl

end TypedSettings.Spelled

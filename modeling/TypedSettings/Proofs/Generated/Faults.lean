import Mathlib
import TypedSettings.Proofs.Generated.SelfReading
import TypedSettings.Proofs.Reading.Conversion
import TypedSettings.Proofs.Reading.FirstFailure

/-!
# Documents that fail their own types

A type is inferred from little: any number stands for an integer, and the first item of an array for
all of them. The leaves for which that guess is wrong are the faults of a document, and the first of
them, in the order of the text, is the one error that the initializer of the document can have on
the document itself. It never misses a field and never meets something other than an array where it
wants one.

Main facts:
- `Fault`: the three ways in which a leaf contradicts the type inferred from it
- `Value.selfRead_eq_error_iff`: reading a document as its own types fails at its first fault
- `Holder.simulate_self_eq_error_iff`: so does the initializer of a text
-/

namespace TypedSettings

/-! ## §1 Faults of a leaf -/

/-- Can the value be read as a type, wherever it stands? -/
def Value.ReadsAs (α : Type) [Readable α] (value : Value) : Prop :=
  ∀ path, ∃ x : α, Readable.ofValue path value = .ok x

/-- The first item that is not good, with its index. -/
def FirstBad (Good : Value → Prop) (items : List Value) (index : Nat) (item : Value) : Prop :=
  ∃ before after, items = before ++ item :: after ∧ before.length = index ∧
    (∀ earlier ∈ before, Good earlier) ∧ ¬ Good item

/-- `Fault path value e`: the leaf at the dotted path contradicts the type inferred from it. -/
inductive Fault (path : String) : Value → ReadError → Prop where
  /-- A number that is no integer of the range. -/
  | number {n : Number} (bad : ¬ (Value.number n).ReadsAs Int) :
      Fault path (.number n) (.mismatch path .integer .number)
  /-- An array that starts with a number and has an item that cannot be read as an integer. -/
  | integers {first : Number} {others : List Value} {index : Nat} {item : Value}
      (bad : FirstBad (Value.ReadsAs Int) (.number first :: others) index item) :
      Fault path (.array (.number first :: others))
        (.mismatch (Readable.itemPath path index) .integer item.kind)
  /-- An array that starts with a boolean and has an item that is none. -/
  | booleans {first : Bool} {others : List Value} {index : Nat} {item : Value}
      (bad : FirstBad (fun other => other.kind = .boolean) (.boolean first :: others) index item) :
      Fault path (.array (.boolean first :: others))
        (.mismatch (Readable.itemPath path index) .boolean item.kind)

/-! ## §2 Failing conversions -/

namespace ScalarType

/-- A type accepts a class of values and refuses every other value with one demand. -/
def Demands (type : ScalarType) (Good : Value → Prop) (expected : Expected) : Prop :=
  ∀ path value, (Good value ∧ ∃ x, type.convert path value = .ok x) ∨
    (¬ Good value ∧ type.convert path value = .error (.mismatch path expected value.kind))

section Demands

variable {type : ScalarType} {Good : Value → Prop} {expected : Expected} {path : String}
  {value : Value}

theorem Demands.exists_ok_iff (demands : type.Demands Good expected) :
    (∃ x, type.convert path value = .ok x) ↔ Good value := by
  rcases demands path value with ⟨good, hok⟩ | ⟨bad, herror⟩
  · exact ⟨fun _ => good, fun _ => hok⟩
  · exact ⟨fun ⟨x, hx⟩ => absurd (herror.symm.trans hx) nofun, fun good => absurd good bad⟩

theorem Demands.eq_error_iff (demands : type.Demands Good expected) {e : ReadError} :
    type.convert path value = .error e ↔
      ¬ Good value ∧ e = .mismatch path expected value.kind := by
  rcases demands path value with ⟨good, x, hx⟩ | ⟨bad, herror⟩
  · rw [hx]
    exact ⟨nofun, fun h => absurd good h.1⟩
  · rw [herror, Except.error.injEq]
    exact ⟨fun h => ⟨bad, h.symm⟩, fun h => h.2.symm⟩

end Demands

theorem demands_integer : Demands .integer (Value.ReadsAs Int) .integer := by
  intro path value
  -- A value is refused under every path or under none, so one failing read is enough.
  have refused (h : ∀ p, Readable.ofValue (α := Int) p value =
      .error (.mismatch p .integer value.kind)) : ¬ value.ReadsAs Int ∧
        convert path .integer value = .error (.mismatch path .integer value.kind) := by
    refine ⟨fun hreads => ?_, by simp only [convert, h]⟩
    obtain ⟨n, hn⟩ := hreads path
    rw [h] at hn
    cases hn
  cases value with
  | number n =>
    -- Only for numbers it depends on the value.
    cases hn : n.toInteger? with
    | some i =>
      have accepted : ∀ p, Readable.ofValue (α := Int) p (.number n) = .ok i := by
        intro p
        simp only [Readable.ofValue, hn, Option.elim]
      refine Or.inl ⟨fun p => ⟨i, accepted p⟩, .number (.integer i), ?_⟩
      simp only [convert, accepted]
    | none =>
      refine Or.inr (refused fun p => ?_)
      simp only [Readable.ofValue, hn, Option.elim, Readable.mismatch]
  | null => exact Or.inr (refused fun p => rfl)
  | boolean b => exact Or.inr (refused fun p => rfl)
  | string text => exact Or.inr (refused fun p => rfl)
  | array items => exact Or.inr (refused fun p => rfl)
  | object members => exact Or.inr (refused fun p => rfl)

theorem demands_boolean : Demands .boolean (fun value => value.kind = .boolean) .boolean := by
  intro path value
  cases value with
  | boolean b => exact Or.inl ⟨rfl, .boolean b, rfl⟩
  | null => exact Or.inr ⟨nofun, rfl⟩
  | number n => exact Or.inr ⟨nofun, rfl⟩
  | string text => exact Or.inr ⟨nofun, rfl⟩
  | array items => exact Or.inr ⟨nofun, rfl⟩
  | object members => exact Or.inr ⟨nofun, rfl⟩

/-- A sequence fails at its first item that the type of its items refuses. -/
theorem convert_sequence_eq_error_iff {type : ScalarType} {Good : Value → Prop}
    {expected : Expected} (demands : type.Demands Good expected) {path : String}
    {items : List Value} {e : ReadError} :
    convert path (.sequence type) (.array items) = .error e ↔
      ∃ index item, FirstBad Good items index item ∧
        e = .mismatch (Readable.itemPath path index) expected item.kind := by
  have hitems : convert path (.sequence type) (.array items) = .error e ↔
      Readable.readItems (fun p value => convert p type value) path 0 items = .error e := by
    rw [convert_array]
    cases Readable.readItems (fun p value => convert p type value) path 0 items with
    | error e' => simp [Except.map]
    | ok xs => simp [Except.map]
  rw [hitems, Readable.readItems_eq_error_iff]
  -- The items before the bad one are read; in terms of the class, they are good.
  constructor
  · rintro ⟨before, item, after, hsplit, hbefore, hitem⟩
    rw [Nat.zero_add, demands.eq_error_iff] at hitem
    refine ⟨before.length, item, ⟨before, after, hsplit, rfl, ?_, hitem.1⟩, hitem.2⟩
    intro earlier hmem
    obtain ⟨i, hi, rfl⟩ := List.getElem_of_mem hmem
    exact demands.exists_ok_iff.mp (hbefore i hi)
  · rintro ⟨index, item, ⟨before, after, hsplit, rfl, hbefore, hitem⟩, rfl⟩
    refine ⟨before, item, after, hsplit, fun i hi => ?_, ?_⟩
    · exact demands.exists_ok_iff.mpr (hbefore _ (List.getElem_mem hi))
    · rw [Nat.zero_add, demands.eq_error_iff]
      exact ⟨hitem, rfl⟩

/-- Everything can be read as text, so a sequence of texts takes any items. -/
theorem convert_sequence_string (path : String) (items : List Value) :
    convert path (.sequence .string) (.array items) =
      .ok (.array (items.map fun item => .string (Readable.textOf item))) := by
  have hitems : Readable.readItems (fun _ value => .ok (.string (Readable.textOf value))) path 0
      items = .ok (items.map fun item => Value.string (Readable.textOf item)) :=
    Readable.readItems_eq_ok fun _ _ _ => rfl
  simp only [convert, hitems]

/-- **Faults are failing conversions**: a leaf is refused by the type inferred from it exactly if it
has a fault. -/
theorem convert_infer_eq_error_iff {path : String} {value : Value} {e : ReadError} :
    (infer value).convert path value = .error e ↔ Fault path value e := by
  constructor
  · intro h
    match value with
    | .null => cases h
    | .boolean _ => cases h
    | .string _ => cases h
    | .object _ => cases h
    | .number n =>
      rcases demands_integer path (.number n) with ⟨-, x, hx⟩ | ⟨bad, herror⟩
      · exact absurd (hx.symm.trans h) nofun
      · cases herror.symm.trans h
        exact .number bad
    | .array [] => cases h
    | .array (.number first :: others) =>
      obtain ⟨index, item, bad, rfl⟩ := (convert_sequence_eq_error_iff demands_integer).mp h
      exact .integers bad
    | .array (.boolean first :: others) =>
      obtain ⟨index, item, bad, rfl⟩ := (convert_sequence_eq_error_iff demands_boolean).mp h
      exact .booleans bad
    -- Any other first item makes a sequence of texts, which takes everything.
    | .array (.null :: others) | .array (.string _ :: others) | .array (.array _ :: others)
    | .array (.object _ :: others) =>
      exact absurd ((convert_sequence_string path _).symm.trans h) nofun
  · intro fault
    cases fault with
    | @number n bad =>
      rcases demands_integer path (.number n) with ⟨good, -⟩ | ⟨-, herror⟩
      · exact absurd good bad
      · exact herror
    | integers bad => exact (convert_sequence_eq_error_iff demands_integer).mpr ⟨_, _, bad, rfl⟩
    | booleans bad => exact (convert_sequence_eq_error_iff demands_boolean).mpr ⟨_, _, bad, rfl⟩

end ScalarType

/-! ## §3 The first fault of a document -/

namespace Value

mutual

/-- The leaves of the value at a path, with their paths, in the order of the document. -/
def leaves (path : KeyPath) : Value → List (KeyPath × Value)
  | .object members => leavesOf path members
  | value => [(path, value)]

/-- The leaves of the members of the object at a path. -/
def leavesOf (path : KeyPath) : List (String × Value) → List (KeyPath × Value)
  | [] => []
  | (key, value) :: rest => leaves (path ++ [key]) value ++ leavesOf path rest

end

end Value

/-- `FirstFault leaves e`: `e` is the fault of the first leaf that has one. -/
inductive FirstFault : List (KeyPath × Value) → ReadError → Prop where
  | here {path : KeyPath} {value : Value} {rest : List (KeyPath × Value)} {e : ReadError}
      (fault : Fault path.dotted value e) : FirstFault ((path, value) :: rest) e
  | later {path : KeyPath} {value : Value} {rest : List (KeyPath × Value)} {e : ReadError}
      (sound : ∀ e', ¬ Fault path.dotted value e') (others : FirstFault rest e) :
      FirstFault ((path, value) :: rest) e

namespace FirstFault

theorem iff_firstFailure {leaves : List (KeyPath × Value)} {e : ReadError} :
    FirstFault leaves e ↔ FirstFailure (fun leaf => Fault leaf.1.dotted leaf.2) leaves e := by
  constructor
  · intro h
    induction h with
    | here fault => exact FirstFailure.cons_iff.mpr (Or.inl fault)
    | later sound _ ih => exact FirstFailure.cons_iff.mpr (Or.inr ⟨sound, ih⟩)
  · intro h
    induction leaves with
    | nil => exact absurd h FirstFailure.not_nil
    | cons leaf rest ih =>
      rcases FirstFailure.cons_iff.mp h with fault | ⟨sound, others⟩
      · exact .here fault
      · exact .later sound (ih others)

theorem singleton_iff {path : KeyPath} {value : Value} {e : ReadError} :
    FirstFault [(path, value)] e ↔ Fault path.dotted value e := by
  rw [iff_firstFailure, FirstFailure.singleton_iff]

theorem append_iff {first second : List (KeyPath × Value)} {e : ReadError} :
    FirstFault (first ++ second) e ↔
      FirstFault first e ∨ ((∀ e', ¬ FirstFault first e') ∧ FirstFault second e) := by
  simp only [iff_firstFailure, FirstFailure.append_iff]

/-- There is a first fault exactly if there is any. -/
theorem exists_iff {leaves : List (KeyPath × Value)} :
    (∃ e, FirstFault leaves e) ↔ ∃ leaf ∈ leaves, ∃ e, Fault leaf.1.dotted leaf.2 e := by
  simp only [iff_firstFailure, FirstFailure.exists_iff]

/-- The first fault of a document is of the wrong kind, and no array is wanted where it stands. -/
theorem eq_mismatch {leaves : List (KeyPath × Value)} {e : ReadError} (h : FirstFault leaves e) :
    ∃ path expected found, e = .mismatch path expected found ∧ expected ≠ .array := by
  induction h with
  | here fault => cases fault <;> exact ⟨_, _, _, rfl, nofun⟩
  | later _ _ ih => exact ih

end FirstFault

namespace Value

mutual

/-- **Reading a document as its own types fails at its first fault.** -/
theorem selfRead_eq_error_iff {path : KeyPath} {e : ReadError} :
    ∀ {value : Value}, value.selfRead path = .error e ↔ FirstFault (value.leaves path) e
  | .object members => by
    have hmembers : selfReadMembers path [] members = .error e ↔ _ := selfReadMembers_eq_error_iff
    rw [leaves, ← hmembers, selfRead]
    cases selfReadMembers path [] members with
    | error e' => simp
    | ok fields => simp
  | .null | .boolean _ | .number _ | .string _ | .array _ => by
    rw [leaves, selfRead, FirstFault.singleton_iff]
    · exact ScalarType.convert_infer_eq_error_iff
    all_goals nofun

theorem selfReadMembers_eq_error_iff {path : KeyPath} {e : ReadError}
    {fields : List (String × Value)} :
    ∀ {members : List (String × Value)},
      selfReadMembers path fields members = .error e ↔ FirstFault (leavesOf path members) e
  | [] => by
    rw [selfReadMembers, leavesOf]
    exact ⟨nofun, nofun⟩
  | (key, value) :: rest => by
    rw [selfReadMembers, leavesOf, FirstFault.append_iff]
    -- The members after this one are looked at only if this one has been read.
    cases hvalue : value.selfRead (path ++ [key]) with
    | error e' =>
      have hfirst : ∀ e'', FirstFault (value.leaves (path ++ [key])) e'' ↔ e' = e'' := by
        intro e''
        rw [← selfRead_eq_error_iff, hvalue, Except.error.injEq]
      simp [hfirst]
    | ok read =>
      have hfirst : ∀ e'', ¬ FirstFault (value.leaves (path ++ [key])) e'' := by
        intro e''
        rw [← selfRead_eq_error_iff, hvalue]
        exact nofun
      simp [hfirst, selfReadMembers_eq_error_iff]

end

/-- The leaves that the initializer of a document reads: booleans and nulls at the root are only
declared. -/
def assignedLeaves : Value → List (KeyPath × Value)
  | .object members => leavesOf [] (members.filter fun member => member.2.isAssigned)
  | _ => []

end Value

/-! ## §4 Initializers of texts -/

/-- **A document fails its own types only where inference is ambiguous**: the initializer planned
from a text fails on the document of that text exactly if a leaf that it reads has a fault, and the
error is that of the first such leaf. -/
theorem Holder.simulate_self_eq_error_iff {text : String} {schema : Schema} {document : Value}
    (hschema : Schema.ofText text = .ok schema) (hdocument : Value.parse text = .ok document)
    (variant : Variant) (program : String) :
    (∀ e, (schema.holder variant program).simulate document = .error e ↔
      FirstFault document.assignedLeaves e) ∧
    ((∃ e, (schema.holder variant program).simulate document = .error e) ↔
      ∃ leaf ∈ document.assignedLeaves, ∃ e, Fault leaf.1.dotted leaf.2 e) ∧
    (∀ path, (schema.holder variant program).simulate document ≠ .error (.missing path)) ∧
    (∀ path found, (schema.holder variant program).simulate document ≠
      .error (.mismatch path .array found)) := by
  obtain ⟨members, hmembers, unique, rfl⟩ := Schema.eq_ofMembers_of_ofText hschema
  cases hmembers.symm.trans hdocument
  have hfirst : ∀ e, (Schema.holder (Node.ofMembers [] members) variant program).simulate
      (.object members) = .error e ↔ FirstFault (Value.object members).assignedLeaves e := by
    intro e
    rw [simulate_of_document unique, Value.selfReadMembers_eq_error_iff]
    rfl
  refine ⟨hfirst, ?fails, fun path hmissing => ?missing, fun path found hmismatch => ?array⟩
  case fails =>
    simp only [hfirst]
    exact FirstFault.exists_iff
  case missing =>
    obtain ⟨_, _, _, heq, -⟩ := ((hfirst _).mp hmissing).eq_mismatch
    cases heq
  case array =>
    obtain ⟨_, _, _, heq, hexpected⟩ := ((hfirst _).mp hmismatch).eq_mismatch
    cases heq
    exact hexpected rfl

/-- Of two faults the one that comes first in the text is the error, also if it lies deeper. -/
theorem Holder.simulate_self_mixed_arrays :
    let text := "\x7b\"db\": \x7b\"ids\": [1, \"x\"]\x7d, \"on\": [true, null]\x7d"
    ∃ schema document, Schema.ofText text = .ok schema ∧ Value.parse text = .ok document ∧
      (schema.holder .publicSettings "demo").simulate document =
        .error (.mismatch "db.ids[1]" .integer .string) := by
  intro text
  let ids : Value := .array [.number (.integer 1), .string "x"]
  let members : List (String × Value) :=
    [("db", .object [("ids", ids)]), ("on", .array [.boolean true, .null])]
  have hdocument : Value.parse text = .ok (.object members) := by
    subst text
    cbv
  have hschema := Schema.ofText_of_parse hdocument
  have hbad : FirstBad (Value.ReadsAs Int) [.number (.integer 1), .string "x"] 1
      (.string "x") := by
    refine ⟨[.number (.integer 1)], [], rfl, rfl, ?_, fun hreads => ?_⟩
    · exact List.forall_mem_singleton.mpr fun path => ⟨1, rfl⟩
    · obtain ⟨n, hn⟩ := hreads ""
      cases hn
  have hfault : Fault "db.ids" ids (.mismatch "db.ids[1]" .integer .string) := .integers hbad
  exact ⟨_, _, hschema, hdocument,
    ((Holder.simulate_self_eq_error_iff hschema hdocument _ _).1 _).mpr (.here hfault)⟩

end TypedSettings

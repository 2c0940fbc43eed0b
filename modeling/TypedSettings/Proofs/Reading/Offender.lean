import Mathlib
import TypedSettings.Schema.FieldType
import TypedSettings.Proofs.OrderedMap
import TypedSettings.Proofs.Reading.Items

/-!
# First offenders

A type reaches through the items of nested arrays and demands something of every value it gets to:
a number in range, a boolean or an array. Reading as the type fails at the first value that is not
as demanded, first in the order of its indices, and the error carries the demand, the kind of the
value and the way to it. Where all values are as demanded, the result has their shape.

Main facts:
- `ScalarType.Reaches`, `ScalarType.Meets`: the values a type gets to, and what it demands of them
- `ScalarType.FirstOffender.unique`: there is at most one first value that is not as demanded
- `ScalarType.ofValue_eq_ok_iff`, `ScalarType.ofValue_eq_error_iff`: reading a value
- `ScalarType.read_outcome`: reading a field of a document
-/

namespace TypedSettings

/-! ## §1 Demands -/

/-- Indices as messages spell them. -/
def Readable.suffix (indices : List Nat) : String :=
  String.join (indices.map fun index => s!"[{index}]")

theorem Readable.itemPath_append_suffix (path : String) (index : Nat) (indices : List Nat) :
    itemPath path index ++ suffix indices = path ++ suffix (index :: indices) := by
  simp [suffix, itemPath, ← String.toList_inj]
  rfl

namespace ScalarType

/-- What a type demands of the value itself; any value can be read as a text. -/
def demand? : ScalarType → Option Expected
  | .integer => some .integer
  | .boolean => some .boolean
  | .string => none
  | .sequence _ => some .array

/-- `Meets type value`: the value itself is as the type demands, whatever its items are. -/
inductive Meets : ScalarType → Value → Prop where
  | integer {n : Number} {k : Int} (h : n.toInteger? = some k) : Meets .integer (.number n)
  | boolean (b : Bool) : Meets .boolean (.boolean b)
  | string (value : Value) : Meets .string value
  | sequence (item : ScalarType) (items : List Value) : Meets (.sequence item) (.array items)

/-- `Reaches type value indices inner found`: following the indices from the value leads to `found`,
and reading the value as the type reads that as `inner`. -/
inductive Reaches : ScalarType → Value → List Nat → ScalarType → Value → Prop where
  | here (type : ScalarType) (value : Value) : Reaches type value [] type value
  | item {item inner : ScalarType} {items : List Value} {index : Nat} {indices : List Nat}
      {value found : Value} (at_index : items[index]? = some value)
      (within : Reaches item value indices inner found) :
      Reaches (.sequence item) (.array items) (index :: indices) inner found

/-- `Reads type value x`: the typed value has the shape of the document, with the items of every
array in their order. -/
def Reads : (type : ScalarType) → Value → type.Carrier → Prop
  | .integer, value, (k : Int) => ∃ n, value = .number n ∧ n.toInteger? = some k
  | .boolean, value, (b : Bool) => value = .boolean b
  | .string, value, (text : String) => text = Readable.textOf value
  | .sequence item, value, (xs : List item.Carrier) =>
    ∃ items, value = .array items ∧ List.Forall₂ item.Reads items xs

/-- The first value that is not as demanded: what comes before it in the order of indices is as
demanded and, unless it holds the offender, can be read as a whole. -/
structure FirstOffender (type : ScalarType) (value : Value) (indices : List Nat)
    (expected : Expected) (found : Kind) : Prop where
  offends : ∃ inner offender, Reaches type value indices inner offender ∧
    inner.demand? = some expected ∧ ¬ inner.Meets offender ∧ offender.kind = found
  before : ∀ earlier inner other, Reaches type value earlier inner other → earlier < indices →
    inner.Meets other ∧ (earlier <+: indices ∨ ∃ x, inner.Reads other x)

variable {type inner : ScalarType} {value found : Value} {indices : List Nat}

/-- Indices lead to one value, read as one type. -/
theorem Reaches.unique {inner' : ScalarType} {found' : Value}
    (h : Reaches type value indices inner found) (h' : Reaches type value indices inner' found') :
    inner = inner' ∧ found = found' := by
  induction h with
  | here type value =>
    cases h'
    exact ⟨rfl, rfl⟩
  | item at_index _ ih =>
    cases h' with
    | item at_index' within' =>
      cases at_index.symm.trans at_index'
      exact ih within'

/-- There is one first offender at most. -/
theorem FirstOffender.unique {indices' : List Nat} {expected expected' : Expected}
    {kind kind' : Kind} (h : FirstOffender type value indices expected kind)
    (h' : FirstOffender type value indices' expected' kind') :
    indices = indices' ∧ expected = expected' ∧ kind = kind' := by
  obtain ⟨inner, offender, hreach, hdemand, hmeets, rfl⟩ := h.offends
  obtain ⟨inner', offender', hreach', hdemand', hmeets', rfl⟩ := h'.offends
  rcases lt_trichotomy indices indices' with hlt | rfl | hgt
  -- Of two offenders the earlier one would have to be as demanded.
  · exact absurd (h'.before _ _ _ hreach hlt).1 hmeets
  · obtain ⟨rfl, rfl⟩ := hreach.unique hreach'
    exact ⟨rfl, Option.some.inj (hdemand.symm.trans hdemand'), rfl⟩
  · exact absurd (h.before _ _ _ hreach' hgt).1 hmeets'

/-! ## §2 Values that can be read -/

theorem Reads.meets {x : type.Carrier} (h : type.Reads value x) : type.Meets value := by
  cases type with
  | integer =>
    obtain ⟨n, rfl, hn⟩ := h
    exact .integer hn
  | boolean =>
    obtain rfl := h
    exact .boolean _
  | string => exact .string value
  | sequence item =>
    obtain ⟨items, rfl, -⟩ := h
    exact .sequence item items

theorem readItems_eq_ok_iff {α : Type} {read : String → Value → Except ReadError α}
    {Good : Value → α → Prop} (h : ∀ path item x, read path item = .ok x ↔ Good item x)
    {path : String} {index : Nat} {items : List Value} {xs : List α} :
    Readable.readItems read path index items = .ok xs ↔ List.Forall₂ Good items xs := by
  induction items generalizing index xs with
  | nil => simp [Readable.readItems, eq_comm]
  | cons first rest ih =>
    simp only [Readable.readItems_cons_eq_ok_iff, List.forall₂_cons_left_iff, h, ih]

/-- With a value everything in it can be read. -/
theorem Reads.of_reaches {x : type.Carrier} (h : type.Reads value x)
    (hreach : Reaches type value indices inner found) : ∃ y, inner.Reads found y := by
  induction hreach with
  | here type value => exact ⟨x, h⟩
  | @item item inner items index indices value found at_index _ ih =>
    obtain ⟨_, heq, hitems⟩ := h
    cases heq
    obtain ⟨hindex, rfl⟩ := List.getElem?_eq_some_iff.mp at_index
    exact ih (hitems.get hindex (hitems.length_eq ▸ hindex))

theorem ofValue_integer_eq_ok_iff {path : String} {k : Int} :
    Readable.ofValue path value = .ok k ↔ ∃ n, value = .number n ∧ n.toInteger? = some k := by
  cases value with
  | number n => cases hn : n.toInteger? <;> simp [Readable.ofValue, hn]
  | _ => simp [Readable.ofValue]

theorem ofValue_boolean_eq_ok_iff {path : String} {b : Bool} :
    Readable.ofValue path value = .ok b ↔ value = .boolean b := by
  cases value <;> simp [Readable.ofValue]

theorem ofValue_string_eq_ok_iff {path text : String} :
    Readable.ofValue path value = .ok text ↔ text = Readable.textOf value := by
  simp [Readable.ofValue, eq_comm]

theorem ofValue_list_eq_ok_iff {α : Type} [Readable α] {Good : Value → α → Prop}
    (h : ∀ path item x, Readable.ofValue path item = .ok x ↔ Good item x) {path : String}
    {xs : List α} : Readable.ofValue path value = .ok xs ↔
      ∃ items, value = .array items ∧ List.Forall₂ Good items xs := by
  cases value with
  | array items => simp [Readable.ofValue, readItems_eq_ok_iff h]
  | _ => simp [Readable.ofValue]

/-- **Reading gives a value of the same shape**, or none. -/
theorem ofValue_eq_ok_iff {path : String} {x : type.Carrier} :
    Readable.ofValue path value = .ok x ↔ type.Reads value x := by
  induction type generalizing path value with
  | integer => exact ofValue_integer_eq_ok_iff
  | boolean => exact ofValue_boolean_eq_ok_iff
  | string => exact ofValue_string_eq_ok_iff
  | sequence item ih => exact ofValue_list_eq_ok_iff fun path value x => ih

/-! ## §3 Values that cannot be read -/

theorem firstOffender_here {expected : Expected} (hdemand : type.demand? = some expected)
    (hmeets : ¬ type.Meets value) : FirstOffender type value [] expected value.kind where
  offends := ⟨type, value, .here type value, hdemand, hmeets, rfl⟩
  before := fun earlier _ _ _ hlt => absurd hlt (List.not_lt_nil earlier)

/-- Behind items that can be read, the first offender of an item is that of the array. -/
theorem FirstOffender.of_item {item : ScalarType} {before after : List Value} {expected : Expected}
    {kind : Kind} (hbefore : ∀ other ∈ before, ∃ x, item.Reads other x)
    (h : FirstOffender item value indices expected kind) :
    FirstOffender (.sequence item) (.array (before ++ value :: after)) (before.length :: indices)
      expected kind := by
  have hat : (before ++ value :: after)[before.length]? = some value := by simp
  obtain ⟨inner, offender, hreach, hoffends⟩ := h.offends
  refine ⟨⟨inner, offender, .item hat hreach, hoffends⟩, fun earlier inner other hreach hlt => ?_⟩
  cases hreach with
  | here => exact ⟨.sequence item _, .inl List.nil_prefix⟩
  | @item _ _ _ index rest found _ at_index within =>
    rcases List.cons_lt_cons_iff.mp hlt with hindex | ⟨rfl, hrest⟩
    -- An earlier item can be read, and so can whatever is in it.
    · rw [List.getElem?_append_left hindex] at at_index
      obtain ⟨x, hx⟩ := hbefore found (List.mem_of_getElem? at_index)
      obtain ⟨y, hy⟩ := hx.of_reaches within
      exact ⟨hy.meets, .inr ⟨y, hy⟩⟩
    -- The item itself has its own first offender.
    · cases hat.symm.trans at_index
      obtain ⟨hmeets, hread⟩ := h.before rest inner other within hrest
      exact ⟨hmeets, hread.imp_left fun hprefix => List.prefix_cons_inj _ |>.mpr hprefix⟩

theorem firstOffender_of_integer {path : String} {e : ReadError}
    (h : Readable.ofValue (α := Int) path value = .error e) :
    e = .mismatch path .integer value.kind ∧
      FirstOffender .integer value [] .integer value.kind := by
  have hmeets : ¬ Meets .integer value := by
    rintro ⟨hn⟩
    simp [Readable.ofValue, hn] at h
  refine ⟨?_, firstOffender_here rfl hmeets⟩
  cases value with
  | number n => cases hn : n.toInteger? <;> simp_all [Readable.ofValue, Readable.mismatch]
  | _ => simp_all [Readable.ofValue, Readable.mismatch]

theorem firstOffender_of_boolean {path : String} {e : ReadError}
    (h : Readable.ofValue (α := Bool) path value = .error e) :
    e = .mismatch path .boolean value.kind ∧
      FirstOffender .boolean value [] .boolean value.kind := by
  have hmeets : ¬ Meets .boolean value := by
    rintro ⟨⟩
    simp [Readable.ofValue] at h
  refine ⟨?_, firstOffender_here rfl hmeets⟩
  cases value <;> simp_all [Readable.ofValue, Readable.mismatch]

/-- **Reading fails at the first offender**, wherever it is. -/
theorem exists_firstOffender {path : String} {e : ReadError}
    (h : Readable.ofValue (α := type.Carrier) path value = .error e) :
    ∃ indices expected found, e = .mismatch (path ++ Readable.suffix indices) expected found ∧
      FirstOffender type value indices expected found := by
  -- The path grows with every array that is entered, so it is generalized along with the value.
  induction type generalizing path value with
  | integer =>
    obtain ⟨rfl, hfirst⟩ := firstOffender_of_integer h
    exact ⟨[], .integer, value.kind, by simp [Readable.suffix], hfirst⟩
  | boolean =>
    obtain ⟨rfl, hfirst⟩ := firstOffender_of_boolean h
    exact ⟨[], .boolean, value.kind, by simp [Readable.suffix], hfirst⟩
  | string => cases h
  | sequence item ih =>
    change Readable.ofValue (α := List item.Carrier) path value = .error e at h
    by_cases hmeets : Meets (.sequence item) value
    · obtain ⟨items⟩ := hmeets
      obtain ⟨before, first, after, rfl, hbefore, hfirst⟩ := Readable.readItems_eq_error_iff.mp h
      obtain ⟨indices, expected, found, rfl, hoffender⟩ := ih hfirst
      refine ⟨before.length :: indices, expected, found, ?_,
        hoffender.of_item fun other hother => ?_⟩
      · rw [Readable.itemPath_append_suffix, Nat.zero_add]
      · obtain ⟨i, hi, rfl⟩ := List.mem_iff_getElem.mp hother
        obtain ⟨x, hx⟩ := hbefore i hi
        exact ⟨x, ofValue_eq_ok_iff.mp hx⟩
    · refine ⟨[], .array, value.kind, ?_, firstOffender_here rfl hmeets⟩
      cases value with
      | array items => exact absurd (.sequence item items) hmeets
      | _ => simp_all [Readable.ofValue, Readable.mismatch, Readable.suffix]

/-- What a type reaches and cannot take keeps the value from being read. -/
theorem exists_error_of_reaches (path : String) (hreach : Reaches type value indices inner found)
    (hmeets : ¬ inner.Meets found) :
    ∃ e, Readable.ofValue (α := type.Carrier) path value = .error e := by
  cases hread : Readable.ofValue (α := type.Carrier) path value with
  | error e => exact ⟨e, rfl⟩
  | ok x =>
    obtain ⟨y, hy⟩ := (ofValue_eq_ok_iff.mp hread).of_reaches hreach
    exact absurd hy.meets hmeets

theorem ofValue_eq_error_iff {path : String} {e : ReadError} :
    Readable.ofValue (α := type.Carrier) path value = .error e ↔
      ∃ indices expected found, e = .mismatch (path ++ Readable.suffix indices) expected found ∧
        FirstOffender type value indices expected found := by
  refine ⟨exists_firstOffender, ?_⟩
  rintro ⟨indices, expected, found, rfl, hfirst⟩
  obtain ⟨inner, offender, hreach, -, hmeets, -⟩ := hfirst.offends
  obtain ⟨e, he⟩ := exists_error_of_reaches path hreach hmeets
  obtain ⟨indices', expected', found', rfl, hfirst'⟩ := exists_firstOffender he
  obtain ⟨rfl, rfl, rfl⟩ := hfirst.unique hfirst'
  exact he

end ScalarType

/-! ## §4 Fields of documents -/

namespace Value

/-- The path leads nowhere: at one of its keys it has come to a value that is no object, or to an
object without that key. -/
def IsAbsent (path : KeyPath) (document : Value) : Prop :=
  ∃ before key after container, path = before ++ key :: after ∧
    document.lookup before = some container ∧
    (container.kind ≠ .object ∨
      ∃ members, container = .object members ∧ key ∉ OrderedMap.keys members)

theorem member?_eq_none_iff {key : String} {value : Value} :
    value.member? key = none ↔ value.kind ≠ .object ∨
      ∃ members, value = .object members ∧ key ∉ OrderedMap.keys members := by
  cases value <;> simp [member?, kind, OrderedMap.find?_eq_none_iff]

theorem lookup_eq_none_iff {path : KeyPath} {document : Value} :
    document.lookup path = none ↔ IsAbsent path document := by
  constructor
  · induction path generalizing document with
    | nil => exact nofun
    | cons key rest ih =>
      intro h
      rw [lookup] at h
      cases hmember : document.member? key with
      | none => exact ⟨[], key, rest, document, rfl, rfl, member?_eq_none_iff.mp hmember⟩
      | some inner =>
        rw [hmember] at h
        obtain ⟨before, absent, after, container, rfl, hcontainer, hkey⟩ := ih h
        refine ⟨key :: before, absent, after, container, rfl, ?_, hkey⟩
        rw [lookup, hmember]
        exact hcontainer
  · rintro ⟨before, key, after, container, rfl, hcontainer, hkey⟩
    rw [lookup_append, hcontainer, Option.bind_some, lookup, member?_eq_none_iff.mpr hkey]

end Value

/-- **A field is read, is missing, or has a first offender.** It is missing, by the keys joined with
dots, exactly if its path leads nowhere. Where the path leads to a value, reading fails exactly if
something that the type reaches is not as demanded, and the error is that of the first such value,
at its indices behind the keys, with what is demanded there and what is found. Every other field is
read as a value of its shape, item by item. -/
theorem ScalarType.read_outcome (type : ScalarType) (path : KeyPath) (document : Value) :
    (∀ text, document.read type.Carrier path = .error (.missing text) ↔
      text = ".".intercalate path ∧ Value.IsAbsent path document) ∧
    ((∃ text expected found,
        document.read type.Carrier path = .error (.mismatch text expected found)) ↔
      ∃ value indices inner offender, document.lookup path = some value ∧
        Reaches type value indices inner offender ∧ ¬ inner.Meets offender) ∧
    (∀ text expected found,
      document.read type.Carrier path = .error (.mismatch text expected found) ↔
        ∃ value indices, document.lookup path = some value ∧
          text = ".".intercalate path ++ Readable.suffix indices ∧
          FirstOffender type value indices expected found) ∧
    ∀ x, document.read type.Carrier path = .ok x ↔
      ∃ value, document.lookup path = some value ∧ type.Reads value x := by
  simp only [Value.read, Value.field, ← Value.lookup_eq_none_iff]
  cases hlookup : document.lookup path with
  | none => simp [KeyPath.dotted, eq_comm]
  | some value =>
    simp only [reduceCtorEq, and_false, iff_false, Option.some.injEq]
    refine ⟨fun text h => ?missing, ⟨?fails, ?offends⟩, fun text expected found => ?first,
      fun x => ?read⟩
    case missing =>
      obtain ⟨indices, expected, found, heq, -⟩ := ofValue_eq_error_iff.mp h
      cases heq
    case fails =>
      rintro ⟨text, expected, found, h⟩
      obtain ⟨indices, _, _, -, hfirst⟩ := ofValue_eq_error_iff.mp h
      obtain ⟨inner, offender, hreach, -, hmeets, -⟩ := hfirst.offends
      exact ⟨value, indices, inner, offender, rfl, hreach, hmeets⟩
    case offends =>
      rintro ⟨_, indices, inner, offender, rfl, hreach, hmeets⟩
      obtain ⟨e, he⟩ := exists_error_of_reaches path.dotted hreach hmeets
      obtain ⟨_, expected, found, rfl, -⟩ := ofValue_eq_error_iff.mp he
      exact ⟨_, expected, found, he⟩
    case first =>
      rw [ofValue_eq_error_iff]
      constructor
      · rintro ⟨indices, _, _, heq, hfirst⟩
        cases heq
        exact ⟨value, indices, rfl, rfl, hfirst⟩
      · rintro ⟨_, indices, rfl, rfl, hfirst⟩
        exact ⟨indices, expected, found, rfl, hfirst⟩
    case read =>
      rw [ofValue_eq_ok_iff]
      exact ⟨fun h => ⟨value, rfl, h⟩, by rintro ⟨_, rfl, h⟩; exact h⟩

end TypedSettings

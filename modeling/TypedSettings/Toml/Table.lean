import TypedSettings.OrderedMap
import TypedSettings.Toml.Scalar

/-!
# Tables of TOML

A document is built statement by statement. Headers and dotted keys create tables on the way, but
each table is defined once: a header may take over a table that only headers have implied, a dotted
key may extend a table that only dotted keys have made, and no key is assigned twice. The entries of
a table keep the order in which they were defined.
-/

namespace TypedSettings.Toml

/-- How a table came about. -/
inductive Origin where
  /-- By a header of its own. -/
  | header
  /-- On the way of a header to another table. -/
  | implied
  /-- On the way of a dotted key. -/
  | dotted
  /-- As a value in braces. -/
  | inlined
  deriving DecidableEq, Repr

/-- What a key holds. Of an array of tables only the last table can still be reached. -/
inductive Item where
  | text (value : String)
  | scalar
  | array (items : List Item)
  | table (origin : Origin) (entries : List (String × Item))
  | tables (before : List Item) (last : List (String × Item))
  deriving Repr, Inhabited

/-- The entries of a table. -/
abbrev Entries := List (String × Item)

namespace Entries

/-- The entry of a key. -/
def get? (entries : Entries) (key : String) : Option Item := OrderedMap.find? key entries

/-- Assigns a value to a dotted key. -/
def assign (value : Item) : List String → Entries → Option Entries
  | [], _ => none
  | [key], entries =>
    if (entries.get? key).isSome then none else some (OrderedMap.insert key value entries)
  | key :: next :: path, entries =>
    match entries.get? key with
    | none =>
      (assign value (next :: path) []).map fun inner =>
        OrderedMap.insert key (.table .dotted inner) entries
    | some (.table .dotted inner) =>
      (assign value (next :: path) inner).map fun inner =>
        OrderedMap.insert key (.table .dotted inner) entries
    -- A table that headers made takes no entry by dotted keys, though tables inside it may.
    | some (.table .implied inner) =>
      if path.isEmpty then none
      else (assign value (next :: path) inner).map fun inner =>
        OrderedMap.insert key (.table .implied inner) entries
    | some (.tables before last) =>
      if path.isEmpty then none
      else (assign value (next :: path) last).map fun last =>
        OrderedMap.insert key (.tables before last) entries
    | some _ => none

/-- Opens the table of a header, or a new table of an array of tables. -/
def openTable (isArray : Bool) : List String → Entries → Option Entries
  | [], _ => none
  | [key], entries =>
    match entries.get? key, isArray with
    | none, true => some (OrderedMap.insert key (.tables [] []) entries)
    | none, false => some (OrderedMap.insert key (.table .header []) entries)
    | some (.tables before last), true =>
      some (OrderedMap.insert key (.tables (before ++ [.table .header last]) []) entries)
    -- A table that was only implied so far takes its place among the entries now.
    | some (.table .implied inner), false =>
      some (OrderedMap.eraseWhere (· == key) entries ++ [(key, .table .header inner)])
    | some _, _ => none
  | key :: next :: path, entries =>
    match entries.get? key with
    | none =>
      (openTable isArray (next :: path) []).map fun inner =>
        OrderedMap.insert key (.table .implied inner) entries
    -- A value in braces is complete; every other table may get tables below it.
    | some (.table .inlined _) => none
    | some (.table origin inner) =>
      (openTable isArray (next :: path) inner).map fun inner =>
        OrderedMap.insert key (.table origin inner) entries
    | some (.tables before last) =>
      (openTable isArray (next :: path) last).map fun last =>
        OrderedMap.insert key (.tables before last) entries
    | some _ => none

/-- Changes the entries of the table that a header has opened. -/
def within (change : Entries → Option Entries) : List String → Entries → Option Entries
  | [], entries => change entries
  | key :: path, entries =>
    match entries.get? key with
    | some (.table origin inner) =>
      (within change path inner).map fun inner =>
        OrderedMap.insert key (.table origin inner) entries
    | some (.tables before last) =>
      (within change path last).map fun last =>
        OrderedMap.insert key (.tables before last) entries
    | _ => none

end Entries

/-! ## Tables that stand for moments

A table that is looked at without knowing what it should hold stands for a date or a time of day if
its first key is `momentKey`. The value of that key has to spell it, and the other entries of the
table do not count. -/

/-- The key that makes its table a moment. -/
def momentKey : String := "$__toml_private_datetime"

/-- Does a table with these entries stand for a moment? -/
def Entries.areMoment : Entries → Bool
  | [] => false
  | (key, _) :: _ => key == momentKey

/-- Does the item of the moment key spell a moment? -/
def Item.spellsMoment : Item → Bool
  | .text value => isMoment value.toList
  | _ => false

mutual

/-- Does every table in an item that stands for a moment spell one? -/
def Item.isSound : Item → Bool
  | .array items => Item.areSound items
  | .table _ entries => Entries.isSoundTable entries
  | .tables before last => Item.areSound before && Entries.isSoundTable last
  | _ => true

/-- Are all items sound? -/
def Item.areSound : List Item → Bool
  | [] => true
  | item :: rest => item.isSound && Item.areSound rest

/-- Is a table with these entries sound? -/
def Entries.isSoundTable : List (String × Item) → Bool
  | [] => true
  | (key, item) :: rest =>
    if key == momentKey then item.spellsMoment else item.isSound && Entries.areSound rest

/-- Are the items of all entries sound? -/
def Entries.areSound : List (String × Item) → Bool
  | [] => true
  | (_, item) :: rest => item.isSound && Entries.areSound rest

end

/-- The entry of a key of a table that stands for no moment. -/
def Item.get? (key : String) : Item → Option Item
  | .table _ entries => if Entries.areMoment entries then none else Entries.get? entries key
  | _ => none

/-- The text of a string. -/
def Item.text? : Item → Option String
  | .text value => some value
  | _ => none

end TypedSettings.Toml

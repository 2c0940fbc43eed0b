/-!
# Ordered maps

Lists of key-value pairs in which a key is looked up at its first occurrence. Writing to a key that
is already there keeps its position and replaces its value; writing to a new key appends it. The
members of a settings object, the properties of an evaluated holder and the entries of a file tree
are all such maps.
-/

namespace TypedSettings

/-- Key-value pairs in order of first insertion. -/
abbrev OrderedMap (α β : Type) := List (α × β)

namespace OrderedMap

variable {α β : Type} [DecidableEq α]

/-- The value at the first occurrence of `key`. -/
def find? (key : α) : OrderedMap α β → Option β
  | [] => none
  | (k, v) :: rest => if k = key then some v else find? key rest

/-- Writes `value` at `key`: in place if the key is there, at the end otherwise. -/
def insert (key : α) (value : β) : OrderedMap α β → OrderedMap α β
  | [] => [(key, value)]
  | (k, v) :: rest => if k = key then (k, value) :: rest else (k, v) :: insert key value rest

/-- Removes every entry whose key satisfies `p`. -/
def eraseWhere (p : α → Bool) (map : OrderedMap α β) : OrderedMap α β :=
  map.filter fun entry => !p entry.1

/-- The keys in order. -/
def keys (map : OrderedMap α β) : List α := map.map Prod.fst

/-- The map that results from writing the pairs in order. -/
def ofPairs (pairs : List (α × β)) : OrderedMap α β :=
  pairs.foldl (fun map pair => insert pair.1 pair.2 map) []

/-! ## §1 Laws -/

@[simp] theorem find?_nil (key : α) : find? key ([] : OrderedMap α β) = none := rfl

/-- A write is seen at its own key and nowhere else. -/
theorem find?_insert (key other : α) (value : β) (map : OrderedMap α β) :
    find? other (insert key value map) = if key = other then some value else find? other map := by
  induction map with
  | nil => simp [insert, find?]
  | cons entry rest ih => grind [insert, find?]

/-- Writing an old key keeps the keys, writing a new one appends it. -/
theorem keys_insert (key : α) (value : β) (map : OrderedMap α β) :
    keys (insert key value map) = if key ∈ keys map then keys map else keys map ++ [key] := by
  induction map with
  | nil => simp [insert, keys]
  | cons entry rest ih => grind [insert, keys]

/-- Removal hides exactly the keys it names. -/
theorem find?_eraseWhere (p : α → Bool) (key : α) (map : OrderedMap α β) :
    find? key (eraseWhere p map) = if p key then none else find? key map := by
  induction map with
  | nil => simp [eraseWhere]
  | cons entry rest ih => grind [eraseWhere, find?]

end OrderedMap

end TypedSettings

import Mathlib
import TypedSettings.Proofs.OrderedMap

/-!
# Maps collected from writes

The map that a list of writes leaves behind, said without writing anything: its keys are the keys
of the writes in the order of their first occurrences, each once, and every key holds what was
written to it last.

Main facts:
- `LastWith`: the last item of a list that has a property
- `OrderedMap.keys_writeAll`, `OrderedMap.find?_writeAll_of_lastWith`: the two rules for any start
- `OrderedMap.collects_iff`: the rules determine the map
-/

namespace TypedSettings

/-- `LastWith p x xs`: of the items of `xs` with the property `p` the last one is `x`. -/
def LastWith {α : Type} (p : α → Prop) (x : α) (xs : List α) : Prop :=
  ∃ before after, xs = before ++ x :: after ∧ p x ∧ ∀ later ∈ after, ¬ p later

namespace LastWith

variable {α : Type} {p : α → Prop} {x : α} {xs : List α}

theorem mem (h : LastWith p x xs) : x ∈ xs := by
  obtain ⟨before, after, rfl, -, -⟩ := h
  exact List.mem_append_right _ List.mem_cons_self

theorem holds (h : LastWith p x xs) : p x := by
  obtain ⟨-, -, -, hx, -⟩ := h
  exact hx

theorem cons (h : LastWith p x xs) (first : α) : LastWith p x (first :: xs) := by
  obtain ⟨before, after, rfl, hx, hafter⟩ := h
  exact ⟨first :: before, after, rfl, hx, hafter⟩

end LastWith

/-- If any item has the property then one of them is the last. -/
theorem exists_lastWith {α : Type} {p : α → Prop} {xs : List α} (h : ∃ x ∈ xs, p x) :
    ∃ x, LastWith p x xs := by
  induction xs with
  | nil =>
    obtain ⟨x, hx, -⟩ := h
    cases hx
  | cons first rest ih =>
    by_cases hrest : ∃ x ∈ rest, p x
    · obtain ⟨x, hx⟩ := ih hrest
      exact ⟨x, hx.cons first⟩
    · -- Nothing after the head has the property, so the head has it.
      obtain ⟨x, hx, hp⟩ := h
      rcases List.mem_cons.mp hx with rfl | hmem
      · exact ⟨x, [], rest, rfl, hp, fun later hlater hp' => hrest ⟨later, hlater, hp'⟩⟩
      · exact absurd ⟨x, hmem, hp⟩ hrest

namespace OrderedMap

variable {α β : Type} [DecidableEq α]

/-! ## §1 Keys -/

theorem eraseDups_append_cons_of_mem {key : α} {before after : List α} (h : key ∈ before) :
    (before ++ key :: after).eraseDups = (before ++ after).eraseDups := by
  rw [List.eraseDups_append, List.eraseDups_append, List.cons_removeAll]
  simp [h]

theorem nodup_eraseDups (keys : List α) : keys.eraseDups.Nodup := by
  induction hlength : keys.length using Nat.strongRecOn generalizing keys with
  | ind n ih =>
    cases keys with
    | nil => exact List.nodup_nil
    | cons key rest =>
      -- What is kept after the head has lost the head, so it is shorter and does not hold it.
      have hshort : (rest.filter fun other => !other == key).length < n := by
        have := List.length_filter_le (fun other => !other == key) rest
        simp only [List.length_cons] at hlength
        omega
      rw [List.eraseDups_cons, List.nodup_cons, List.mem_eraseDups]
      exact ⟨by simp, ih _ hshort _ rfl⟩

theorem eraseDups_eq_self {keys : List α} (h : keys.Nodup) : keys.eraseDups = keys := by
  induction keys with
  | nil => rfl
  | cons key rest ih =>
    rw [List.nodup_cons] at h
    have hfilter : (rest.filter fun other => !other == key) = rest := by
      rw [List.filter_eq_self]
      intro other hother
      have hne : other ≠ key := fun heq => h.1 (heq ▸ hother)
      simpa using hne
    rw [List.eraseDups_cons, hfilter, ih h.2]

/-- **The first write decides the position**: keys stand in the order in which they came first. -/
theorem keys_writeAll {pairs : List (α × β)} {map : OrderedMap α β} (h : (keys map).Nodup) :
    keys (writeAll pairs map) = (keys map ++ keys pairs).eraseDups := by
  induction pairs generalizing map with
  | nil => rw [writeAll_nil, keys_nil, List.append_nil, eraseDups_eq_self h]
  | cons pair rest ih =>
    obtain ⟨key, value⟩ := pair
    rw [writeAll_cons, ih (nodup_keys_insert h), keys_insert, keys_cons]
    split
    next hold => rw [eraseDups_append_cons_of_mem hold]
    next hnew => rw [List.append_assoc, List.singleton_append]

theorem keys_ofPairs (pairs : List (α × β)) : keys (ofPairs pairs) = (keys pairs).eraseDups :=
  keys_writeAll List.nodup_nil

/-! ## §2 Values -/

omit [DecidableEq α] in
theorem exists_lastWith_key {key : α} {pairs : List (α × β)} (h : key ∈ keys pairs) :
    ∃ value, LastWith (fun pair => pair.1 = key) (key, value) pairs := by
  obtain ⟨pair, hpair, hkey⟩ := List.mem_map.mp h
  obtain ⟨⟨k, value⟩, hlast⟩ := exists_lastWith (p := fun pair => pair.1 = key) ⟨pair, hpair, hkey⟩
  obtain rfl : k = key := hlast.holds
  exact ⟨value, hlast⟩

/-- **The last write decides the value.** -/
theorem find?_writeAll_of_lastWith {key : α} {value : β} {pairs : List (α × β)}
    {map : OrderedMap α β} (h : LastWith (fun pair => pair.1 = key) (key, value) pairs) :
    find? key (writeAll pairs map) = some value := by
  obtain ⟨before, after, rfl, -, hafter⟩ := h
  have hnone : find? key after.reverse = none := by
    rw [find?_eq_none_iff, keys, List.map_reverse, List.mem_reverse, List.mem_map]
    rintro ⟨later, hlater, hkey⟩
    exact hafter later hlater hkey
  have hwritten : find? key (before ++ (key, value) :: after).reverse = some value := by
    rw [List.reverse_append, List.reverse_cons, List.append_assoc, find?_append, hnone,
      Option.none_or]
    simp [find?]
  rw [find?_writeAll, hwritten, Option.some_or]

/-- What is not written to keeps its value. -/
theorem find?_writeAll_of_notMem {key : α} {pairs : List (α × β)} {map : OrderedMap α β}
    (h : key ∉ keys pairs) : find? key (writeAll pairs map) = find? key map := by
  have hnone : find? key pairs.reverse = none := by
    rw [find?_eq_none_iff, keys, List.map_reverse, List.mem_reverse]
    exact h
  rw [find?_writeAll, hnone, Option.none_or]

theorem exists_find?_of_mem_keys {key : α} {map : OrderedMap α β} (h : key ∈ keys map) :
    ∃ value, find? key map = some value := by
  cases hfind : find? key map with
  | none => exact absurd h (find?_eq_none_iff.mp hfind)
  | some value => exact ⟨value, rfl⟩

/-- Two maps with the same names for keys are equal if no name has two values. -/
theorem ext_of_values {names : List α} {first second : OrderedMap α β}
    (hfirst : keys first = names.eraseDups) (hsecond : keys second = names.eraseDups)
    (h : ∀ name ∈ names, ∀ value value', find? name first = some value →
      find? name second = some value' → value = value') : first = second := by
  refine ext_of_find? (hfirst.trans hsecond.symm) (hfirst ▸ nodup_eraseDups names)
    fun name hname => ?_
  obtain ⟨value, hvalue⟩ := exists_find?_of_mem_keys hname
  obtain ⟨value', hvalue'⟩ := exists_find?_of_mem_keys (hsecond ▸ hfirst ▸ hname)
  have hmem : name ∈ names := List.mem_eraseDups.mp (hfirst ▸ hname)
  rw [hvalue, hvalue', h name hmem value value' hvalue hvalue']

/-! ## §3 Collected maps -/

/-- `Collects pairs map`: the map has the key of every pair, at the position of the first pair and
with the value of the last pair of that key. -/
structure Collects (pairs : List (α × β)) (map : OrderedMap α β) : Prop where
  keys_eq : keys map = (keys pairs).eraseDups
  find?_eq : ∀ key value, LastWith (fun pair => pair.1 = key) (key, value) pairs →
    find? key map = some value

theorem collects_ofPairs (pairs : List (α × β)) : Collects pairs (ofPairs pairs) where
  keys_eq := keys_ofPairs pairs
  find?_eq := fun _ _ h => find?_writeAll_of_lastWith h

/-- **First position and last value determine a map.** -/
theorem collects_iff {pairs : List (α × β)} {map : OrderedMap α β} :
    Collects pairs map ↔ map = ofPairs pairs := by
  refine ⟨fun h => ?_, fun h => h ▸ collects_ofPairs pairs⟩
  refine ext_of_values h.keys_eq (keys_ofPairs pairs) fun key hkey value value' hvalue hvalue' => ?_
  obtain ⟨written, hlast⟩ := exists_lastWith_key hkey
  have hfirst := h.find?_eq key written hlast
  have hsecond := (collects_ofPairs pairs).find?_eq key written hlast
  rw [hfirst] at hvalue
  rw [hsecond] at hvalue'
  exact Option.some.inj (hvalue.symm.trans hvalue')

end OrderedMap

end TypedSettings

import Mathlib
import TypedSettings.OrderedMap

/-!
# Keys of ordered maps

An ordered map that is filled by writing has every key once, and a list of pairs whose keys are
distinct is already such a map: writing its pairs one after the other gives the list back.

Main facts:
- `OrderedMap.nodup_keys_ofPairs`: keys are distinct after any writes
- `OrderedMap.find?_writeAll`: of several writes to a key the last one counts
- `OrderedMap.ofPairs_eq_self`: distinct keys make `ofPairs` the identity
- `OrderedMap.find?_eq_some_iff`: with distinct keys, look-up is membership
-/

namespace TypedSettings.OrderedMap

variable {α β : Type} [DecidableEq α]

/-! ## §1 Look-up and membership -/

omit [DecidableEq α] in
@[simp] theorem keys_nil : keys ([] : OrderedMap α β) = [] := rfl

omit [DecidableEq α] in
@[simp] theorem keys_cons (key : α) (value : β) (rest : OrderedMap α β) :
    keys ((key, value) :: rest) = key :: keys rest := rfl

omit [DecidableEq α] in
@[simp] theorem keys_append (first second : OrderedMap α β) :
    keys (first ++ second) = keys first ++ keys second := List.map_append

omit [DecidableEq α] in
theorem mem_keys_of_mem {key : α} {value : β} {map : OrderedMap α β} (h : (key, value) ∈ map) :
    key ∈ keys map :=
  List.mem_map_of_mem (f := Prod.fst) h

theorem mem_of_find? {key : α} {value : β} {map : OrderedMap α β}
    (h : find? key map = some value) : (key, value) ∈ map := by
  induction map with
  | nil => simp at h
  | cons entry rest ih =>
    obtain ⟨k, v⟩ := entry
    by_cases hk : k = key
    · simp only [find?, hk, if_true, Option.some.injEq] at h
      rw [hk, h]
      exact List.mem_cons_self
    · simp only [find?, hk, if_false] at h
      exact List.mem_cons_of_mem _ (ih h)

theorem find?_eq_none_iff {key : α} {map : OrderedMap α β} :
    find? key map = none ↔ key ∉ keys map := by
  induction map with
  | nil => simp
  | cons entry rest ih =>
    obtain ⟨k, v⟩ := entry
    by_cases hk : k = key
    · simp [find?, hk]
    · simp [find?, hk, ih, Ne.symm hk]

theorem find?_append (key : α) (first second : OrderedMap α β) :
    find? key (first ++ second) = (find? key first).or (find? key second) := by
  induction first with
  | nil => rfl
  | cons entry rest ih =>
    obtain ⟨k, v⟩ := entry
    by_cases hk : k = key
    · simp [find?, hk]
    · simp only [List.cons_append, find?, hk, if_false, ih]

/-- With distinct keys, looking a key up finds exactly the entry that has it. -/
theorem find?_eq_some_iff {key : α} {value : β} {map : OrderedMap α β} (h : (keys map).Nodup) :
    find? key map = some value ↔ (key, value) ∈ map := by
  refine ⟨mem_of_find?, fun hmem => ?_⟩
  induction map with
  | nil => simp at hmem
  | cons entry rest ih =>
    obtain ⟨k, v⟩ := entry
    rw [keys_cons, List.nodup_cons] at h
    rcases List.mem_cons.mp hmem with heq | hrest
    · obtain ⟨rfl, rfl⟩ := Prod.mk.inj heq
      simp [find?]
    · have hne : k ≠ key := fun hk => h.1 (hk ▸ mem_keys_of_mem hrest)
      simp only [find?, hne, if_false]
      exact ih h.2 hrest

theorem find?_reverse {key : α} {map : OrderedMap α β} (h : (keys map).Nodup) :
    find? key map.reverse = find? key map := by
  have hreverse : (keys map.reverse).Nodup := by
    rw [keys, List.map_reverse]
    exact List.pairwise_reverse.mpr (h.imp Ne.symm)
  refine Option.ext fun value => ?_
  rw [find?_eq_some_iff hreverse, find?_eq_some_iff h, List.mem_reverse]

/-- Maps with the same distinct keys in the same order are told apart by look-up. -/
theorem ext_of_find? {first second : OrderedMap α β} (hkeys : keys first = keys second)
    (hnodup : (keys first).Nodup) (h : ∀ key ∈ keys first, find? key first = find? key second) :
    first = second := by
  induction first generalizing second with
  | nil => exact (List.map_eq_nil_iff.mp hkeys.symm).symm
  | cons entry rest ih =>
    obtain ⟨k, v⟩ := entry
    cases second with
    | nil => cases hkeys
    | cons entry' rest' =>
      obtain ⟨k', v'⟩ := entry'
      rw [keys_cons, keys_cons, List.cons.injEq] at hkeys
      obtain ⟨rfl, hrest⟩ := hkeys
      rw [keys_cons, List.nodup_cons] at hnodup
      have hv : v = v' := by
        have := h k List.mem_cons_self
        simpa [find?] using this
      subst hv
      -- Below the head nothing is found under its key, so look-up there is look-up in the rest.
      rw [ih hrest hnodup.2 fun key hkey => ?_]
      have hne : k ≠ key := fun hk => hnodup.1 (hk ▸ hkey)
      simpa only [find?, hne, if_false] using h key (List.mem_cons_of_mem _ hkey)

/-! ## §2 Writing -/

theorem mem_of_mem_insert {key : α} {value : β} {map : OrderedMap α β} {entry : α × β}
    (h : entry ∈ insert key value map) : entry = (key, value) ∨ entry ∈ map := by
  induction map with
  | nil => exact Or.inl (List.mem_singleton.mp h)
  | cons head rest ih =>
    obtain ⟨k, v⟩ := head
    by_cases hk : k = key
    · simp only [insert, hk, if_true] at h
      rcases List.mem_cons.mp h with heq | hrest
      · exact Or.inl heq
      · exact Or.inr (List.mem_cons_of_mem _ hrest)
    · simp only [insert, hk, if_false] at h
      rcases List.mem_cons.mp h with heq | hrest
      · exact Or.inr (heq ▸ List.mem_cons_self)
      · exact (ih hrest).imp_right (List.mem_cons_of_mem _)

/-- A new key is written at the end. -/
theorem insert_of_notMem {key : α} {value : β} {map : OrderedMap α β} (h : key ∉ keys map) :
    insert key value map = map ++ [(key, value)] := by
  induction map with
  | nil => rfl
  | cons entry rest ih =>
    obtain ⟨k, v⟩ := entry
    rw [keys_cons, List.mem_cons, not_or] at h
    simp only [insert, Ne.symm h.1, if_false, List.cons_append, ih h.2]

/-- An old key is written where it first stands. -/
theorem insert_append_cons {key : α} {value old : β} {before after : OrderedMap α β}
    (h : key ∉ keys before) :
    insert key value (before ++ (key, old) :: after) = before ++ (key, value) :: after := by
  induction before with
  | nil => simp [insert]
  | cons entry rest ih =>
    obtain ⟨k, v⟩ := entry
    rw [keys_cons, List.mem_cons, not_or] at h
    simp only [List.cons_append, insert, Ne.symm h.1, if_false, ih h.2]

theorem nodup_keys_insert {key : α} {value : β} {map : OrderedMap α β} (h : (keys map).Nodup) :
    (keys (insert key value map)).Nodup := by
  rw [keys_insert]
  split
  next => exact h
  next hnew =>
    rw [List.nodup_append]
    refine ⟨h, by simp, ?_⟩
    intro k hk k' hk' heq
    exact hnew (List.mem_singleton.mp hk' ▸ heq ▸ hk)

/-! ## §3 Writing many pairs -/

/-- Writes pairs in order. -/
def writeAll (pairs : List (α × β)) (map : OrderedMap α β) : OrderedMap α β :=
  pairs.foldl (fun map pair => insert pair.1 pair.2 map) map

@[simp] theorem writeAll_nil (map : OrderedMap α β) : writeAll [] map = map := rfl

@[simp] theorem writeAll_cons (key : α) (value : β) (rest : List (α × β)) (map : OrderedMap α β) :
    writeAll ((key, value) :: rest) map = writeAll rest (insert key value map) := rfl

theorem nodup_keys_writeAll {pairs : List (α × β)} {map : OrderedMap α β} (h : (keys map).Nodup) :
    (keys (writeAll pairs map)).Nodup := by
  induction pairs generalizing map with
  | nil => exact h
  | cons pair rest ih => exact ih (nodup_keys_insert h)

theorem nodup_keys_ofPairs (pairs : List (α × β)) : (keys (ofPairs pairs)).Nodup :=
  nodup_keys_writeAll List.nodup_nil

theorem mem_of_mem_writeAll {pairs : List (α × β)} {map : OrderedMap α β} {entry : α × β}
    (h : entry ∈ writeAll pairs map) : entry ∈ pairs ∨ entry ∈ map := by
  induction pairs generalizing map with
  | nil => exact Or.inr h
  | cons pair rest ih =>
    rcases ih h with hrest | hmap
    · exact Or.inl (List.mem_cons_of_mem _ hrest)
    · rcases mem_of_mem_insert hmap with rfl | hold
      · exact Or.inl List.mem_cons_self
      · exact Or.inr hold

/-- Every entry of a map written from pairs is one of the pairs. -/
theorem mem_of_mem_ofPairs {pairs : List (α × β)} {entry : α × β} (h : entry ∈ ofPairs pairs) :
    entry ∈ pairs :=
  (mem_of_mem_writeAll h).resolve_right List.not_mem_nil

/-- **The last writer decides**: a key holds what was written to it last, and keeps what it held if
nothing was written to it. -/
theorem find?_writeAll (key : α) (pairs : List (α × β)) (map : OrderedMap α β) :
    find? key (writeAll pairs map) = (find? key pairs.reverse).or (find? key map) := by
  induction pairs generalizing map with
  | nil => rfl
  | cons pair rest ih =>
    obtain ⟨k, v⟩ := pair
    rw [writeAll_cons, ih, find?_insert, List.reverse_cons, find?_append, Option.or_assoc]
    by_cases hk : k = key <;> simp [find?, hk]

/-- What a key holds after pairs have been written is one of the pairs, or it was there before and
none of the pairs has the key. -/
theorem mem_or_find?_of_find?_writeAll {key : α} {value : β} {pairs : List (α × β)}
    {map : OrderedMap α β} (h : find? key (writeAll pairs map) = some value) :
    (key, value) ∈ pairs ∨ key ∉ keys pairs ∧ find? key map = some value := by
  rw [find?_writeAll] at h
  cases hwritten : find? key pairs.reverse with
  | some written =>
    rw [hwritten, Option.some_or] at h
    cases h
    exact Or.inl (List.mem_reverse.mp (mem_of_find? hwritten))
  | none =>
    rw [hwritten, Option.none_or] at h
    rw [find?_eq_none_iff, keys, List.map_reverse, List.mem_reverse] at hwritten
    exact Or.inr ⟨hwritten, h⟩

/-- Writing to keys that are there keeps all keys in place. -/
theorem keys_writeAll_of_subset {pairs : List (α × β)} {map : OrderedMap α β}
    (h : ∀ key ∈ keys pairs, key ∈ keys map) : keys (writeAll pairs map) = keys map := by
  induction pairs generalizing map with
  | nil => rfl
  | cons pair rest ih =>
    obtain ⟨k, v⟩ := pair
    have hkeys : keys (insert k v map) = keys map := by
      rw [keys_insert, if_pos (h k List.mem_cons_self)]
    rw [writeAll_cons, ih, hkeys]
    intro key hkey
    rw [hkeys]
    exact h key (List.mem_cons_of_mem _ hkey)

/-- Pairs with new and distinct keys are appended. -/
theorem writeAll_eq_append {pairs : List (α × β)} {map : OrderedMap α β}
    (h : (keys (map ++ pairs)).Nodup) : writeAll pairs map = map ++ pairs := by
  induction pairs generalizing map with
  | nil => simp
  | cons pair rest ih =>
    obtain ⟨key, value⟩ := pair
    have hnew : key ∉ keys map := by
      rw [keys_append, keys_cons, List.nodup_append] at h
      exact fun hmem => h.2.2 key hmem key List.mem_cons_self rfl
    rw [writeAll_cons, insert_of_notMem hnew, ih (by simpa using h)]
    simp

/-- **Distinct keys are already a map**: writing the pairs in order gives the pairs back. -/
theorem ofPairs_eq_self {pairs : List (α × β)} (h : (keys pairs).Nodup) :
    ofPairs pairs = pairs :=
  writeAll_eq_append h

/-- Writing some entries of a map over another map with the same keys gives the map back, if the
other map already has the remaining entries. -/
theorem writeAll_filter {p : α × β → Bool} {map start : OrderedMap α β} (h : (keys map).Nodup)
    (hkeys : keys start = keys map) (hrest : ∀ entry ∈ map, p entry = false → entry ∈ start) :
    writeAll (map.filter p) start = map := by
  have hsublist : (keys (map.filter p)).Sublist (keys map) := List.filter_sublist.map _
  have hwritten : keys (writeAll (map.filter p) start) = keys map := by
    rw [keys_writeAll_of_subset, hkeys]
    intro key hkey
    exact hkeys ▸ hsublist.subset hkey
  have hnodup : (keys (map.filter p)).Nodup := h.sublist hsublist
  -- The keys are in place, so it is enough to look every entry of the map up.
  refine ext_of_find? hwritten (hwritten ▸ h) fun key hkey => ?_
  obtain ⟨entry, hentry, rfl⟩ := List.mem_map.mp (hwritten ▸ hkey)
  rw [find?_writeAll, find?_reverse hnodup, (find?_eq_some_iff h).mpr hentry]
  cases hp : p entry with
  | true => rw [(find?_eq_some_iff hnodup).mpr (List.mem_filter.mpr ⟨hentry, hp⟩), Option.some_or]
  | false =>
    have hnone : find? entry.1 (map.filter p) = none := by
      rw [find?_eq_none_iff]
      intro hmem
      obtain ⟨other, hother, hsame⟩ := List.mem_map.mp hmem
      obtain ⟨hmap, hwrite⟩ := List.mem_filter.mp hother
      -- The other entry has the same key, so it is the same entry and not written.
      have hfound : find? entry.1 map = some other.2 :=
        (find?_eq_some_iff h).mpr (by rw [← hsame]; exact hmap)
      have hvalue := hfound.symm.trans ((find?_eq_some_iff h).mpr hentry)
      have heq : other = entry := Prod.ext hsame (Option.some.inj hvalue)
      rw [heq, hp] at hwrite
      cases hwrite
    rw [hnone, Option.none_or]
    exact (find?_eq_some_iff (hkeys ▸ h)).mpr (hrest entry hentry hp)

end TypedSettings.OrderedMap

import Mathlib
import TypedSettings.Proofs.Document.Derivation
import TypedSettings.Proofs.OrderedMap
import TypedSettings.Reading.Basic

/-!
# Regular documents

What reading a text guarantees of the document it returns, whatever the text: no object has two
members of one key, and no more than `depthLimit` arrays and objects lie inside each other.

Main facts:
- `Value.regular_of_parse`: a parsed document is regular
- `Value.UniqueKeys.lookup_member`: the path of an object and a key lead to the member of that key
-/

namespace TypedSettings

namespace Value

/-! ## §1 Documents without repeated keys -/

/-- No object in the document has two members of one key. -/
inductive UniqueKeys : Value → Prop where
  | null : UniqueKeys .null
  | boolean (b : Bool) : UniqueKeys (.boolean b)
  | number (n : Number) : UniqueKeys (.number n)
  | string (text : String) : UniqueKeys (.string text)
  | array {items : List Value} (items_unique : ∀ item ∈ items, UniqueKeys item) :
      UniqueKeys (.array items)
  | object {members : List (String × Value)} (keys_nodup : (OrderedMap.keys members).Nodup)
      (members_unique : ∀ member ∈ members, UniqueKeys member.2) :
      UniqueKeys (.object members)

namespace UniqueKeys

theorem of_mem_object {members : List (String × Value)} {member : String × Value}
    (h : UniqueKeys (.object members)) (hmem : member ∈ members) : UniqueKeys member.2 := by
  cases h with
  | object _ members_unique => exact members_unique member hmem

theorem keys_nodup {members : List (String × Value)} (h : UniqueKeys (.object members)) :
    (OrderedMap.keys members).Nodup := by
  cases h with
  | object keys_nodup _ => exact keys_nodup

/-- A member that an object has is the one that is found under its key. -/
theorem member?_eq_some {members : List (String × Value)} {key : String} {value : Value}
    (h : UniqueKeys (.object members)) (hmem : (key, value) ∈ members) :
    (Value.object members).member? key = some value :=
  (OrderedMap.find?_eq_some_iff h.keys_nodup).mpr hmem

/-- The path of an object, continued by the key of a member, leads to that member. -/
theorem lookup_member {document : Value} {path : KeyPath} {members : List (String × Value)}
    {key : String} {value : Value} (h : UniqueKeys (.object members))
    (found : document.lookup path = some (.object members)) (hmem : (key, value) ∈ members) :
    document.lookup (path ++ [key]) = some value := by
  rw [lookup_append, found, Option.bind_some, lookup, h.member?_eq_some hmem]
  rfl

end UniqueKeys

/-! ## §2 Depth -/

theorem depth_le_of_mem_items {items : List Value} {item : Value} (h : item ∈ items) :
    item.depth ≤ itemsDepth items := by
  induction items with
  | nil => simp at h
  | cons first rest ih =>
    rw [itemsDepth]
    rcases List.mem_cons.mp h with rfl | hrest
    · exact Nat.le_max_left _ _
    · exact Nat.le_trans (ih hrest) (Nat.le_max_right _ _)

theorem itemsDepth_le_iff {items : List Value} {limit : Nat} :
    itemsDepth items ≤ limit ↔ ∀ item ∈ items, item.depth ≤ limit := by
  refine ⟨fun h item hmem => Nat.le_trans (depth_le_of_mem_items hmem) h, fun h => ?_⟩
  induction items with
  | nil => exact Nat.zero_le _
  | cons first rest ih =>
    rw [itemsDepth]
    exact Nat.max_le.mpr ⟨h first List.mem_cons_self,
      ih fun item hmem => h item (List.mem_cons_of_mem _ hmem)⟩

theorem membersDepth_eq_itemsDepth (members : List (String × Value)) :
    membersDepth members = itemsDepth (members.map Prod.snd) := by
  induction members with
  | nil => rfl
  | cons member rest ih =>
    obtain ⟨key, value⟩ := member
    rw [membersDepth, List.map_cons, itemsDepth, ih]

theorem membersDepth_le_iff {members : List (String × Value)} {limit : Nat} :
    membersDepth members ≤ limit ↔ ∀ member ∈ members, member.2.depth ≤ limit := by
  rw [membersDepth_eq_itemsDepth, itemsDepth_le_iff]
  simp only [List.mem_map, forall_exists_index, and_imp, forall_apply_eq_imp_iff₂]

/-! ## §3 What reading returns -/

/-- A document without repeated keys that stays within a depth limit. -/
structure Regular (limit : Nat) (value : Value) : Prop where
  uniqueKeys : value.UniqueKeys
  depth_le : value.depth ≤ limit

namespace Regular

theorem array {limit : Nat} {items : List Value} (h : ∀ item ∈ items, Regular limit item) :
    Regular (limit + 1) (.array items) where
  uniqueKeys := .array fun item hmem => (h item hmem).uniqueKeys
  depth_le := Nat.succ_le_succ (itemsDepth_le_iff.mpr fun item hmem => (h item hmem).depth_le)

/-- Members read one after the other make a regular object, also if they repeat a key. -/
theorem object {limit : Nat} {members : List (String × Value)}
    (h : ∀ member ∈ members, Regular limit member.2) :
    Regular (limit + 1) (.object (OrderedMap.ofPairs members)) where
  uniqueKeys := .object (OrderedMap.nodup_keys_ofPairs members) fun member hmem =>
    (h member (OrderedMap.mem_of_mem_ofPairs hmem)).uniqueKeys
  depth_le := Nat.succ_le_succ (membersDepth_le_iff.mpr fun member hmem =>
    (h member (OrderedMap.mem_of_mem_ofPairs hmem)).depth_le)

/-- What lies in an array has one level less. -/
theorem of_array {limit : Nat} {items : List Value} (h : Regular limit (.array items)) :
    ∃ inner, limit = inner + 1 ∧ ∀ item ∈ items, Regular inner item := by
  obtain ⟨⟨⟩, hdepth⟩ := h
  next hunique =>
  rw [depth] at hdepth
  obtain ⟨inner, rfl⟩ : ∃ n, limit = n + 1 := Nat.exists_eq_add_one_of_ne_zero (by omega)
  exact ⟨inner, rfl, fun item hmem =>
    ⟨hunique item hmem, itemsDepth_le_iff.mp (Nat.le_of_succ_le_succ hdepth) item hmem⟩⟩

theorem of_object {limit : Nat} {members : List (String × Value)}
    (h : Regular limit (.object members)) :
    ∃ inner, limit = inner + 1 ∧ ∀ member ∈ members, Regular inner member.2 := by
  obtain ⟨hunique, hdepth⟩ := h
  rw [depth] at hdepth
  obtain ⟨inner, rfl⟩ : ∃ n, limit = n + 1 := Nat.exists_eq_add_one_of_ne_zero (by omega)
  exact ⟨inner, rfl, fun member hmem => ⟨hunique.of_mem_object hmem,
    membersDepth_le_iff.mp (Nat.le_of_succ_le_succ hdepth) member hmem⟩⟩

end Regular

mutual

theorem Derives.regular {depth : Nat} {tokens rest : List Token} {value : Value} :
    Derives depth tokens value rest → Regular depth value
  | .null => ⟨.null, Nat.zero_le _⟩
  | .boolean b => ⟨.boolean b, Nat.zero_le _⟩
  | .number n => ⟨.number n, Nat.zero_le _⟩
  | .string text => ⟨.string text, Nat.zero_le _⟩
  | .array inner => .array inner.regular
  | .object inner => .object inner.regular

theorem DerivesItems.regular {depth : Nat} {tokens rest : List Token} {items : List Value} :
    DerivesItems depth tokens items rest → ∀ item ∈ items, Regular depth item
  | .close => nofun
  | .last first => List.forall_mem_singleton.mpr first.regular
  | .more first others => List.forall_mem_cons.mpr ⟨first.regular, others.regular⟩

theorem DerivesMembers.regular {depth : Nat} {tokens rest : List Token}
    {members : List (String × Value)} :
    DerivesMembers depth tokens members rest → ∀ member ∈ members, Regular depth member.2
  | .close => nofun
  | .last first => List.forall_mem_singleton.mpr first.regular
  | .more first others => List.forall_mem_cons.mpr ⟨first.regular, others.regular⟩

end

/-- **Parsed documents are regular**, whatever the text repeats. -/
theorem regular_of_parse {text : String} {value : Value} (h : parse text = .ok value) :
    Regular depthLimit value :=
  (parse_eq_ok_iff.mp h).regular

end Value

end TypedSettings

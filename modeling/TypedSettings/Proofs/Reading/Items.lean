import Mathlib
import TypedSettings.Reading.Readable

/-!
# Reading items

Items are read one after the other, so the error of a list is that of its first item that cannot be
read, at the index of that item; a list without such an item is read item by item.
-/

namespace TypedSettings

namespace Readable

variable {α β : Type} {read : String → Value → Except ReadError α}

/-! ## §1 One item -/

theorem readItems_cons_eq_ok_iff {path : String} {index : Nat} {first : Value} {rest : List Value}
    {xs : List α} :
    readItems read path index (first :: rest) = .ok xs ↔
      ∃ x others, read (itemPath path index) first = .ok x ∧
        readItems read path (index + 1) rest = .ok others ∧ xs = x :: others := by
  rw [readItems]
  cases read (itemPath path index) first with
  | error e => simp
  | ok x =>
    cases readItems read path (index + 1) rest with
    | error e => simp
    | ok others => simp [eq_comm]

theorem readItems_cons_eq_error_iff {path : String} {index : Nat} {first : Value}
    {rest : List Value} {e : ReadError} :
    readItems read path index (first :: rest) = .error e ↔
      read (itemPath path index) first = .error e ∨
        ∃ x, read (itemPath path index) first = .ok x ∧
          readItems read path (index + 1) rest = .error e := by
  rw [readItems]
  cases read (itemPath path index) first with
  | error e' => simp
  | ok x =>
    cases readItems read path (index + 1) rest with
    | error e' => simp
    | ok others => simp

/-! ## §2 All items -/

/-- **The first bad item decides**: reading items fails exactly with the error of an item before
which every item is read. -/
theorem readItems_eq_error_iff {path : String} {index : Nat} {items : List Value}
    {e : ReadError} :
    readItems read path index items = .error e ↔
      ∃ before item after, items = before ++ item :: after ∧
        (∀ i, ∀ h : i < before.length, ∃ x, read (itemPath path (index + i)) before[i] = .ok x) ∧
        read (itemPath path (index + before.length)) item = .error e := by
  induction items generalizing index with
  | nil => simp [readItems]
  | cons first rest ih =>
    -- Items of the rest are counted from the next index on.
    have shift : ∀ i, index + (i + 1) = index + 1 + i := fun i => by omega
    rw [readItems_cons_eq_error_iff]
    constructor
    · rintro (hfirst | ⟨x, hfirst, hrest⟩)
      · exact ⟨[], first, rest, rfl, nofun, hfirst⟩
      · obtain ⟨before, item, after, rfl, hbefore, hitem⟩ := ih.mp hrest
        refine ⟨first :: before, item, after, rfl, fun i hi => ?_, ?_⟩
        · cases i with
          | zero => exact ⟨x, hfirst⟩
          | succ i =>
            rw [shift]
            exact hbefore i (Nat.lt_of_succ_lt_succ hi)
        · rwa [List.length_cons, shift]
    · rintro ⟨before, item, after, hsplit, hbefore, hitem⟩
      cases before with
      | nil =>
        obtain ⟨rfl, -⟩ := List.cons.inj hsplit
        exact Or.inl hitem
      | cons head before =>
        rw [List.cons_append, List.cons.injEq] at hsplit
        obtain ⟨rfl, rfl⟩ := hsplit
        obtain ⟨x, hx⟩ := hbefore 0 (Nat.succ_pos _)
        refine Or.inr ⟨x, hx, ih.mpr ⟨before, item, after, rfl, fun i hi => ?_, ?_⟩⟩
        · have hsucc := hbefore (i + 1) (Nat.succ_lt_succ hi)
          rwa [shift, List.getElem_cons_succ] at hsucc
        · rwa [List.length_cons, shift] at hitem

/-- Items that are read one by one are read as a list. -/
theorem readItems_eq_ok {path : String} {index : Nat} {items : List Value} {f : Value → α}
    (h : ∀ item ∈ items, ∀ path, read path item = .ok (f item)) :
    readItems read path index items = .ok (items.map f) := by
  induction items generalizing index with
  | nil => rfl
  | cons first rest ih =>
    have hfirst := h first List.mem_cons_self (itemPath path index)
    have hrest : readItems read path (index + 1) rest = .ok (rest.map f) :=
      ih fun item hitem => h item (List.mem_cons_of_mem _ hitem)
    simp only [readItems, hfirst, hrest, List.map_cons]

/-- Every item that has been read comes from an item of the list. -/
theorem exists_of_mem_readItems {path : String} {index : Nat} {items : List Value} {xs : List α}
    (h : readItems read path index items = .ok xs) :
    ∀ x ∈ xs, ∃ item ∈ items, ∃ itemPath, read itemPath item = .ok x := by
  induction items generalizing index xs with
  | nil =>
    cases h
    exact nofun
  | cons first rest ih =>
    obtain ⟨x, others, hfirst, hrest, rfl⟩ := readItems_cons_eq_ok_iff.mp h
    intro y hy
    rcases List.mem_cons.mp hy with rfl | hy
    · exact ⟨first, List.mem_cons_self, _, hfirst⟩
    · obtain ⟨item, hitem, hread⟩ := ih hrest y hy
      exact ⟨item, List.mem_cons_of_mem _ hitem, hread⟩

/-- A change of the results can be made while reading or afterwards. -/
theorem readItems_map (f : α → β) (path : String) (index : Nat) (items : List Value) :
    readItems (fun path value => (read path value).map f) path index items =
      (readItems read path index items).map (List.map f) := by
  induction items generalizing index with
  | nil => rfl
  | cons first rest ih =>
    simp only [readItems]
    rw [ih]
    cases hfirst : read (itemPath path index) first with
    | error e => rfl
    | ok x =>
      cases hrest : readItems read path (index + 1) rest with
      | error e => rfl
      | ok xs => rfl

end Readable

end TypedSettings

import Mathlib
import TypedSettings.Proofs.OrderedMap
import TypedSettings.Reading.Basic

/-!
# Edited documents

Two documents that differ in one place: a member that one of them lacks or that has another value,
or an object whose members stand in another order. A path that leads past that place finds the same
in both.

Main facts:
- `Value.Within`, `Value.Replaced`: documents that differ in one object, and in one member
- `Value.Within.lookup_eq`, `Value.Replaced.lookup_eq`: what is found in both
-/

namespace TypedSettings

namespace OrderedMap

variable {α β : Type} [DecidableEq α]

/-- Among different keys the order does not matter. -/
theorem find?_perm {first second : OrderedMap α β} (hperm : first.Perm second)
    (h : (keys first).Nodup) (key : α) : find? key first = find? key second := by
  have hsecond : (keys second).Nodup := (hperm.map Prod.fst).nodup_iff.mp h
  ext value
  rw [find?_eq_some_iff h, find?_eq_some_iff hsecond, hperm.mem_iff]

end OrderedMap

namespace Value

/-- A leaf is left by no path. -/
theorem lookup_cons_of_leaf {value : Value} (h : value.kind ≠ .object) {key : String}
    {rest : KeyPath} : value.lookup (key :: rest) = none := by
  cases value with
  | object members => exact absurd rfl h
  | _ => rfl

/-! ## §1 Differences of one object -/

/-- The members differ in `key` alone: it is added, removed, or given another value. -/
inductive MemberEdit (key : String) : List (String × Value) → List (String × Value) → Prop where
  | added {before after : List (String × Value)} {value : Value} :
      MemberEdit key (before ++ after) (before ++ (key, value) :: after)
  | removed {before after : List (String × Value)} {value : Value} :
      MemberEdit key (before ++ (key, value) :: after) (before ++ after)
  | changed {before after : List (String × Value)} {value value' : Value} :
      MemberEdit key (before ++ (key, value) :: after) (before ++ (key, value') :: after)

/-- The members are the same in another order. -/
structure Reordered (members members' : List (String × Value)) : Prop where
  nodup : (OrderedMap.keys members).Nodup
  perm : members.Perm members'

theorem MemberEdit.find?_eq {key other : String} {members members' : List (String × Value)}
    (h : MemberEdit key members members') (hother : other ≠ key) :
    OrderedMap.find? other members = OrderedMap.find? other members' := by
  -- At any other key the entry of `key` is passed over.
  have hskip : ∀ (value : Value) rest, OrderedMap.find? other ((key, value) :: rest) =
      OrderedMap.find? other rest := fun value rest => if_neg (Ne.symm hother)
  cases h <;> simp only [OrderedMap.find?_append, hskip]

/-! ## §2 Documents that differ in one object -/

/-- `Within Differ path first second`: the objects at `path` have members that differ as `Differ`
says, and the documents are the same otherwise. -/
inductive Within (Differ : List (String × Value) → List (String × Value) → Prop) :
    KeyPath → Value → Value → Prop where
  | here {members members' : List (String × Value)} (h : Differ members members') :
      Within Differ [] (.object members) (.object members')
  | inside {key : String} {path : KeyPath} {before after : List (String × Value)}
      {value value' : Value} (first : key ∉ OrderedMap.keys before)
      (h : Within Differ path value value') :
      Within Differ (key :: path) (.object (before ++ (key, value) :: after))
        (.object (before ++ (key, value') :: after))

/-- A path that neither ends on the way to the object nor goes on to a member that differs finds the
same in both documents. -/
theorem Within.lookup_eq {Differ : List (String × Value) → List (String × Value) → Prop}
    (touched : String → Prop)
    (hsame : ∀ {members members'}, Differ members members' → ∀ key, ¬ touched key →
      OrderedMap.find? key members = OrderedMap.find? key members')
    {path other : KeyPath} {first second : Value} (h : Within Differ path first second)
    (hends : ¬ other <+: path) (hpast : ∀ key, touched key → ¬ path ++ [key] <+: other) :
    first.lookup other = second.lookup other := by
  induction h generalizing other with
  | @here members members' h =>
    cases other with
    | nil => exact absurd List.nil_prefix hends
    | cons key rest =>
      have hkey : ¬ touched key := fun htouched =>
        hpast key htouched (List.cons_prefix_cons.mpr ⟨rfl, List.nil_prefix⟩)
      simp only [lookup, member?, hsame h key hkey]
  | @inside key path before after value value' hfirst _ ih =>
    cases other with
    | nil => exact absurd List.nil_prefix hends
    | cons key' rest =>
      have hbefore : OrderedMap.find? key before = none := OrderedMap.find?_eq_none_iff.mpr hfirst
      by_cases hkey : key' = key
      · -- Both documents are entered at the same member.
        subst hkey
        have hinner : value.lookup rest = value'.lookup rest := by
          refine ih (fun hprefix => hends ?_) fun touchedKey htouched hprefix => ?_
          · exact List.cons_prefix_cons.mpr ⟨rfl, hprefix⟩
          · exact hpast touchedKey htouched (List.cons_prefix_cons.mpr ⟨rfl, hprefix⟩)
        simp only [lookup, member?, OrderedMap.find?_append, hbefore, Option.none_or,
          OrderedMap.find?, if_true, hinner]
      · have hedit : MemberEdit key (before ++ (key, value) :: after)
            (before ++ (key, value') :: after) := .changed
        simp only [lookup, member?, hedit.find?_eq hkey]

/-- Where members are only reordered, everything below the object is found as before. -/
theorem Within.lookup_eq_of_reordered {path other : KeyPath} {first second : Value}
    (h : Within Reordered path first second) (hends : ¬ other <+: path) :
    first.lookup other = second.lookup other :=
  h.lookup_eq (fun _ => False)
    (fun hreordered key _ => OrderedMap.find?_perm hreordered.perm hreordered.nodup key) hends
    fun _ htouched => htouched.elim

/-! ## §3 Documents that differ in one member -/

/-- Neither path leads to, or through, what the other leads to. -/
def Apart (path other : KeyPath) : Prop := ¬ path <+: other ∧ ¬ other <+: path

/-- `Replaced path first second`: the documents are the same except for what stands at `path`, if
anything does. -/
inductive Replaced : KeyPath → Value → Value → Prop where
  | root {first second : Value} : Replaced [] first second
  | member {path : KeyPath} {key : String} {first second : Value}
      (h : Within (MemberEdit key) path first second) : Replaced (path ++ [key]) first second

/-- **What is replaced is not seen from paths apart.** -/
theorem Replaced.lookup_eq {path other : KeyPath} {first second : Value}
    (h : Replaced path first second) (hapart : Apart path other) :
    first.lookup other = second.lookup other := by
  obtain ⟨hpast, hends⟩ := hapart
  cases h with
  | root => exact absurd List.nil_prefix hpast
  | @member path key _ _ h =>
    refine h.lookup_eq (· = key) (fun hedit other hother => hedit.find?_eq hother)
      (fun hprefix => hends ?_) fun touchedKey htouched => ?_
    · exact hprefix.trans (List.prefix_append path [key])
    · exact htouched ▸ hpast

end Value

end TypedSettings

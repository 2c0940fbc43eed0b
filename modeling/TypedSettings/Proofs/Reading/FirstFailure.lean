import Mathlib

/-!
# First failures

Several things are done in order, and the first of them that fails decides the error. What comes
after it is not looked at, and what comes before it cannot fail.

Main facts:
- `FirstFailure`: the first item of a list that fails, and its error
- `FirstFailure.cons_iff`, `FirstFailure.append_iff`: lists are searched from the front
- `FirstFailure.exists_iff`: there is a first failure exactly if anything fails
-/

namespace TypedSettings

/-- `FirstFailure Fails xs e`: the first item of the list that fails at all fails with `e`. -/
def FirstFailure {α ε : Type} (Fails : α → ε → Prop) (xs : List α) (e : ε) : Prop :=
  ∃ before x after, xs = before ++ x :: after ∧ (∀ earlier ∈ before, ∀ e', ¬ Fails earlier e') ∧
    Fails x e

namespace FirstFailure

variable {α ε : Type} {Fails : α → ε → Prop} {xs ys : List α} {x : α} {e : ε}

theorem not_nil : ¬ FirstFailure Fails [] e := by
  rintro ⟨before, x, after, hsplit, -, -⟩
  cases before <;> cases hsplit

/-- The head fails, or it does not and the first failure comes later. -/
theorem cons_iff : FirstFailure Fails (x :: xs) e ↔
    Fails x e ∨ ((∀ e', ¬ Fails x e') ∧ FirstFailure Fails xs e) := by
  constructor
  · rintro ⟨before, y, after, hsplit, hbefore, hy⟩
    cases before with
    | nil =>
      cases hsplit
      exact Or.inl hy
    | cons first before =>
      cases hsplit
      obtain ⟨hfirst, hbefore⟩ := List.forall_mem_cons.mp hbefore
      exact Or.inr ⟨hfirst, before, y, after, rfl, hbefore, hy⟩
  · rintro (hx | ⟨hx, before, y, after, rfl, hbefore, hy⟩)
    · exact ⟨[], x, xs, rfl, nofun, hx⟩
    · exact ⟨x :: before, y, after, rfl, List.forall_mem_cons.mpr ⟨hx, hbefore⟩, hy⟩

theorem singleton_iff : FirstFailure Fails [x] e ↔ Fails x e := by
  rw [cons_iff]
  exact ⟨fun h => h.resolve_right fun h' => not_nil h'.2, Or.inl⟩

/-- There is a first failure exactly if anything fails. -/
theorem exists_iff : (∃ e, FirstFailure Fails xs e) ↔ ∃ x ∈ xs, ∃ e, Fails x e := by
  constructor
  · rintro ⟨e, before, x, after, rfl, -, hx⟩
    exact ⟨x, List.mem_append_right _ List.mem_cons_self, e, hx⟩
  · rintro ⟨x, hmem, e, hx⟩
    induction xs with
    | nil => cases hmem
    | cons first rest ih =>
      -- Either the head already fails, or it is passed over.
      by_cases hfirst : ∃ e', Fails first e'
      · obtain ⟨e', he'⟩ := hfirst
        exact ⟨e', cons_iff.mpr (Or.inl he')⟩
      · rcases List.mem_cons.mp hmem with rfl | hrest
        · exact absurd ⟨e, hx⟩ hfirst
        · obtain ⟨e', he'⟩ := ih hrest
          exact ⟨e', cons_iff.mpr (Or.inr ⟨fun e'' h => hfirst ⟨e'', h⟩, he'⟩)⟩

theorem append_iff : FirstFailure Fails (xs ++ ys) e ↔
    FirstFailure Fails xs e ∨ ((∀ e', ¬ FirstFailure Fails xs e') ∧ FirstFailure Fails ys e) := by
  induction xs with
  | nil => simp [not_nil]
  | cons first rest ih =>
    simp only [List.cons_append, cons_iff, ih]
    constructor
    · rintro (hfirst | ⟨hfirst, hrest | ⟨hrest, hys⟩⟩)
      · exact Or.inl (Or.inl hfirst)
      · exact Or.inl (Or.inr ⟨hfirst, hrest⟩)
      · refine Or.inr ⟨fun e' h => ?_, hys⟩
        rcases h with h | ⟨-, h⟩
        · exact hfirst e' h
        · exact hrest e' h
    · rintro ((hfirst | ⟨hfirst, hrest⟩) | ⟨hnone, hys⟩)
      · exact Or.inl hfirst
      · exact Or.inr ⟨hfirst, Or.inl hrest⟩
      · have hfirst : ∀ e', ¬ Fails first e' := fun e' h => hnone e' (Or.inl h)
        exact Or.inr ⟨hfirst, Or.inr ⟨fun e' h => hnone e' (Or.inr ⟨hfirst, h⟩), hys⟩⟩

end FirstFailure

end TypedSettings

import Mathlib
import TypedSettings.Generated.Simulation
import TypedSettings.Proofs.OrderedMap

/-!
# Runs of initializers

A run reads and writes in turn, but what is read does not depend on what has been written. So a run
can be split: first all steps are evaluated in order, up to the first that fails, then all results
are written in order. What the map held before matters only where nothing is written.

Main facts:
- `Step.writes`: the results of steps in order
- `Step.run_eq_map_writeAll`: a run writes these results to the map it starts from
- `Step.run_congr`: two maps that differ only where steps write are the same to a run
-/

namespace TypedSettings

/-! ## §1 Results of steps -/

namespace Node

theorem map_ident_field (nodes : List Node) :
    (nodes.map Node.field).map Field.ident = nodes.map Node.ident := by
  rw [List.map_map]
  rfl

end Node

namespace Step

@[simp] theorem target_step (node : Node) : node.step.target = node.ident := by
  cases node <;> rfl

theorem map_target_steps (nodes : List Node) :
    (Node.steps nodes).map target = nodes.map Node.ident := by
  induction nodes with
  | nil => rfl
  | cons node rest ih => rw [Node.steps, List.map_cons, target_step, ih, List.map_cons]

/-- What the steps write and where, or the error of the first step that fails. -/
def writes (document : Value) : List Step → Except ReadError (List (String × Value))
  | [] => .ok []
  | step :: rest =>
    match evaluate document step with
    | .error e => .error e
    | .ok value =>
      match writes document rest with
      | .error e => .error e
      | .ok pairs => .ok ((step.target, value) :: pairs)

theorem writes_cons_eq_ok_iff {document : Value} {step : Step} {rest : List Step}
    {pairs : List (String × Value)} :
    writes document (step :: rest) = .ok pairs ↔
      ∃ value others, evaluate document step = .ok value ∧ writes document rest = .ok others ∧
        pairs = (step.target, value) :: others := by
  rw [writes]
  cases evaluate document step with
  | error e => simp
  | ok value =>
    cases writes document rest with
    | error e => simp
    | ok others => simp [eq_comm]

/-- **Runs split**: steps can be evaluated first and their results written afterwards. -/
theorem run_eq_map_writeAll (document : Value) (steps : List Step)
    (values : List (String × Value)) :
    run document values steps =
      (writes document steps).map fun pairs => OrderedMap.writeAll pairs values := by
  induction steps generalizing values with
  | nil => rfl
  | cons step rest ih =>
    simp only [run, writes]
    cases evaluate document step with
    | error e => rfl
    | ok value =>
      simp only [ih]
      cases writes document rest with
      | error e => rfl
      | ok pairs => rfl

/-- A construction evaluates its fields and puts them into an empty map. -/
theorem evaluate_construct (document : Value) (target typeName : String) (fields : List Step) :
    evaluate document (.construct target typeName fields) =
      (writes document fields).map fun pairs => .object (OrderedMap.ofPairs pairs) := by
  rw [evaluate, run_eq_map_writeAll]
  cases writes document fields with
  | error e => rfl
  | ok pairs => rfl

/-- Results are written to the targets of the steps, in their order. -/
theorem keys_of_writes {document : Value} {steps : List Step} {pairs : List (String × Value)}
    (h : writes document steps = .ok pairs) : OrderedMap.keys pairs = steps.map Step.target := by
  induction steps generalizing pairs with
  | nil =>
    cases h
    rfl
  | cons step rest ih =>
    obtain ⟨value, others, -, hothers, rfl⟩ := writes_cons_eq_ok_iff.mp h
    rw [OrderedMap.keys_cons, ih hothers, List.map_cons]

/-! ## §2 What a run overwrites -/

/-- **What is overwritten does not matter**: two maps with the same keys that agree wherever no step
writes are the same to a run whose targets are all there. -/
theorem run_congr {document : Value} {steps : List Step} {first second : List (String × Value)}
    (hkeys : OrderedMap.keys first = OrderedMap.keys second)
    (hnodup : (OrderedMap.keys first).Nodup)
    (htargets : ∀ step ∈ steps, step.target ∈ OrderedMap.keys first)
    (hagree : ∀ key ∈ OrderedMap.keys first, key ∉ steps.map Step.target →
      OrderedMap.find? key first = OrderedMap.find? key second) :
    run document first steps = run document second steps := by
  rw [run_eq_map_writeAll, run_eq_map_writeAll]
  cases hwrites : writes document steps with
  | error e => rfl
  | ok pairs =>
    -- Both results have the keys of the first map, so look-up tells whether they are the same.
    have hpairs : OrderedMap.keys pairs = steps.map Step.target := keys_of_writes hwrites
    have hsubset : ∀ key ∈ OrderedMap.keys pairs, key ∈ OrderedMap.keys first := by
      intro key hkey
      rw [hpairs, List.mem_map] at hkey
      obtain ⟨step, hstep, rfl⟩ := hkey
      exact htargets step hstep
    have hfirst := OrderedMap.keys_writeAll_of_subset hsubset
    have hsecond := OrderedMap.keys_writeAll_of_subset (hkeys ▸ hsubset)
    refine congrArg Except.ok (OrderedMap.ext_of_find? ?_ ?_ fun key hkey => ?_)
    · rw [hfirst, hsecond, hkeys]
    · exact hfirst ▸ hnodup
    · rw [OrderedMap.find?_writeAll, OrderedMap.find?_writeAll]
      by_cases hwritten : key ∈ OrderedMap.keys pairs
      · -- The key has been written, so what the maps held there is not looked at.
        cases hfound : OrderedMap.find? key pairs.reverse with
        | some value => rfl
        | none =>
          rw [OrderedMap.find?_eq_none_iff] at hfound
          refine absurd ?_ hfound
          rwa [OrderedMap.keys, List.map_reverse, List.mem_reverse]
      · rw [hagree key (hfirst ▸ hkey) (hpairs ▸ hwritten)]

end Step

/-! ## §3 Runs of holders -/

namespace Holder

/-- A simulation writes what its steps yield over the defaults. -/
theorem exists_writes_of_simulate {holder : Holder} {document : Value}
    {values : List (String × Value)} (h : holder.simulate document = .ok values) :
    ∃ pairs, Step.writes document holder.initializer = .ok pairs ∧
      values = OrderedMap.writeAll pairs holder.defaults := by
  rw [simulate, Step.run_eq_map_writeAll] at h
  cases hwrites : Step.writes document holder.initializer with
  | error e => simp [hwrites, Except.map] at h
  | ok pairs =>
    simp only [hwrites, Except.map, Except.ok.injEq] at h
    exact ⟨pairs, rfl, h.symm⟩

variable {schema : Schema} {variant : Variant} {program : String}

theorem map_target_initializer :
    (schema.holder variant program).initializer.map Step.target =
      (schema.filter Node.isAssigned).map Node.ident :=
  Step.map_target_steps _

theorem target_mem_idents :
    ∀ target ∈ (schema.holder variant program).initializer.map Step.target,
      target ∈ (schema.holder variant program).properties.map Field.ident := by
  intro target htarget
  rw [map_target_initializer, List.mem_map] at htarget
  obtain ⟨node, hnode, rfl⟩ := htarget
  simp only [Schema.holder, Node.map_ident_field]
  exact List.mem_map_of_mem (List.mem_filter.mp hnode).1

end Holder

end TypedSettings

import Mathlib
import TypedSettings.Proofs.Generated.Run
import TypedSettings.Proofs.Schema.Image

/-!
# Documents read as their own types

An initializer that was planned from a document and runs on that same document looks every field up
by its path. As a path leads back to the value the field was planned from, the run can be described
on the document alone, without schema tree, plan and paths to walk: every value is read as the type
inferred from it, in the order of the text.

Main facts:
- `Value.selfRead`: the description
- `Step.evaluate_step_ofMember`: it is what a step does
- `Holder.simulate_of_document`: it is what the initializer of a document does
-/

namespace TypedSettings

namespace Value

mutual

/-- What the value at a path becomes when it is read as the type inferred from it. -/
def selfRead (path : KeyPath) : Value → Except ReadError Value
  | .object members =>
    match selfReadMembers path [] members with
    | .error e => .error e
    | .ok fields => .ok (.object fields)
  | value => (ScalarType.infer value).convert path.dotted value

/-- Adds the members of the object at a path to the fields that have been read so far. -/
def selfReadMembers (path : KeyPath) (fields : List (String × Value)) :
    List (String × Value) → Except ReadError (List (String × Value))
  | [] => .ok fields
  | (key, value) :: rest =>
    match selfRead (path ++ [key]) value with
    | .error e => .error e
    | .ok read =>
      selfReadMembers path (OrderedMap.insert (Identifier.ofKey key) read fields) rest

end

theorem selfRead_of_not_object {path : KeyPath} {value : Value} (h : value.kind ≠ .object) :
    selfRead path value = (ScalarType.infer value).convert path.dotted value := by
  cases value with
  | object members => exact absurd rfl h
  | _ => rfl

theorem selfReadMembers_cons_eq_ok_iff {path : KeyPath} {fields rest result : List (String × Value)}
    {key : String} {value : Value} :
    selfReadMembers path fields ((key, value) :: rest) = .ok result ↔
      ∃ read, selfRead (path ++ [key]) value = .ok read ∧
        selfReadMembers path (OrderedMap.insert (Identifier.ofKey key) read fields) rest =
          .ok result := by
  rw [selfReadMembers]
  cases selfRead (path ++ [key]) value with
  | error e => simp
  | ok read => simp

/-- Is a member of the root assigned, and not only declared? -/
def isAssigned : Value → Bool
  | .null => false
  | .boolean _ => false
  | _ => true

end Value

namespace Step

mutual

/-- A step planned from a value reads that value, wherever a document has it. -/
theorem evaluate_step_ofMember {document : Value} {parent : KeyPath} {key : String} :
    ∀ {value : Value}, value.UniqueKeys → document.lookup (parent ++ [key]) = some value →
      evaluate document (Node.step (Node.ofMember parent key value)) =
        value.selfRead (parent ++ [key])
  | .object members, unique, found => by
    have hrun : run document [] (Node.steps (Node.ofMembers (parent ++ [key]) members)) = _ :=
      run_steps_ofMembers unique found members fun _ h => h
    -- Both sides only wrap what the members yield.
    cases hread : Value.selfReadMembers (parent ++ [key]) [] members with
    | error e => simp only [Node.ofMember, Node.step, evaluate, Value.selfRead, hrun, hread]
    | ok fields => simp only [Node.ofMember, Node.step, evaluate, Value.selfRead, hrun, hread]
  | .null, _, found | .boolean _, _, found | .number _, _, found | .string _, _, found
  | .array _, _, found => by
    simp only [Node.ofMember, Node.step, evaluate, fetch, Value.field, found, Value.selfRead]

/-- Steps planned from some members of an object read these members in order. -/
theorem run_steps_ofMembers {document : Value} {path : KeyPath} {object : List (String × Value)}
    (unique : (Value.object object).UniqueKeys)
    (found : document.lookup path = some (.object object))
    {fields : List (String × Value)} :
    ∀ members : List (String × Value), (∀ member ∈ members, member ∈ object) →
      run document fields (Node.steps (Node.ofMembers path members)) =
        Value.selfReadMembers path fields members
  | [], _ => rfl
  | (key, value) :: rest, hsub => by
    have hmem : (key, value) ∈ object := hsub _ List.mem_cons_self
    -- The path of the step leads to the member itself, because no other member has its key.
    have hstep : evaluate document (Node.step (Node.ofMember path key value)) =
        value.selfRead (path ++ [key]) :=
      evaluate_step_ofMember (unique.of_mem_object hmem) (unique.lookup_member found hmem)
    simp only [Node.ofMembers, Node.steps, run, hstep, Value.selfReadMembers, target_step,
      Node.ident, Node.key_ofMember]
    cases value.selfRead (path ++ [key]) with
    | error e => rfl
    | ok read =>
      exact run_steps_ofMembers unique found rest fun other hother =>
        hsub other (List.mem_cons_of_mem _ hother)

end

end Step

namespace Holder

theorem isAssigned_ofMember (parent : KeyPath) (key : String) (value : Value) :
    (Node.ofMember parent key value).isAssigned = value.isAssigned := by
  cases value <;> rfl

theorem filter_isAssigned_ofMembers (parent : KeyPath) (members : List (String × Value)) :
    (Node.ofMembers parent members).filter Node.isAssigned =
      Node.ofMembers parent (members.filter fun member => member.2.isAssigned) := by
  rw [Node.ofMembers_eq_map, Node.ofMembers_eq_map, List.filter_map]
  congr 1
  exact List.filter_congr fun member _ => isAssigned_ofMember parent member.1 member.2

/-- What the members of a root object are before any of them is read. -/
def initialFields (members : List (String × Value)) : List (String × Value) :=
  OrderedMap.ofPairs (members.map fun member =>
    (Identifier.ofKey member.1, (Node.ofMember [] member.1 member.2).type.initialValue))

/-- **A document under its own initializer**: starting from the defaults, the assigned members are
read as their own types in the order of the document. -/
theorem simulate_of_document {members : List (String × Value)}
    (unique : (Value.object members).UniqueKeys) (variant : Variant) (program : String) :
    (Schema.holder (Node.ofMembers [] members) variant program).simulate (.object members) =
      Value.selfReadMembers [] (initialFields members)
        (members.filter fun member => member.2.isAssigned) := by
  have hdefaults : (Schema.holder (Node.ofMembers [] members) variant program).defaults =
      initialFields members := by
    simp only [defaults, Schema.holder, initialFields, Node.ofMembers_eq_map, List.map_map]
    congr 1
    refine List.map_congr_left fun member _ => ?_
    simp only [Function.comp_apply, Node.field, Node.ident, Node.key_ofMember]
  rw [simulate, hdefaults]
  simp only [Schema.holder]
  rw [filter_isAssigned_ofMembers]
  exact Step.run_steps_ofMembers unique rfl _ fun _ h => (List.mem_filter.mp h).1

end Holder

end TypedSettings

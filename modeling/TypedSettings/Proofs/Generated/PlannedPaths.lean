import Mathlib
import TypedSettings.Proofs.Document.Edit
import TypedSettings.Proofs.Generated.Outcome
import TypedSettings.Proofs.Generated.SelfReading

/-!
# Planned paths

An initializer looks at a document through its planned paths only. Whatever else two documents
differ in, it ends alike on both: with the same values or with the same error. A path that is
planned from a document leads there to a leaf that is assigned, so nothing that is only declared,
and no empty object, lies on a planned path.

Main facts:
- `Step.run_eq_of_lookup_eq`: a run depends on what its planned paths lead to
- `Step.exists_of_mem_readsOf`: where planned paths lead in the document they were planned from
- `Holder.only_planned_paths_matter`: what does not change the outcome of an initializer
-/

namespace TypedSettings

namespace Step

/-! ## §1 What a run looks at -/

theorem fetch_eq_of_lookup_eq {type : ScalarType} {path : KeyPath} {first second : Value}
    (h : first.lookup path = second.lookup path) :
    fetch type path first = fetch type path second := by
  rw [fetch, fetch, Value.field, Value.field, h]

mutual

theorem evaluate_eq_of_lookup_eq {first second : Value} : ∀ step : Step,
    (∀ read ∈ step.reads, first.lookup read.path = second.lookup read.path) →
      evaluate first step = evaluate second step
  | .read target path type, h => by
    rw [evaluate, evaluate]
    exact fetch_eq_of_lookup_eq (h ⟨path, type⟩ (List.mem_singleton.mpr rfl))
  | .construct target typeName fields, h => by
    rw [evaluate, evaluate, run_eq_of_lookup_eq fields [] h]

/-- **A run depends on its reads**: documents in which every planned path finds the same are the
same to it. -/
theorem run_eq_of_lookup_eq {first second : Value} : ∀ (steps : List Step)
    (values : List (String × Value)),
    (∀ read ∈ readsOf steps, first.lookup read.path = second.lookup read.path) →
      run first values steps = run second values steps
  | [], values, _ => rfl
  | step :: rest, values, h => by
    rw [readsOf] at h
    have hstep : evaluate first step = evaluate second step :=
      evaluate_eq_of_lookup_eq step fun read hread => h read (List.mem_append_left _ hread)
    rw [run, run, hstep]
    cases evaluate second step with
    | error e => rfl
    | ok value =>
      exact run_eq_of_lookup_eq rest _ fun read hread => h read (List.mem_append_right _ hread)

end

/-! ## §2 Where planned paths lead -/

mutual

/-- The reads that are planned for a member lead to leaves of its value. -/
theorem exists_of_mem_reads {parent : KeyPath} {key : String} {read : PlannedRead} :
    ∀ {value : Value}, value.UniqueKeys →
      read ∈ reads (Node.step (Node.ofMember parent key value)) →
      ∃ rest leaf, read.path = parent ++ key :: rest ∧ value.lookup rest = some leaf ∧
        leaf.kind ≠ .object
  | .object members, unique, hread => by
    rw [Node.ofMember, Node.step, reads] at hread
    obtain ⟨inner, value, rest, leaf, hmem, hpath, hleaf, hkind⟩ :=
      exists_of_mem_readsOf members (fun _ h => unique.of_mem_object h) hread
    refine ⟨inner :: rest, leaf, by rw [hpath, List.append_assoc, List.singleton_append], ?_, hkind⟩
    -- The key leads to the member that the read was planned for, as no other member has it.
    rw [Value.lookup, unique.member?_eq_some hmem]
    exact hleaf
  | .null, _, hread | .boolean _, _, hread | .number _, _, hread | .string _, _, hread
  | .array _, _, hread => by
    rw [Node.ofMember, Node.step, reads, List.mem_singleton] at hread
    · exact ⟨[], _, by rw [hread], rfl, fun hkind => by cases hkind⟩
    · intro members hobject
      cases hobject

/-- The reads that are planned for members lead to leaves of their values. -/
theorem exists_of_mem_readsOf {path : KeyPath} {read : PlannedRead} :
    ∀ members : List (String × Value), (∀ member ∈ members, member.2.UniqueKeys) →
      read ∈ readsOf (Node.steps (Node.ofMembers path members)) →
      ∃ key value rest leaf, (key, value) ∈ members ∧ read.path = path ++ key :: rest ∧
        value.lookup rest = some leaf ∧ leaf.kind ≠ .object
  | [], _, hread => by cases hread
  | (key, value) :: others, unique, hread => by
    rw [Node.ofMembers, Node.steps, readsOf, List.mem_append] at hread
    rcases hread with hfirst | hothers
    · obtain ⟨rest, leaf, hpath, hleaf, hkind⟩ :=
        exists_of_mem_reads (unique _ List.mem_cons_self) hfirst
      exact ⟨key, value, rest, leaf, List.mem_cons_self, hpath, hleaf, hkind⟩
    · obtain ⟨inner, innerValue, rest, leaf, hmem, hleaf⟩ :=
        exists_of_mem_readsOf others (fun other h => unique other (List.mem_cons_of_mem _ h))
          hothers
      exact ⟨inner, innerValue, rest, leaf, List.mem_cons_of_mem _ hmem, hleaf⟩

end

end Step

namespace Holder

/-- The paths that an initializer reads, depth first. -/
def plannedPaths (holder : Holder) : List KeyPath :=
  (Step.readsOf holder.initializer).map PlannedRead.path

variable {schema : Schema} {variant : Variant} {program : String} {document : Value}

/-- A path planned from a document leads there to a leaf, at the root to one that is assigned. -/
theorem exists_of_mem_plannedPaths (unique : document.UniqueKeys)
    (h : Schema.ofDocument document = .ok schema) {path : KeyPath}
    (hpath : path ∈ (schema.holder variant program).plannedPaths) :
    ∃ leaf, document.lookup path = some leaf ∧ leaf.kind ≠ .object ∧
      ∀ key, path = [key] → leaf.isAssigned = true := by
  cases document with
  | object members =>
    cases h
    obtain ⟨read, hread, rfl⟩ := List.mem_map.mp hpath
    rw [Schema.holder, filter_isAssigned_ofMembers] at hread
    obtain ⟨key, value, rest, leaf, hmem, hpath, hleaf, hkind⟩ :=
      Step.exists_of_mem_readsOf _
        (fun member hmember => unique.of_mem_object (List.mem_filter.mp hmember).1) hread
    obtain ⟨hmem, hassigned⟩ := List.mem_filter.mp hmem
    have hlookup : (Value.object members).lookup (key :: rest) = some leaf := by
      rw [Value.lookup, unique.member?_eq_some hmem]
      exact hleaf
    rw [hpath, List.nil_append]
    refine ⟨leaf, hlookup, hkind, fun other hother => ?_⟩
    -- A path of one key leads to the member itself.
    obtain ⟨-, rfl⟩ := List.cons.inj hother
    exact Option.some.inj hleaf ▸ hassigned
  | null => cases h
  | boolean b => cases h
  | number n => cases h
  | string text => cases h
  | array items => cases h

/-- A value that no path leaves is apart from every leaf at another path. -/
theorem apart_of_lookup {path other : KeyPath} {value leaf : Value}
    (hvalue : document.lookup path = some value) (hleaf : document.lookup other = some leaf)
    (hend : ∀ key rest, value.lookup (key :: rest) = none) (hkind : leaf.kind ≠ .object)
    (hne : path ≠ other) : Value.Apart path other := by
  constructor
  · rintro ⟨rest, rfl⟩
    cases rest with
    | nil => exact hne (List.append_nil path).symm
    | cons key rest =>
      rw [Value.lookup_append, hvalue, Option.bind_some, hend] at hleaf
      cases hleaf
  · rintro ⟨rest, rfl⟩
    cases rest with
    | nil => exact hne (List.append_nil other)
    | cons key rest =>
      rw [Value.lookup_append, hleaf, Option.bind_some, Value.lookup_cons_of_leaf hkind] at hvalue
      cases hvalue

theorem apart_of_not_assigned (unique : document.UniqueKeys)
    (h : Schema.ofDocument document = .ok schema) {key : String} {value : Value}
    (hvalue : document.lookup [key] = some value)
    (hkind : value.kind = .boolean ∨ value.kind = .null) :
    ∀ other ∈ (schema.holder variant program).plannedPaths, Value.Apart [key] other := by
  intro other hother
  obtain ⟨leaf, hleaf, hobject, hassigned⟩ := exists_of_mem_plannedPaths unique h hother
  have hend : ∀ key rest, value.lookup (key :: rest) = none := fun _ _ =>
    Value.lookup_cons_of_leaf (by rcases hkind with hkind | hkind <;> rw [hkind] <;> exact nofun)
  refine apart_of_lookup hvalue hleaf hend hobject ?_
  rintro rfl
  -- Booleans and nulls of the root are declared and not assigned.
  obtain rfl : leaf = value := Option.some.inj (hleaf.symm.trans hvalue)
  have hassigned := hassigned key rfl
  cases leaf <;> simp_all [Value.kind, Value.isAssigned]

theorem apart_of_empty (unique : document.UniqueKeys)
    (h : Schema.ofDocument document = .ok schema) {path : KeyPath}
    (hvalue : document.lookup path = some (.object [])) :
    ∀ other ∈ (schema.holder variant program).plannedPaths, Value.Apart path other := by
  intro other hother
  obtain ⟨leaf, hleaf, hobject, -⟩ := exists_of_mem_plannedPaths unique h hother
  refine apart_of_lookup hvalue hleaf (fun _ _ => rfl) hobject ?_
  rintro rfl
  exact hobject (Option.some.inj (hleaf.symm.trans hvalue) ▸ rfl)

/-! ## §3 What does not change the outcome -/

theorem simulate_eq_of_lookup_eq {holder : Holder} {first second : Value}
    (h : ∀ path ∈ holder.plannedPaths, first.lookup path = second.lookup path) :
    holder.simulate first = holder.simulate second :=
  Step.run_eq_of_lookup_eq holder.initializer _ fun read hread =>
    h read.path (List.mem_map_of_mem hread)

theorem simulate_eq_of_replaced {holder : Holder} {path : KeyPath} {first second : Value}
    (hapart : ∀ other ∈ holder.plannedPaths, Value.Apart path other)
    (h : Value.Replaced path first second) : holder.simulate first = holder.simulate second :=
  simulate_eq_of_lookup_eq fun other hother => h.lookup_eq (hapart other hother)

/-- **Only planned paths matter**: documents in which every planned path finds the same, or nothing,
have the same outcome, be it values or an error. So the outcome is the same whatever stands at a
path apart from all planned ones, and in whatever order the members of an object stand that is
walked through and not read itself. What is inside of a value that is read belongs to its path: such
a value may be read as a text that spells all of it. With a plan made from a document the outcome is
the same whatever stands where that document has a boolean or a null at its root, or an empty object
anywhere. -/
theorem only_planned_paths_matter (schema : Schema) (variant : Variant) (program : String) :
    let holder := schema.holder variant program
    (∀ first second : Value,
      (∀ path ∈ holder.plannedPaths, first.lookup path = second.lookup path) →
      holder.simulate first = holder.simulate second) ∧
    (∀ path first second, (∀ other ∈ holder.plannedPaths, Value.Apart path other) →
      Value.Replaced path first second → holder.simulate first = holder.simulate second) ∧
    (∀ path first second, (∀ other ∈ holder.plannedPaths, ¬ other <+: path) →
      Value.Within Value.Reordered path first second →
      holder.simulate first = holder.simulate second) ∧
    (∀ document : Value, document.UniqueKeys → Schema.ofDocument document = .ok schema →
      (∀ key value first second, document.lookup [key] = some value →
        value.kind = .boolean ∨ value.kind = .null → Value.Replaced [key] first second →
        holder.simulate first = holder.simulate second) ∧
      (∀ path first second, document.lookup path = some (.object []) →
        Value.Replaced path first second → holder.simulate first = holder.simulate second)) := by
  intro holder
  refine ⟨fun first second => simulate_eq_of_lookup_eq,
    fun path first second => simulate_eq_of_replaced, fun path first second hends h => ?reordered,
    fun document unique hdocument => ⟨?unassigned, ?empty⟩⟩
  case reordered =>
    exact simulate_eq_of_lookup_eq fun other hother => h.lookup_eq_of_reordered (hends other hother)
  case unassigned =>
    intro key value first second hvalue hkind
    exact simulate_eq_of_replaced (apart_of_not_assigned unique hdocument hvalue hkind)
  case empty =>
    intro path first second hempty
    exact simulate_eq_of_replaced (apart_of_empty unique hdocument hempty)

/-- A structure with an empty one inside, an array and a flag. The deployed documents lack the port,
have a member that is not planned, stand in another order, and have other values where the planned
one has the flag and the empty object. -/
theorem only_planned_paths_matter_server :
    let members : List (String × Value) :=
      [("server", .object [("port", .number (.integer 80)), ("labels", .object [])]),
        ("hosts", .array [.string "a"]), ("debug", .boolean true)]
    let schema : Schema := Node.ofMembers [] members
    let holder := schema.holder .publicSettings "app"
    let server (members : List (String × Value)) : String × Value := ("server", .object members)
    let port : String × Value := ("port", .number (.integer 8080))
    let hosts : String × Value := ("hosts", .array [])
    holder.plannedPaths = [["server", "port"], ["hosts"]] ∧
      Schema.ofDocument (.object members) = .ok schema ∧ (Value.object members).UniqueKeys ∧
      (holder.simulate (.object [hosts]) = holder.simulate (.object [server [], hosts]) ∧
        holder.simulate (.object [hosts]) = .error (.missing "server.port")) ∧
      holder.simulate (.object [server [port], hosts]) =
        holder.simulate (.object [server [port, ("note", .null)], hosts]) ∧
      holder.simulate (.object [server [port], hosts]) =
        holder.simulate (.object [hosts, server [port]]) ∧
      holder.simulate (.object [server [port], hosts, ("debug", .boolean true)]) =
        holder.simulate (.object [server [port], hosts, ("debug", .object [])]) ∧
      holder.simulate (.object [server [port, ("labels", .object [])], hosts]) =
        holder.simulate (.object [server [port], hosts]) := by
  intro members schema holder server port hosts
  have unique : (Value.object members).UniqueKeys := by
    have hlabels : (Value.object []).UniqueKeys := .object List.nodup_nil (List.forall_mem_nil _)
    have hmembers : (Value.object [("port", .number (.integer 80)),
        ("labels", .object [])]).UniqueKeys :=
      .object (by decide) (by simpa using ⟨.number _, hlabels⟩)
    have hhosts : (Value.array [.string "a"]).UniqueKeys := .array (by simpa using .string _)
    exact .object (by decide) (by simpa [members] using ⟨hmembers, hhosts, .boolean _⟩)
  have hplanned : holder.plannedPaths = [["server", "port"], ["hosts"]] := by cbv
  obtain ⟨hlookup, hreplaced, hreordered, hdocument⟩ :=
    only_planned_paths_matter schema .publicSettings "app"
  obtain ⟨hflag, hempty⟩ := hdocument (.object members) unique rfl
  -- An edit of the members of the server, seen from the root.
  have hserver {key : String} {first second : List (String × Value)}
      (h : Value.MemberEdit key first second) : Value.Replaced ["server", key]
        (.object [server first, hosts]) (.object [server second, hosts]) := by
    have hinside : Value.Within (Value.MemberEdit key) ["server"]
        (.object ([] ++ server first :: [hosts])) (.object ([] ++ server second :: [hosts])) :=
      .inside List.not_mem_nil (.here h)
    exact .member hinside
  refine ⟨hplanned, rfl, unique, ⟨?missing, by cbv⟩, ?note, ?order, ?flag, ?labels⟩
  case missing =>
    refine hlookup _ _ fun path hpath => ?_
    rw [hplanned] at hpath
    fin_cases hpath <;> rfl
  case note =>
    refine hreplaced ["server", "note"] _ _ (fun other hother => ?_) (hserver (.added :
      Value.MemberEdit "note" ([port] ++ []) ([port] ++ ("note", .null) :: [])))
    rw [hplanned] at hother
    fin_cases hother <;> exact ⟨by decide, by decide⟩
  case order =>
    refine hreordered [] _ _ (fun other hother => ?_) (.here ⟨by decide, .swap _ _ _⟩)
    rw [hplanned] at hother
    fin_cases hother <;> decide
  case flag =>
    exact hflag "debug" (.boolean true) _ _ rfl (.inl rfl) (.member (.here
      (.changed : Value.MemberEdit "debug"
        ([server [port], hosts] ++ ("debug", .boolean true) :: [])
        ([server [port], hosts] ++ ("debug", .object []) :: []))))
  case labels =>
    exact hempty ["server", "labels"] _ _ rfl (hserver (.removed : Value.MemberEdit "labels"
      ([port] ++ ("labels", .object []) :: []) ([port] ++ [])))

end Holder

end TypedSettings

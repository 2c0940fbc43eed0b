import Mathlib
import TypedSettings.Proofs.Generated.Run
import TypedSettings.Proofs.OrderedMap.Collected
import TypedSettings.Proofs.Reading.FirstFailure

/-!
# Outcomes of initializers

What an initializer ends with, whatever its schema tree and its document, also if identifiers
collide and paths lead nowhere. It fails exactly if one of its reads fails, with the error of the
first such read; otherwise every identifier stands at the position of its first property and holds
what the last step for it yields, or the default of its last property if there is no such step.
Within a constructed structure the same holds of its fields.

Main facts:
- `Step.writes_eq_error_iff`: steps fail with their first failing read
- `Step.yields_of_evaluate`: what a step evaluates to
- `Holder.simulate_outcome`: the outcome of a whole initializer
-/

namespace TypedSettings

/-! ## §1 Planned reads -/

/-- A field of a document that is to be read as a type. -/
structure PlannedRead where
  path : KeyPath
  type : ScalarType

/-- `read.Fails document e`: the read fails because its path does not resolve or because the value
found there does not convert. -/
inductive PlannedRead.Fails (document : Value) (read : PlannedRead) : ReadError → Prop where
  | unresolved (h : document.lookup read.path = none) :
      Fails document read (.missing read.path.dotted)
  | unconverted {found : Value} {e : ReadError} (h : document.lookup read.path = some found)
      (refused : read.type.convert read.path.dotted found = .error e) : Fails document read e

namespace Step

mutual

/-- The reads of a step, depth first. -/
def reads : Step → List PlannedRead
  | .read _ path type => [⟨path, type⟩]
  | .construct _ _ fields => readsOf fields

/-- The reads of several steps in order. -/
def readsOf : List Step → List PlannedRead
  | [] => []
  | step :: rest => reads step ++ readsOf rest

end

theorem fetch_eq_error_iff {document : Value} {path : KeyPath} {type : ScalarType}
    {e : ReadError} :
    fetch type path document = .error e ↔ PlannedRead.Fails document ⟨path, type⟩ e := by
  unfold fetch Value.field
  constructor
  · intro h
    cases hlookup : document.lookup path with
    | none =>
      rw [hlookup] at h
      cases h
      exact .unresolved hlookup
    | some found =>
      rw [hlookup] at h
      exact .unconverted hlookup h
  · intro h
    cases h with
    | unresolved hlookup => simp only [hlookup]
    | unconverted hlookup refused => simpa only [hlookup] using refused

theorem fetch_eq_ok_iff {document : Value} {path : KeyPath} {type : ScalarType} {value : Value} :
    fetch type path document = .ok value ↔
      ∃ found, document.lookup path = some found ∧
        type.convert path.dotted found = .ok value := by
  unfold fetch Value.field
  cases document.lookup path with
  | none => simp
  | some found => simp

mutual

/-- A step fails with its first failing read. -/
theorem evaluate_eq_error_iff {document : Value} {e : ReadError} : ∀ step : Step,
    evaluate document step = .error e ↔ FirstFailure (PlannedRead.Fails document) step.reads e
  | .read target path type => by
    rw [evaluate, reads, FirstFailure.singleton_iff, fetch_eq_error_iff]
  | .construct target typeName fields => by
    rw [reads, ← writes_eq_error_iff fields, evaluate_construct]
    cases writes document fields with
    | error e' => simp [Except.map]
    | ok pairs => simp [Except.map]

/-- **The first failing read decides**: steps fail exactly with the error of their first read that
fails, also if a later step overwrites what it was read for. -/
theorem writes_eq_error_iff {document : Value} {e : ReadError} : ∀ steps : List Step,
    writes document steps = .error e ↔ FirstFailure (PlannedRead.Fails document) (readsOf steps) e
  | [] => ⟨nofun, fun h => absurd h FirstFailure.not_nil⟩
  | step :: rest => by
    rw [readsOf, FirstFailure.append_iff, ← writes_eq_error_iff rest, writes]
    simp only [← evaluate_eq_error_iff step]
    -- The steps after this one are looked at only if this one has not failed.
    cases evaluate document step with
    | error e' => simp
    | ok value =>
      cases writes document rest with
      | error e' => simp
      | ok pairs => simp

end

/-! ## §2 What steps yield -/

/-- `Yields document step value`: what the step assigns. A read assigns the value found at its path,
converted. A construction assigns an object: its fields stand in the order in which they are first
assigned, each once, and hold what the last step for them yields. -/
inductive Yields (document : Value) : Step → Value → Prop where
  | read {target : String} {path : KeyPath} {type : ScalarType} {found value : Value}
      (resolved : document.lookup path = some found)
      (converted : type.convert path.dotted found = .ok value) :
      Yields document (.read target path type) value
  | construct {target typeName : String} {fields : List Step} {members : List (String × Value)}
      (keys_eq : OrderedMap.keys members = (fields.map Step.target).eraseDups)
      (last : ∀ name field value, LastWith (fun step => step.target = name) field fields →
        OrderedMap.find? name members = some value → Yields document field value) :
      Yields document (.construct target typeName fields) (.object members)

theorem writes_append_eq_ok {document : Value} {first second : List Step}
    {pairs : List (String × Value)} (h : writes document (first ++ second) = .ok pairs) :
    ∃ before after, writes document first = .ok before ∧ writes document second = .ok after ∧
      pairs = before ++ after := by
  induction first generalizing pairs with
  | nil => exact ⟨[], pairs, rfl, h, rfl⟩
  | cons step rest ih =>
    obtain ⟨value, others, hvalue, hothers, rfl⟩ := writes_cons_eq_ok_iff.mp h
    obtain ⟨before, after, hbefore, hafter, rfl⟩ := ih hothers
    exact ⟨(step.target, value) :: before, after,
      writes_cons_eq_ok_iff.mpr ⟨value, before, hvalue, hbefore, rfl⟩, hafter, rfl⟩

/-- The last step for an identifier makes the last write to it. -/
theorem exists_lastWith_of_writes {document : Value} {steps : List Step} {step : Step}
    {name : String} {pairs : List (String × Value)} (h : writes document steps = .ok pairs)
    (hlast : LastWith (fun step => step.target = name) step steps) :
    ∃ value, evaluate document step = .ok value ∧
      LastWith (fun pair => pair.1 = name) (name, value) pairs := by
  obtain ⟨first, second, rfl, rfl, hsecond⟩ := hlast
  obtain ⟨before, rest, -, hrest, rfl⟩ := writes_append_eq_ok h
  obtain ⟨value, after, hvalue, hafter, rfl⟩ := writes_cons_eq_ok_iff.mp hrest
  refine ⟨value, hvalue, before, after, rfl, rfl, fun later hlater hname => ?_⟩
  -- Later writes have the targets of later steps.
  have hkey : later.1 ∈ second.map Step.target :=
    keys_of_writes hafter ▸ List.mem_map_of_mem (f := Prod.fst) hlater
  obtain ⟨other, hother, htarget⟩ := List.mem_map.mp hkey
  exact hsecond other hother (htarget.trans hname)

mutual

/-- **What a step evaluates to** is what it yields. -/
theorem yields_of_evaluate {document : Value} : ∀ {step : Step} {value : Value},
    evaluate document step = .ok value → Yields document step value
  | .read target path type, value, h => by
    obtain ⟨found, hfound, hvalue⟩ := fetch_eq_ok_iff.mp h
    exact .read hfound hvalue
  | .construct target typeName fields, value, h => by
    rw [evaluate_construct] at h
    cases hwrites : writes document fields with
    | error e => simp [hwrites, Except.map] at h
    | ok pairs =>
      simp only [hwrites, Except.map, Except.ok.injEq] at h
      subst h
      have hkeys : OrderedMap.keys pairs = fields.map Step.target := keys_of_writes hwrites
      refine .construct (hkeys ▸ OrderedMap.keys_ofPairs pairs) ?_
      intro name field value hlast hfound
      obtain ⟨written, hwritten, hpair⟩ := exists_lastWith_of_writes hwrites hlast
      have hsame := (OrderedMap.collects_ofPairs pairs).find?_eq name written hpair
      obtain rfl : written = value := Option.some.inj (hsame.symm.trans hfound)
      exact yields_of_mem fields hlast.mem hwritten

theorem yields_of_mem {document : Value} : ∀ (steps : List Step) {step : Step} {value : Value},
    step ∈ steps → evaluate document step = .ok value → Yields document step value
  | [], _, _, hmem, _ => absurd hmem List.not_mem_nil
  | first :: rest, step, value, hmem, h => by
    rcases List.mem_cons.mp hmem with heq | hrest
    · exact yields_of_evaluate (heq ▸ h)
    · exact yields_of_mem rest hrest h

end

/-- A step yields one value at most. -/
theorem Yields.unique {document : Value} {step : Step} {value : Value}
    (h : Yields document step value) : ∀ {value' : Value}, Yields document step value' →
      value = value' := by
  induction h with
  | read resolved converted =>
    intro value' h'
    cases h' with
    | read resolved' converted' =>
      obtain rfl := Option.some.inj (resolved.symm.trans resolved')
      exact Except.ok.inj (converted.symm.trans converted')
  | construct keys_eq last ih =>
    intro value' h'
    cases h' with
    | construct keys_eq' last' =>
      congr 1
      refine OrderedMap.ext_of_values keys_eq keys_eq' fun name hname first second hfirst hsecond =>
        ?_
      -- Both objects hold what the last field for the name yields.
      obtain ⟨source, hsource, htarget⟩ := List.mem_map.mp hname
      obtain ⟨field, hlast⟩ := exists_lastWith (p := fun step : Step => step.target = name)
        ⟨source, hsource, htarget⟩
      exact ih name field first hlast hfirst (last' name field second hlast hsecond)

end Step

/-! ## §3 Whole initializers -/

namespace Holder

/-- What a successful initializer leaves behind. -/
structure Outcome (holder : Holder) (document : Value) (values : List (String × Value)) :
    Prop where
  /-- Every identifier stands once, at the position of its first property. -/
  keys_eq : OrderedMap.keys values = (holder.properties.map Field.ident).eraseDups
  /-- An identifier that is assigned holds what the last step for it yields. -/
  assigned : ∀ name step, LastWith (fun step => step.target = name) step holder.initializer →
    ∃ value, OrderedMap.find? name values = some value ∧ step.Yields document value
  /-- Any other identifier holds the default of its last property. -/
  unassigned : ∀ name property, name ∉ holder.initializer.map Step.target →
    LastWith (fun property => property.ident = name) property holder.properties →
    OrderedMap.find? name values = some property.type.initialValue

/-- One outcome is possible at most. -/
theorem Outcome.unique {holder : Holder} {document : Value} {first second : List (String × Value)}
    (hfirst : holder.Outcome document first) (hsecond : holder.Outcome document second) :
    first = second := by
  refine OrderedMap.ext_of_values hfirst.keys_eq hsecond.keys_eq
    fun name hname value value' hvalue hvalue' => ?_
  by_cases hassigned : name ∈ holder.initializer.map Step.target
  · -- The last step that assigns the identifier fixes its value.
    obtain ⟨source, hsource, htarget⟩ := List.mem_map.mp hassigned
    obtain ⟨step, hlast⟩ := exists_lastWith (p := fun step : Step => step.target = name)
      ⟨source, hsource, htarget⟩
    obtain ⟨one, hone, hyields⟩ := hfirst.assigned name step hlast
    obtain ⟨other, hother, hyields'⟩ := hsecond.assigned name step hlast
    have hsame : one = other := hyields.unique hyields'
    rw [hone] at hvalue
    rw [hother, ← hsame] at hvalue'
    exact Option.some.inj (hvalue.symm.trans hvalue')
  · -- No step does, so the default of the last property with the identifier is left.
    obtain ⟨source, hsource, hident⟩ := List.mem_map.mp hname
    obtain ⟨property, hlast⟩ := exists_lastWith (p := fun property : Field => property.ident = name)
      ⟨source, hsource, hident⟩
    rw [hfirst.unassigned name property hassigned hlast] at hvalue
    rw [hsecond.unassigned name property hassigned hlast] at hvalue'
    exact Option.some.inj (hvalue.symm.trans hvalue')

/-- The defaults hold the default of the last property of each identifier. -/
theorem find?_defaults {holder : Holder} {name : String} {property : Field}
    (h : LastWith (fun property => property.ident = name) property holder.properties) :
    OrderedMap.find? name holder.defaults = some property.type.initialValue := by
  apply OrderedMap.find?_writeAll_of_lastWith
  obtain ⟨before, after, hsplit, hname, hafter⟩ := h
  refine ⟨before.map fun p => (p.ident, p.type.initialValue),
    after.map fun p => (p.ident, p.type.initialValue), ?_, rfl, ?_⟩
  · rw [hsplit, List.map_append, List.map_cons, hname]
  · intro pair hpair
    obtain ⟨later, hlater, rfl⟩ := List.mem_map.mp hpair
    exact hafter later hlater

theorem keys_defaults (holder : Holder) :
    OrderedMap.keys holder.defaults = (holder.properties.map Field.ident).eraseDups := by
  rw [defaults, OrderedMap.keys_ofPairs, OrderedMap.keys, List.map_map]
  rfl

variable {schema : Schema} {variant : Variant} {program : String} {document : Value}

theorem outcome_of_simulate {values : List (String × Value)}
    (h : (schema.holder variant program).simulate document = .ok values) :
    (schema.holder variant program).Outcome document values := by
  obtain ⟨pairs, hwrites, rfl⟩ := exists_writes_of_simulate h
  have htargets := Step.keys_of_writes hwrites
  refine ⟨?_, fun name step hlast => ?_, fun name property hname hlast => ?_⟩
  · -- Every step assigns a property, so steps add no keys.
    rw [OrderedMap.keys_writeAll_of_subset, keys_defaults]
    intro name hname
    rw [keys_defaults, List.mem_eraseDups]
    exact target_mem_idents name (htargets ▸ hname)
  · obtain ⟨value, hvalue, hpair⟩ := Step.exists_lastWith_of_writes hwrites hlast
    exact ⟨value, OrderedMap.find?_writeAll_of_lastWith hpair, Step.yields_of_evaluate hvalue⟩
  · rw [OrderedMap.find?_writeAll_of_notMem (htargets ▸ hname), find?_defaults hlast]

theorem simulate_eq_error_iff {e : ReadError} :
    (schema.holder variant program).simulate document = .error e ↔
      FirstFailure (PlannedRead.Fails document)
        (Step.readsOf (schema.holder variant program).initializer) e := by
  rw [← Step.writes_eq_error_iff, simulate, Step.run_eq_map_writeAll]
  cases Step.writes document (schema.holder variant program).initializer with
  | error e' => simp [Except.map]
  | ok pairs => simp [Except.map]

/-- **The outcome of an initializer**: on any document it fails exactly if one of its reads fails,
with the error of the first read that does, depth first; otherwise its result is the one outcome
that holds every identifier at its first position with its last value. -/
theorem simulate_outcome (schema : Schema) (variant : Variant) (program : String)
    (document : Value) :
    let holder := schema.holder variant program
    let reads := Step.readsOf holder.initializer
    ((∃ e, holder.simulate document = .error e) ↔ ∃ read ∈ reads, ∃ e, read.Fails document e) ∧
    (∀ e, holder.simulate document = .error e ↔
      FirstFailure (PlannedRead.Fails document) reads e) ∧
    (∀ values, holder.simulate document = .ok values ↔
      (∀ read ∈ reads, ∀ e, ¬ read.Fails document e) ∧ holder.Outcome document values) := by
  intro holder reads
  have hfails : (∃ e, holder.simulate document = .error e) ↔
      ∃ read ∈ reads, ∃ e, read.Fails document e := by
    rw [← FirstFailure.exists_iff]
    exact exists_congr fun e => simulate_eq_error_iff
  refine ⟨hfails, fun e => simulate_eq_error_iff, fun values => ⟨fun h => ?_, fun h => ?_⟩⟩
  · refine ⟨fun read hread e hread' => ?_, outcome_of_simulate h⟩
    obtain ⟨e', he'⟩ := hfails.mpr ⟨read, hread, e, hread'⟩
    cases h.symm.trans he'
  · -- Without a failing read there is a result, and it has the same outcome.
    obtain ⟨hreads, houtcome⟩ := h
    cases hresult : holder.simulate document with
    | error e =>
      obtain ⟨read, hread, e', he'⟩ := hfails.mp ⟨e, hresult⟩
      exact absurd he' (hreads read hread e')
    | ok result => rw [houtcome.unique (outcome_of_simulate hresult)]

end Holder

end TypedSettings

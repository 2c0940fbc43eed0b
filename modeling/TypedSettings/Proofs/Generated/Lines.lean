import Mathlib
import TypedSettings.Generated.Source
import TypedSettings.Proofs.Identifier.Words
import TypedSettings.Proofs.Text.Literal

/-!
# Lines of a source

A source is a list of lines. The first of them name the program and depend on nothing else of the
settings; what follows is the plan. Where all names in a plan are words, no line of it has a line
feed of its own, so the text of the plan determines its lines.

Main facts:
- `Source.moduleText_eq_append`: a source is the lines of its names and the lines of its plan
- `Source.ofLines_injective`: lines without line feeds are determined by their text
- `Source.singleLine_of_mem_planLines`: the lines of a plan have none
-/

namespace TypedSettings

/-! ## §1 Runs -/

/-- Where a run of `inside` items ends at the first item that is not, the run is determined. -/
theorem append_inj_of_delimited {α : Type} (inside : α → Prop) {first second rest rest' : List α}
    (hfirst : ∀ a ∈ first, inside a) (hsecond : ∀ a ∈ second, inside a)
    (hrest : ∀ a ∈ rest.head?, ¬ inside a) (hrest' : ∀ a ∈ rest'.head?, ¬ inside a)
    (h : first ++ rest = second ++ rest') : first = second ∧ rest = rest' := by
  induction first generalizing second with
  | nil =>
    cases second with
    | nil => exact ⟨rfl, h⟩
    | cons b second =>
      have hhead : b ∈ rest.head? := by simp [show rest = b :: (second ++ rest') from h]
      exact absurd (hsecond b List.mem_cons_self) (hrest b hhead)
  | cons a first ih =>
    cases second with
    | nil =>
      have hhead : a ∈ rest'.head? := by simp [show rest' = a :: (first ++ rest) from h.symm]
      exact absurd (hfirst a List.mem_cons_self) (hrest' a hhead)
    | cons b second =>
      rw [List.forall_mem_cons] at hfirst hsecond
      obtain ⟨rfl, htail⟩ := List.cons.inj h
      obtain ⟨rfl, hrest⟩ := ih hfirst.2 hsecond.2 htail
      exact ⟨rfl, hrest⟩

open Identifier (IsPlainKey IsWord)

/-! ## §2 Single lines -/

/-- A text that has no line feed. -/
def SingleLine (line : String) : Prop := '\n' ∉ line.toList

instance (line : String) : Decidable (SingleLine line) := inferInstanceAs (Decidable (¬ _))

/-- A literal is a list of characters, which are compared one by one. -/
theorem singleLine_ofList {chars : List Char} (h : '\n' ∉ chars) :
    SingleLine (String.ofList chars) := by
  rwa [SingleLine, String.toList_ofList]

@[simp] theorem singleLine_append {first second : String} :
    SingleLine (first ++ second) ↔ SingleLine first ∧ SingleLine second := by
  simp [SingleLine, not_or]

theorem Identifier.IsWord.singleLine {name : String} (h : IsWord name) : SingleLine name :=
  fun hmem => absurd (h.chars '\n' hmem) (by decide)

theorem Identifier.IsPlainKey.singleLine {key : String} (h : IsPlainKey key) : SingleLine key :=
  fun hmem => absurd (h '\n' hmem) (by decide)

theorem singleLine_intercalate {separator : String} (hseparator : SingleLine separator) :
    ∀ parts : List String, (∀ part ∈ parts, SingleLine part) →
      SingleLine (separator.intercalate parts)
  | [], _ => by simp [SingleLine]
  | [part], h => by
    rw [String.intercalate_singleton]
    exact h part List.mem_cons_self
  | part :: next :: rest, h => by
    rw [List.forall_mem_cons] at h
    rw [String.intercalate_cons_cons, singleLine_append, singleLine_append]
    exact ⟨⟨h.1, hseparator⟩, singleLine_intercalate hseparator (next :: rest) h.2⟩

namespace Source

@[simp] theorem singleLine_indent (level : Nat) : SingleLine (indent level) := by
  rw [SingleLine, indent, String.toList_ofList, List.mem_replicate]
  simp

/-! ## §3 Lines and texts -/

theorem ofLines_cons (line : String) (rest : List String) :
    ofLines (line :: rest) = line ++ ("\n" ++ ofLines rest) := by
  rw [ofLines, List.map_cons, String.join_cons, String.append_assoc]
  rfl

theorem ofLines_append (first second : List String) :
    ofLines (first ++ second) = ofLines first ++ ofLines second := by
  induction first with
  | nil => simp [ofLines]
  | cons line rest ih =>
    rw [List.cons_append, ofLines_cons, ofLines_cons, ih]
    simp only [String.append_assoc]

/-- **Lines are determined by their text**, if none of them has a line feed. -/
theorem ofLines_injective {first second : List String} (hfirst : ∀ line ∈ first, SingleLine line)
    (hsecond : ∀ line ∈ second, SingleLine line) (h : ofLines first = ofLines second) :
    first = second := by
  induction first generalizing second with
  | nil =>
    cases second with
    | nil => rfl
    | cons line rest => simpa [ofLines] using congrArg String.toList h
  | cons line rest ih =>
    cases second with
    | nil => simpa [ofLines] using congrArg String.toList h
    | cons line' rest' =>
      rw [List.forall_mem_cons] at hfirst hsecond
      -- The first line ends at the first line feed of either text.
      have hchars : line.toList ++ '\n' :: (ofLines rest).toList =
          line'.toList ++ '\n' :: (ofLines rest').toList := by
        simpa [ofLines_cons] using congrArg String.toList h
      obtain ⟨hline, hrest⟩ := append_inj_of_delimited (· ≠ '\n')
        (fun c hc heq => hfirst.1 (heq ▸ hc)) (fun c hc heq => hsecond.1 (heq ▸ hc))
        (by simp) (by simp) hchars
      have hrest : ofLines rest = ofLines rest' := String.toList_injective (List.cons.inj hrest).2
      rw [String.toList_injective hline, ih hfirst.2 hsecond.2 hrest]

/-! ## §4 The lines of a plan -/

/-- The lines that name the program. -/
def nameLines (holder : Holder) : List String :=
  headerLines holder ++ instanceLines holder ++
    ["    /// Typed view of `" ++ holder.fileName ++ "`."]

/-- The lines of a structure with a blank line before it. -/
def sectionLines (type : ValueType) : List String := "" :: valueTypeLines type

/-- The lines after those that name the program. -/
def planLines (holder : Holder) (types : List ValueType) : List String :=
  structureLines holder.typeName holder.properties ++
    ("" :: accessorLines holder.typeName ++
      (holder.initializer.flatMap statementLines ++
        ("            ::core::result::Result::Ok(settings)" :: "        \x7d" :: "    \x7d" ::
          (types.flatMap sectionLines ++ ["\x7d"]))))

theorem valueTypes_eq_ofLines : ∀ types : List ValueType,
    (if types.isEmpty then "" else "\n" ++ valueTypes types) = ofLines (types.flatMap sectionLines)
  | [] => rfl
  | [type] => by
    simp [valueTypes, valueType, sectionLines, ofLines_cons]
  | type :: next :: rest => by
    have ih := valueTypes_eq_ofLines (next :: rest)
    simp only [List.isEmpty_cons, Bool.false_eq_true, if_false] at ih ⊢
    have hnext : valueTypes (type :: next :: rest) =
        valueType type ++ ("\n" ++ valueTypes (next :: rest)) := by
      simp only [valueTypes, List.map_cons, String.intercalate_cons_cons, String.append_assoc]
    have hlines : ofLines ((type :: next :: rest).flatMap sectionLines) =
        "\n" ++ (valueType type ++ ofLines ((next :: rest).flatMap sectionLines)) := by
      rw [List.flatMap_cons, ofLines_append, sectionLines, ofLines_cons, valueType,
        String.append_assoc]
      rfl
    rw [hnext, hlines, ih]

/-- **A source is its names and its plan.** -/
theorem moduleText_eq_append (holder : Holder) (types : List ValueType) :
    moduleText holder types = ofLines (nameLines holder) ++ ofLines (planLines holder types) := by
  rw [moduleText, Source.holder, valueTypes_eq_ofLines]
  simp only [← ofLines_append, nameLines, planLines, holderLines]
  simp only [List.append_assoc, List.cons_append, List.nil_append]

end Source

/-! ## §5 Legible plans -/

/-- The identifier and the name of a declared structure are words. -/
structure Field.Legible (field : Field) : Prop where
  ident : IsWord field.ident
  type : ∀ name, field.type = .value name → IsWord name

/-- All names in a step are words. -/
inductive Step.Legible : Step → Prop where
  | read {target : String} {path : KeyPath} {type : ScalarType} (target_word : IsWord target) :
      Legible (.read target path type)
  | construct {target typeName : String} {fields : List Step} (target_word : IsWord target)
      (typeName_word : IsWord typeName) (fields_legible : ∀ field ∈ fields, Legible field) :
      Legible (.construct target typeName fields)

theorem Step.Legible.target {step : Step} (h : step.Legible) : IsWord step.target := by
  cases h <;> assumption

/-- All names in a declaration are words, and the path has no line feed. -/
structure ValueType.Legible (type : ValueType) : Prop where
  name : IsWord type.name
  path : SingleLine type.path.dotted
  fields : ∀ field ∈ type.fields, field.Legible

namespace Source

/-- A holder and value types in which all names are words. -/
structure Legible (holder : Holder) (types : List ValueType) : Prop where
  typeName : IsWord holder.typeName
  properties : ∀ property ∈ holder.properties, property.Legible
  initializer : ∀ step ∈ holder.initializer, step.Legible
  types : ∀ type ∈ types, type.Legible

theorem singleLine_spelling (type : ScalarType) : SingleLine type.spelling := by
  induction type with
  | sequence item ih =>
    have hparts : ∀ part ∈ ["::std::vec::Vec<", item.spelling, ">"], SingleLine part := by
      simp [SingleLine] at ih ⊢
      exact ih
    simpa [ScalarType.spelling, SingleLine] using hparts
  | _ => simp [ScalarType.spelling, SingleLine]

theorem singleLine_fieldLine {field : Field} (h : field.Legible) :
    SingleLine (fieldLine field) := by
  have htype : SingleLine field.type.spelling := by
    cases htype : field.type with
    | scalar type => exact singleLine_spelling type
    | value name => exact (h.type name htype).singleLine
  have hident : SingleLine field.ident := h.ident.singleLine
  simp +decide [fieldLine, htype, hident]

theorem singleLine_of_mem_structureLines {name : String} {fields : List Field}
    (hname : IsWord name) (hfields : ∀ field ∈ fields, field.Legible) :
    ∀ line ∈ structureLines name fields, SingleLine line := by
  have hname : SingleLine name := hname.singleLine
  cases fields with
  | nil =>
    simp +decide [structureLines, hname]
  | cons field fields =>
    have hlines : ∀ line ∈ (field :: fields).map fieldLine, SingleLine line := by
      intro line hline
      obtain ⟨field', hfield, rfl⟩ := List.mem_map.mp hline
      exact singleLine_fieldLine (hfields field' hfield)
    simp only [structureLines, List.forall_mem_cons, List.forall_mem_append, List.cons_append,
      singleLine_append, singleLine_indent, hname]
    exact ⟨by decide, by decide, hlines, by decide, nofun⟩

theorem singleLine_readCall (path : KeyPath) : SingleLine (readCall path) := by
  have hkeys : SingleLine (", ".intercalate (path.map Literal.encode)) := by
    apply singleLine_intercalate (by decide)
    intro part hpart
    obtain ⟨key, -, rfl⟩ := List.mem_map.mp hpart
    exact Literal.newline_notMem key
  simpa [readCall, SingleLine] using hkeys

mutual

theorem singleLine_of_mem_stepLines {level : Nat} {opening closing : String}
    (hopening : SingleLine opening) (hclosing : SingleLine closing) : ∀ {step : Step},
    step.Legible → ∀ line ∈ stepLines level opening closing step, SingleLine line
  | .read target path type, _ => by
    simp [stepLines, hopening, hclosing, singleLine_readCall]
  | .construct target typeName [], .construct _ hname _ => by
    simp +decide [stepLines, hopening, hclosing, hname.singleLine]
  | .construct target typeName (field :: fields), .construct _ hname hfields => by
    have hlines : ∀ line ∈ fieldsLines (level + 1) (field :: fields), SingleLine line :=
      singleLine_of_mem_fieldsLines (level + 1) (field :: fields) hfields
    rw [fieldsLines] at hlines
    simp only [stepLines, List.forall_mem_cons, List.forall_mem_append, singleLine_append,
      singleLine_indent, hopening, hclosing, hname.singleLine]
    exact ⟨by decide, List.forall_mem_append.mp hlines, by decide, nofun⟩

theorem singleLine_of_mem_fieldsLines (level : Nat) : ∀ fields : List Step,
    (∀ field ∈ fields, field.Legible) → ∀ line ∈ fieldsLines level fields, SingleLine line
  | [], _ => nofun
  | field :: fields, h => by
    have hopening : SingleLine (field.target ++ ": ") :=
      singleLine_append.mpr ⟨(h field List.mem_cons_self).target.singleLine, by decide⟩
    rw [fieldsLines, List.forall_mem_append]
    exact ⟨singleLine_of_mem_stepLines hopening (by decide) (h field List.mem_cons_self),
      singleLine_of_mem_fieldsLines level fields fun other hother =>
        h other (List.mem_cons_of_mem _ hother)⟩

end

theorem singleLine_of_mem_accessorLines {typeName : String} (h : IsWord typeName) :
    ∀ line ∈ accessorLines typeName, SingleLine line := by
  have hname : SingleLine typeName := h.singleLine
  simp only [accessorLines, List.forall_mem_cons, singleLine_append, hname]
  and_intros
  all_goals first | exact singleLine_ofList (by decide) | exact True.intro | exact nofun

/-- The lines of a legible plan have no line feeds. -/
theorem singleLine_of_mem_planLines {holder : Holder} {types : List ValueType}
    (h : Legible holder types) : ∀ line ∈ planLines holder types, SingleLine line := by
  have hstatements : ∀ line ∈ holder.initializer.flatMap statementLines, SingleLine line := by
    intro line hline
    obtain ⟨step, hstep, hline⟩ := List.mem_flatMap.mp hline
    have hlegible : step.Legible := h.initializer step hstep
    refine singleLine_of_mem_stepLines ?_ (by decide) hlegible line hline
    simp +decide [hlegible.target.singleLine]
  have hsections : ∀ line ∈ types.flatMap sectionLines, SingleLine line := by
    intro line hline
    obtain ⟨type, htype, hline⟩ := List.mem_flatMap.mp hline
    have hlegible : type.Legible := h.types type htype
    have hlines : ∀ line ∈ sectionLines type, SingleLine line := by
      simp only [sectionLines, valueTypeLines, List.forall_mem_cons, singleLine_append,
        singleLine_indent, hlegible.path]
      exact ⟨by decide, by decide,
        singleLine_of_mem_structureLines hlegible.name hlegible.fields⟩
    exact hlines line hline
  have hproperties := singleLine_of_mem_structureLines h.typeName h.properties
  have haccessors := singleLine_of_mem_accessorLines h.typeName
  simp only [planLines, List.forall_mem_append, List.forall_mem_cons, List.cons_append]
  exact ⟨hproperties, by decide, haccessors, hstatements, by decide, by decide, by decide,
    hsections, by decide, nofun⟩

end Source

end TypedSettings

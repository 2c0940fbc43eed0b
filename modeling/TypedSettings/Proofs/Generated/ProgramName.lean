import Mathlib
import TypedSettings.Proofs.Generated.Lines
import TypedSettings.Proofs.Identifier.Legal

/-!
# The name of the program in a source

The name of a program gets into four lines of a source. In two of them it is part of an identifier
and of a literal, which have no line feeds whatever the name is. The other two are comments, which
quote the name of the settings file as it is: a line feed in the name of the program ends them, and
what follows it is read as code. All other lines are the same for all programs.

Main facts:
- `Source.skeleton`: a source without the name of the program
- `Source.lineCount_line`: the lines that the name gets into
- `Source.program_name_places`: how many lines a source has
-/

namespace TypedSettings

namespace Source

/-! ## §1 Counting lines -/

/-- The number of line feeds of a text, which is that of its lines if each of them ends in one. -/
def lineCount (text : String) : Nat := text.toList.count '\n'

@[simp] theorem lineCount_append (first second : String) :
    lineCount (first ++ second) = lineCount first + lineCount second := by
  simp [lineCount]

theorem lineCount_eq_zero_iff {text : String} : lineCount text = 0 ↔ SingleLine text :=
  List.count_eq_zero

theorem lineCount_between {before after : String} (hbefore : SingleLine before) (text : String)
    (hafter : SingleLine after) : lineCount (before ++ text ++ after) = lineCount text := by
  rw [lineCount_append, lineCount_append, lineCount_eq_zero_iff.mpr hbefore,
    lineCount_eq_zero_iff.mpr hafter, Nat.zero_add, Nat.add_zero]

theorem lineCount_ofLines_cons (line : String) (rest : List String) :
    lineCount (ofLines (line :: rest)) = lineCount line + 1 + lineCount (ofLines rest) := by
  have hfeed : lineCount "\n" = 1 := by decide
  rw [ofLines_cons, lineCount_append, lineCount_append, hfeed, Nat.add_assoc]

/-! ## §2 Places of the name -/

/-- The lines that the name of the program gets into. -/
inductive Place where
  | header
  | opening
  | constant
  | description
  deriving DecidableEq, Repr

/-- The line at a place. -/
def Place.line (variant : Variant) (program : String) : Place → String
  | .header => "// @generated by settingsgen from `" ++ variant.fileName program ++
      "`. Do not edit."
  | .opening => "pub mod " ++ variant.moduleName program ++ " \x7b"
  | .constant => "    pub const FILE_NAME: &str = " ++
      Literal.encode (variant.fileName program) ++ ";"
  | .description => "    /// Typed view of `" ++ variant.fileName program ++ "`."

/-- Is the line at a place a comment? -/
def Place.isComment : Place → Bool
  | .header | .description => true
  | .opening | .constant => false

theorem isPlainChar_of_mem_moduleSuffix (variant : Variant) :
    ∀ c ∈ variant.moduleSuffix.toList, Identifier.IsPlainChar c := by
  cases variant <;> simp [Variant.moduleSuffix, Identifier.IsPlainChar]

theorem singleLine_moduleName (variant : Variant) (program : String) :
    SingleLine (variant.moduleName program) := fun hmem =>
  absurd (Identifier.isPlainChar_moduleName (isPlainChar_of_mem_moduleSuffix variant) _ hmem)
    (by decide)

/-- **Comments are as long as the file name makes them**; the other lines are single. -/
theorem lineCount_line (variant : Variant) (program : String) (place : Place) :
    lineCount (place.line variant program) =
      if place.isComment then lineCount (variant.fileName program) else 0 := by
  have hmodule := lineCount_eq_zero_iff.mpr (singleLine_moduleName variant program)
  have hliteral := lineCount_eq_zero_iff.mpr (Literal.newline_notMem (variant.fileName program))
  cases place with
  | header => exact lineCount_between (singleLine_ofList (by decide)) _ (by decide)
  | opening => exact (lineCount_between (by decide) _ (by decide)).trans hmodule
  | constant =>
    exact (lineCount_between (singleLine_ofList (by decide)) _ (by decide)).trans hliteral
  | description => exact lineCount_between (by decide) _ (by decide)

/-! ## §3 Skeletons -/

/-- Lines that do not depend on the name. -/
def fixed (lines : List String) : List (Place ⊕ String) := lines.map Sum.inr

/-- A source without the name of the program: its lines, and the places of the name among them. -/
def skeleton (schema : Schema) (variant : Variant) : List (Place ⊕ String) :=
  -- Any program will do, as its name is in the lines that are left out.
  let holder := schema.holder variant "p"
  Sum.inl Place.header :: (fixed (headerLines holder).tail.dropLast ++
    (Sum.inl Place.opening :: (fixed ((instanceLines holder).take 1) ++
      (Sum.inl Place.constant :: (fixed ((instanceLines holder).drop 2) ++
        (Sum.inl Place.description :: fixed (planLines holder schema.valueTypes)))))))

/-- A line of a skeleton with the name put in. -/
def fill (variant : Variant) (program : String) : Place ⊕ String → String :=
  Sum.elim (Place.line variant program) id

/-- The places that a skeleton has. -/
def places (skeleton : List (Place ⊕ String)) : List Place := skeleton.filterMap Sum.getLeft?

theorem map_fill_fixed (variant : Variant) (program : String) (lines : List String) :
    (fixed lines).map (fill variant program) = lines := by
  rw [fixed, List.map_map]
  exact List.map_id lines

theorem source_eq_fill_skeleton (schema : Schema) (variant : Variant) (program : String) :
    schema.source variant program =
      ofLines ((skeleton schema variant).map (fill variant program)) := by
  rw [Schema.source, moduleText_eq_append, ← ofLines_append, skeleton]
  simp only [List.map_append, List.map_cons, map_fill_fixed]
  rfl

theorem places_skeleton (schema : Schema) (variant : Variant) :
    places (skeleton schema variant) = [.header, .opening, .constant, .description] := by
  have hfixed (lines : List String) : (fixed lines).filterMap Sum.getLeft? = [] := by
    simp [fixed, List.filterMap_map]
  simp only [places, skeleton, List.filterMap_append, List.filterMap_cons, hfixed, Sum.getLeft?_inl,
    List.nil_append]

/-- **Line feeds of the name** are those of the comments that quote it. -/
theorem lineCount_fill (variant : Variant) {program plain : String}
    (hplain : SingleLine (variant.fileName plain)) (skeleton : List (Place ⊕ String)) :
    lineCount (ofLines (skeleton.map (fill variant program))) =
      lineCount (ofLines (skeleton.map (fill variant plain))) +
        (places skeleton).countP Place.isComment * lineCount (variant.fileName program) := by
  have hnone := lineCount_eq_zero_iff.mpr hplain
  induction skeleton with
  | nil => simp [places]
  | cons first rest ih =>
    rw [List.map_cons, List.map_cons, lineCount_ofLines_cons, lineCount_ofLines_cons, ih]
    cases first with
    | inl place =>
      simp only [places, fill, Sum.elim_inl, lineCount_line, hnone, List.filterMap_cons,
        Sum.getLeft?_inl, List.countP_cons]
      split_ifs <;> ring
    | inr line =>
      simp only [places, fill, Sum.elim_inr, List.filterMap_cons, Sum.getLeft?_inr]
      ring

theorem lineCount_source (schema : Schema) (variant : Variant) (program : String) :
    lineCount (schema.source variant program) =
      lineCount (schema.source variant "p") + 2 * lineCount (variant.fileName program) := by
  have hplain : SingleLine (variant.fileName "p") := by cases variant <;> decide
  have hcomments : (places (skeleton schema variant)).countP Place.isComment = 2 := by
    rw [places_skeleton]
    rfl
  rw [source_eq_fill_skeleton, source_eq_fill_skeleton, lineCount_fill variant hplain, hcomments]

/-! ## §4 Sources of programs -/

/-- **The name of a program gets into four lines**, and in the lines that are no comments it stays
inside an identifier and a literal. A source for public settings has as many lines for all programs.
One for internal settings has two lines more for every line feed in the name, as the name is quoted
in two comments; these are single lines exactly if the name has none. -/
theorem program_name_places (schema : Schema) :
    (∀ variant program, schema.source variant program =
      ofLines ((skeleton schema variant).map (fill variant program))) ∧
    (∀ variant, places (skeleton schema variant) =
      [.header, .opening, .constant, .description]) ∧
    (∀ variant program (place : Place), SingleLine (place.line variant program) ↔
      (place.isComment = true → SingleLine (variant.fileName program))) ∧
    (∀ (variant : Variant) program, Identifier.IsName (variant.moduleName program)) ∧
    (∀ (variant : Variant) program rest,
      Literal.decode? ((Literal.encode (variant.fileName program)).toList ++ rest) =
        some ((variant.fileName program).toList, rest)) ∧
    (∀ program, lineCount (schema.source .publicSettings program) =
      lineCount (schema.source .publicSettings "p")) ∧
    (∀ program, lineCount (schema.source .internalSettings program) =
      lineCount (schema.source .internalSettings "p") + 2 * lineCount program) := by
  refine ⟨source_eq_fill_skeleton schema, places_skeleton schema, ?comments,
    fun variant program => ?identifier, fun variant program => Literal.decode?_encode_append _,
    fun program => ?publicLines, fun program => ?internalLines⟩
  case comments =>
    intro variant program place
    rw [← lineCount_eq_zero_iff, ← lineCount_eq_zero_iff, lineCount_line]
    split_ifs with hcomment <;> simp [hcomment]
  case identifier =>
    exact Identifier.isName_moduleName (isPlainChar_of_mem_moduleSuffix variant)
      (by cases variant <;> decide)
  case publicLines =>
    have hpublic : lineCount (Variant.publicSettings.fileName program) = 0 :=
      lineCount_eq_zero_iff.mpr (by decide : SingleLine "settings.json")
    rw [lineCount_source, hpublic, Nat.mul_zero, Nat.add_zero]
  case internalLines =>
    have hsuffix : lineCount ".settings.json" = 0 := lineCount_eq_zero_iff.mpr (by decide)
    rw [lineCount_source, Variant.fileName, lineCount_append, hsuffix, Nat.add_zero]

/-- A line feed in the name of a program ends the first comment, and the rest of it is code. -/
theorem program_name_becomes_code :
    lineCount (Schema.source [] .internalSettings "a\nb") ≠
        lineCount (Schema.source [] .internalSettings "p") ∧
      ∃ rest, Schema.source [] .internalSettings "a\nb" =
        ofLines ["// @generated by settingsgen from `a", "b.settings.json`. Do not edit."] ++
          rest := by
  constructor
  · have hname : lineCount (Variant.internalSettings.fileName "a\nb") = 1 := by decide
    rw [lineCount_source, hname]
    omega
  · have hheader : ofLines [Place.header.line .internalSettings "a\nb"] =
        ofLines ["// @generated by settingsgen from `a", "b.settings.json`. Do not edit."] := by
      decide
    rw [source_eq_fill_skeleton, skeleton, List.map_cons, ← List.singleton_append, ofLines_append,
      ← hheader]
    exact ⟨_, rfl⟩

end Source

end TypedSettings

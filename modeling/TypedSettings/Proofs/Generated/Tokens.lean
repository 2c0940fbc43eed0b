import Mathlib
import TypedSettings.Proofs.Generated.Keys
import TypedSettings.Proofs.Generated.Lines
import TypedSettings.Proofs.Text.Code

/-!
# Tokens of a module

The tokens that a module is written in, line by line. Names that are made of keys stand in them as
names, and comments and literals as such, whatever characters they have; all other tokens are cut
from fixed pieces of code. The tokens always make up the source. Where all names are words and the
name of the settings file has no line feed, they are what a reader of the language cuts it into.

Main facts:
- `Source.moduleTokens`: the tokens of a module
- `Source.spell_moduleTokens`: they make up its text
- `Source.cut_moduleText`: they are the tokens of its text, if all names in it are words
-/

namespace TypedSettings

open Identifier (IsWord EndsWord)
open Code (cut spell readingAfter cut_append cut_append_of_nothing cut_append_of_word cut_word
  cut_literal cut_comment)

namespace Source

/-! ## §1 Lines of tokens -/

/-- Lines of tokens, each with the line feed that ends it. -/
def flatten (lines : List (List Code.Token)) : List Code.Token := lines.flatMap (· ++ [.mark '\n'])

/-- The tokens of a declared type. -/
def typeTokens : FieldType → List Code.Token
  | .scalar type => cut type.spelling
  | .value name => [.name name]

/-- The tokens of the declaration of a field. -/
def fieldTokens (field : Field) : List Code.Token :=
  cut (indent 2) ++ cut "pub " ++ .name field.ident ::
    (cut ": " ++ (typeTokens field.type ++ cut ","))

/-- The tokens of the declaration of a structure. -/
def structureTokens (name : String) (fields : List Field) : List (List Code.Token) :=
  (cut (indent 1) ++ cut "#[derive(Debug, Clone, Default, PartialEq, Eq)]") ::
    match fields with
    | [] => [cut (indent 1) ++ cut "pub struct " ++ .name name :: cut " \x7b\x7d"]
    | fields =>
      (cut (indent 1) ++ cut "pub struct " ++ .name name :: cut " \x7b") ::
        fields.map fieldTokens ++ [cut (indent 1) ++ cut "\x7d"]

/-- The tokens of a structure with a blank line before it. -/
def sectionTokens (type : ValueType) : List (List Code.Token) :=
  [] ::
    (cut (indent 1) ++ [.comment ("/// Values of the `" ++ type.path.dotted ++ "` section.")]) ::
    structureTokens type.name type.fields

mutual

/-- The tokens of the lines that assign a value after `opening` and end in `closing`. -/
def stepTokens (level : Nat) (opening closing : List Code.Token) : Step → List (List Code.Token)
  | .read _ path _ => [cut (indent level) ++ (opening ++ (cut (readCall path) ++ closing))]
  | .construct _ typeName [] =>
    [cut (indent level) ++ (opening ++ .name typeName :: (cut " \x7b\x7d" ++ closing))]
  | .construct _ typeName (field :: fields) =>
    (cut (indent level) ++ (opening ++ .name typeName :: cut " \x7b")) ::
      (stepTokens (level + 1) (.name field.target :: cut ": ") (cut ",") field ++
        fieldsTokens (level + 1) fields ++ [cut (indent level) ++ (cut "\x7d" ++ closing)])

/-- The tokens of the fields of a structure expression. -/
def fieldsTokens (level : Nat) : List Step → List (List Code.Token)
  | [] => []
  | field :: fields =>
    stepTokens level (.name field.target :: cut ": ") (cut ",") field ++ fieldsTokens level fields

end

/-- The tokens of a statement of the initializer. -/
def statementTokens (step : Step) : List (List Code.Token) :=
  stepTokens 3 (cut "settings." ++ .name step.target :: cut " = ") (cut ";") step

/-- The tokens of the file name constant and the lazily loaded instance. -/
def instanceTokens (holder : Holder) : List (List Code.Token) := [
  cut "    /// File read from the directory of the running executable.",
  cut "    pub const FILE_NAME: &str = " ++ .literal (Literal.encode holder.fileName) :: cut ";",
  [],
  cut "    static INSTANCE: ::std::sync::LazyLock<" ++ .name holder.typeName ::
    cut "> = ::std::sync::LazyLock::new(|| \x7b",
  cut "        " ++ .name holder.typeName ::
    cut "::load().unwrap_or_else(|err| panic!(\"failed to load \x7bFILE_NAME\x7d: \x7berr\x7d\"))",
  cut "    \x7d);",
  []]

/-- The tokens of the accessors of a holder up to the body of its initializer. -/
def accessorTokens (typeName : String) : List (List Code.Token) := [
  cut "    impl " ++ .name typeName :: cut " \x7b",
  cut "        /// The process-wide instance, loaded on first access.",
  cut "        ///",
  cut "        /// Panics if the file cannot be read or does not match the declared types.",
  cut "        pub fn get() -> &'static " ++ .name typeName :: cut " \x7b",
  cut "            &INSTANCE",
  cut "        \x7d",
  [],
  cut "        /// Reads and parses [`FILE_NAME`] next to the running executable.",
  cut "        pub fn load() -> ::core::result::Result<Self, ::settingsgen_runtime::Error> \x7b",
  cut "            let document = ::settingsgen_runtime::load_adjacent(FILE_NAME)?;",
  cut "            Self::from_document(&document)",
  cut "        \x7d",
  [],
  cut "        /// Builds the settings from an already parsed document.",
  cut "        pub fn from_document(",
  cut "            document: &::settingsgen_runtime::Value,",
  cut "        ) -> ::core::result::Result<Self, ::settingsgen_runtime::Error> \x7b",
  cut "            let mut settings = Self::default();"]

/-- The tokens of the lines before the holder. -/
def headerTokens (holder : Holder) : List (List Code.Token) := [
  [.comment ("// @generated by settingsgen from `" ++ holder.fileName ++ "`. Do not edit.")],
  [],
  cut "#[allow(",
  cut "    non_snake_case,",
  cut "    non_camel_case_types,",
  cut "    dead_code,",
  cut "    unused_mut,",
  cut "    unused_variables,",
  cut "    clippy::all",
  cut ")]",
  cut "pub mod " ++ .name holder.moduleName :: cut " \x7b"]

/-- The tokens of a holder and its value types. -/
def moduleTokens (holder : Holder) (types : List ValueType) : List Code.Token :=
  flatten (headerTokens holder ++ instanceTokens holder ++
    [cut (indent 1) ++ [.comment ("/// Typed view of `" ++ holder.fileName ++ "`.")]]) ++
  flatten (structureTokens holder.typeName holder.properties ++
    ([] :: accessorTokens holder.typeName ++
      (holder.initializer.flatMap statementTokens ++
        (cut "            ::core::result::Result::Ok(settings)" :: cut "        \x7d" ::
          cut "    \x7d" :: (types.flatMap sectionTokens ++ [cut "\x7d"])))))

/-! ## §2 The text of tokens -/

theorem flatten_cons (line : List Code.Token) (rest : List (List Code.Token)) :
    flatten (line :: rest) = line ++ .mark '\n' :: flatten rest := by
  simp [flatten]

theorem flatten_append (first second : List (List Code.Token)) :
    flatten (first ++ second) = flatten first ++ flatten second := by
  simp [flatten]

theorem spell_flatten (lines : List (List Code.Token)) :
    spell (flatten lines) = ofLines (lines.map spell) := by
  induction lines with
  | nil => rfl
  | cons line rest ih =>
    rw [flatten_cons, List.map_cons, ofLines_cons, Code.spell_append, Code.spell_cons, ih]
    rfl

theorem spell_typeTokens (type : FieldType) : spell (typeTokens type) = type.spelling := by
  cases type with
  | scalar type => exact Code.spell_cut _
  | value name => simp [typeTokens, FieldType.spelling]

theorem spell_fieldTokens (field : Field) : spell (fieldTokens field) = fieldLine field := by
  simp [fieldTokens, fieldLine, spell_typeTokens, String.append_assoc]

theorem map_spell_structureTokens (name : String) (fields : List Field) :
    (structureTokens name fields).map spell = structureLines name fields := by
  cases fields with
  | nil => simp [structureTokens, structureLines, String.append_assoc]
  | cons field fields =>
    simp [structureTokens, structureLines, spell_fieldTokens, String.append_assoc]

theorem map_spell_sectionTokens (type : ValueType) :
    (sectionTokens type).map spell = sectionLines type := by
  simp [sectionTokens, sectionLines, valueTypeLines, map_spell_structureTokens, String.append_assoc]

mutual

theorem map_spell_stepTokens (level : Nat) (opening closing : List Code.Token) : ∀ step : Step,
    (stepTokens level opening closing step).map spell =
      stepLines level (spell opening) (spell closing) step
  | .read .. => by simp [stepTokens, stepLines, String.append_assoc]
  | .construct _ _ [] => by simp [stepTokens, stepLines, String.append_assoc]
  | .construct _ _ (field :: fields) => by
    have hfield := map_spell_stepTokens (level + 1) (.name field.target :: cut ": ") (cut ",") field
    have hfields := map_spell_fieldsTokens (level + 1) fields
    simp only [Code.spell_name, Code.spell_cut] at hfield
    simp [stepTokens, stepLines, hfield, hfields, String.append_assoc]

theorem map_spell_fieldsTokens (level : Nat) : ∀ fields : List Step,
    (fieldsTokens level fields).map spell = fieldsLines level fields
  | [] => rfl
  | field :: fields => by
    have hfield := map_spell_stepTokens level (.name field.target :: cut ": ") (cut ",") field
    simp only [Code.spell_name, Code.spell_cut] at hfield
    rw [fieldsTokens, fieldsLines, List.map_append, hfield, map_spell_fieldsTokens level fields]

end

theorem map_spell_statementTokens (step : Step) :
    (statementTokens step).map spell = statementLines step := by
  rw [statementTokens, map_spell_stepTokens, statementLines]
  simp [String.append_assoc]

/-- **Tokens make up the text of a module.** -/
theorem spell_moduleTokens (holder : Holder) (types : List ValueType) :
    spell (moduleTokens holder types) = moduleText holder types := by
  have hheader : (headerTokens holder).map spell = headerLines holder := by
    simp [headerTokens, headerLines, String.append_assoc]
  have hinstance : (instanceTokens holder).map spell = instanceLines holder := by
    simp [instanceTokens, instanceLines, String.append_assoc, Code.spell_literal]
  have hview : spell (cut (indent 1) ++
      [.comment ("/// Typed view of `" ++ holder.fileName ++ "`.")]) =
        "    /// Typed view of `" ++ holder.fileName ++ "`." := by
    have hindented : indent 1 ++ "/// Typed view of `" = "    /// Typed view of `" := by decide
    rw [Code.spell_append, Code.spell_cut, Code.spell_comment, Code.spell_nil, String.append_empty,
      ← String.append_assoc, ← String.append_assoc, hindented]
  have haccessors : (accessorTokens holder.typeName).map spell = accessorLines holder.typeName := by
    simp [accessorTokens, accessorLines, String.append_assoc]
  have hstatements : (holder.initializer.flatMap statementTokens).map spell =
      holder.initializer.flatMap statementLines := by
    simp only [List.map_flatMap, map_spell_statementTokens]
  have hsections : (types.flatMap sectionTokens).map spell = types.flatMap sectionLines := by
    simp only [List.map_flatMap, map_spell_sectionTokens]
  rw [moduleText_eq_append, moduleTokens, Code.spell_append, spell_flatten, spell_flatten,
    nameLines, planLines]
  simp only [List.map_append, List.map_cons, List.map_nil, hheader, hinstance, hview, haccessors,
    hstatements, hsections, map_spell_structureTokens, Code.spell_cut, Code.spell_nil]

/-! ## §3 Texts that are cut into tokens -/

/-- A text is cut into the tokens, whatever follows. -/
def CutsInto (text : String) (tokens : List Code.Token) : Prop :=
  ∀ rest, cut (text ++ rest) = tokens ++ cut rest

theorem cutsInto_cut {text : String} (h : readingAfter text = .nothing) :
    CutsInto text (cut text) :=
  cut_append_of_nothing h

/-- A fixed piece of code. -/
theorem cutsInto_ofList {chars : List Char} (h : (Code.run .nothing chars).2 = .nothing) :
    CutsInto (String.ofList chars) (cut (String.ofList chars)) :=
  cutsInto_cut ((Code.readingAfter_ofList chars).trans h)

theorem CutsInto.append {first second : String} {tokens tokens' : List Code.Token}
    (hfirst : CutsInto first tokens) (hsecond : CutsInto second tokens') :
    CutsInto (first ++ second) (tokens ++ tokens') := by
  intro rest
  rw [String.append_assoc, hfirst, hsecond, List.append_assoc]

/-- A word and what ends it. -/
theorem CutsInto.word {name text : String} {tokens : List Code.Token} (h : CutsInto text tokens)
    (hname : IsWord name) (hends : ∀ rest, EndsWord (text ++ rest)) :
    CutsInto (name ++ text) (.name name :: tokens) := by
  intro rest
  rw [String.append_assoc, cut_word hname (hends rest), h, List.cons_append]

theorem cutsInto_literal (text : String) :
    CutsInto (Literal.encode text) [.literal (Literal.encode text)] :=
  cut_literal text

/-- A comment and the end of its line. -/
theorem cutsInto_comment {text : String} (h : SingleLine text) :
    CutsInto ("//" ++ text ++ "\n") [.comment ("//" ++ text), .mark '\n'] := by
  have hfeed : readingAfter "\n" = .nothing := by decide
  intro rest
  rw [String.append_assoc, cut_comment h, cut_append_of_nothing hfeed]
  rfl

/-- A line is cut into the tokens, whatever lines follow. -/
def CutsLineInto (line : String) (tokens : List Code.Token) : Prop :=
  CutsInto (line ++ "\n") (tokens ++ [.mark '\n'])

theorem CutsInto.line {line : String} {tokens : List Code.Token} (h : CutsInto line tokens) :
    CutsLineInto line tokens :=
  h.append (cutsInto_cut (by decide))

/-- A fixed line that leaves no literal open. -/
theorem cutsLineInto_ofList {chars : List Char}
    (h : (Code.run .nothing chars).2.isLiteral = false) :
    CutsLineInto (String.ofList chars) (cut (String.ofList chars)) := by
  have hfeed : readingAfter "\n" = .nothing := by decide
  intro rest
  have hstop : ∀ c ∈ ("\n" ++ rest).toList.head?,
      (readingAfter (String.ofList chars)).StopsAt c := by
    intro c hc
    obtain rfl : c = '\n' := by simpa using hc.symm
    rw [Code.readingAfter_ofList]
    exact Code.Reading.stopsAt_newline h
  rw [String.append_assoc, cut_append hstop, cut_append_of_nothing hfeed, List.append_assoc]
  rfl

theorem CutsInto.append_line {first line : String} {tokens tokens' : List Code.Token}
    (hfirst : CutsInto first tokens) (hline : CutsLineInto line tokens') :
    CutsLineInto (first ++ line) (tokens ++ tokens') := by
  have happend := hfirst.append hline
  rwa [← String.append_assoc, ← List.append_assoc] at happend

/-- A word, and the rest of a line that ends it. -/
theorem CutsLineInto.word {name line : String} {tokens : List Code.Token}
    (h : CutsLineInto line tokens) (hname : IsWord name)
    (hends : ∀ rest, EndsWord (line ++ rest)) :
    CutsLineInto (name ++ line) (.name name :: tokens) := by
  have hword := CutsInto.word h hname fun rest => by
    rw [String.append_assoc]
    exact hends _
  rwa [← String.append_assoc] at hword

theorem cutsInto_ofLines {lines : List String} {tokens : List (List Code.Token)}
    (h : List.Forall₂ CutsLineInto lines tokens) : CutsInto (ofLines lines) (flatten tokens) := by
  induction h with
  | nil => exact cutsInto_cut rfl
  | @cons line tokens lines rest hline _ ih =>
    rw [ofLines_cons, ← String.append_assoc]
    exact CutsInto.append hline ih

theorem forall₂_append {first second : List String} {tokens tokens' : List (List Code.Token)}
    (hfirst : List.Forall₂ CutsLineInto first tokens)
    (hsecond : List.Forall₂ CutsLineInto second tokens') :
    List.Forall₂ CutsLineInto (first ++ second) (tokens ++ tokens') :=
  List.rel_append hfirst hsecond

theorem forall₂_flatMap {α : Type} {items : List α} {lines : α → List String}
    {tokens : α → List (List Code.Token)}
    (h : ∀ item ∈ items, List.Forall₂ CutsLineInto (lines item) (tokens item)) :
    List.Forall₂ CutsLineInto (items.flatMap lines) (items.flatMap tokens) := by
  induction items with
  | nil => exact .nil
  | cons item items ih =>
    rw [List.forall_mem_cons] at h
    exact forall₂_append h.1 (ih h.2)

/-! ## §4 Declarations -/

theorem cutsInto_indent (level : Nat) : CutsInto (indent level) (cut (indent level)) := by
  apply cutsInto_cut
  rw [readingAfter, indent, String.toList_ofList]
  induction 4 * level with
  | zero => rfl
  | succ count ih =>
    rw [List.replicate_succ, Code.run, Machine.run_cons]
    exact ih

theorem spelling_sequence (item : ScalarType) :
    (ScalarType.sequence item).spelling = "::std::vec::Vec<" ++ (item.spelling ++ ">") := by
  simp [ScalarType.spelling, String.join, String.append_assoc]

theorem cutsInto_vec : CutsInto "::std::vec::Vec<" (cut "::std::vec::Vec<") :=
  cutsInto_ofList (by decide +kernel)

theorem cut_sequence_of (item : ScalarType)
    (h : ∀ {rest : String}, EndsWord rest →
      cut (item.spelling ++ rest) = cut item.spelling ++ cut rest) :
    cut (ScalarType.sequence item).spelling =
      cut "::std::vec::Vec<" ++ (cut item.spelling ++ cut ">") := by
  have hends : EndsWord ">" := by
    intro c hc
    obtain rfl : c = '>' := by simpa using hc.symm
    decide
  rw [spelling_sequence, cutsInto_vec, h hends]

theorem cut_spelling_append (type : ScalarType) {rest : String} (h : EndsWord rest) :
    cut (type.spelling ++ rest) = cut type.spelling ++ cut rest := by
  -- The spelling of every type but a sequence ends in a word.
  have hword {chars : List Char} (word : List Char) {rest : String} (h : EndsWord rest)
      (hreading : (Code.run .nothing chars).2 = .word word) :
      cut (String.ofList chars ++ rest) = cut (String.ofList chars) ++ cut rest :=
    cut_append_of_word ((Code.readingAfter_ofList chars).trans hreading) h
  induction type generalizing rest with
  | integer => exact hword ['i', '6', '4'] h (by decide +kernel)
  | boolean => exact hword ['b', 'o', 'o', 'l'] h (by decide +kernel)
  | string => exact hword ['S', 't', 'r', 'i', 'n', 'g'] h (by decide +kernel)
  | sequence item ih =>
    have hitem : cut (ScalarType.sequence item).spelling = _ := cut_sequence_of item ih
    have hclose : CutsInto ">" _ := cutsInto_ofList (by decide)
    have hends : EndsWord (">" ++ rest) := by simp +decide [EndsWord]
    rw [hitem, spelling_sequence, String.append_assoc, cutsInto_vec, String.append_assoc, ih hends,
      hclose]
    simp only [List.append_assoc]

theorem cut_sequence (item : ScalarType) : cut (ScalarType.sequence item).spelling =
    cut "::std::vec::Vec<" ++ (cut item.spelling ++ cut ">") :=
  cut_sequence_of item (cut_spelling_append item)

/-- The spelling of a type, in front of what ends words. -/
theorem CutsLineInto.type {type : FieldType} {line : String} {tokens : List Code.Token}
    (h : CutsLineInto line tokens) (hname : ∀ name, type = .value name → IsWord name)
    (hends : ∀ rest, EndsWord (line ++ rest)) :
    CutsLineInto (type.spelling ++ line) (typeTokens type ++ tokens) := by
  cases type with
  | value name => exact h.word (hname name rfl) hends
  | scalar type =>
    intro rest
    have htype : cut (type.spelling ++ (line ++ ("\n" ++ rest))) =
        cut type.spelling ++ cut (line ++ ("\n" ++ rest)) := cut_spelling_append type (hends _)
    have hline : cut (line ++ ("\n" ++ rest)) = tokens ++ [.mark '\n'] ++ cut rest := by
      rw [← String.append_assoc]
      exact h rest
    rw [FieldType.spelling, String.append_assoc, String.append_assoc, htype, hline]
    simp only [typeTokens, List.append_assoc]

theorem cutsLineInto_fieldTokens {field : Field} (h : field.Legible) :
    CutsLineInto (fieldLine field) (fieldTokens field) := by
  have hopening : CutsInto "pub " _ := cutsInto_ofList (by decide +kernel)
  have hcolon : CutsInto ": " _ := cutsInto_ofList (by decide)
  have hcomma : CutsLineInto "," _ := cutsLineInto_ofList (by decide)
  have htype := hcomma.type h.type fun rest => by simp +decide [EndsWord]
  have hname := (hcolon.append_line htype).word h.ident fun rest => by simp +decide [EndsWord]
  have hline := ((cutsInto_indent 2).append hopening).append_line hname
  simpa [fieldLine, fieldTokens, String.append_assoc] using hline

theorem forall₂_structureTokens {name : String} {fields : List Field} (hname : IsWord name)
    (hfields : ∀ field ∈ fields, field.Legible) :
    List.Forall₂ CutsLineInto (structureLines name fields) (structureTokens name fields) := by
  have hindent := cutsInto_indent 1
  have hderive := hindent.append_line (cutsLineInto_ofList (by decide +kernel) :
    CutsLineInto "#[derive(Debug, Clone, Default, PartialEq, Eq)]" _)
  have hopening : CutsInto "pub struct " _ := cutsInto_ofList (by decide +kernel)
  have hbrace : CutsLineInto " \x7b" _ := cutsLineInto_ofList (by decide)
  have hempty : CutsLineInto " \x7b\x7d" _ := cutsLineInto_ofList (by decide)
  have hclose : CutsLineInto "\x7d" _ := cutsLineInto_ofList (by decide)
  cases fields with
  | nil =>
    have hline := (hindent.append hopening).append_line
      (hempty.word hname fun rest => by simp +decide [EndsWord])
    rw [← String.append_assoc] at hline
    exact .cons hderive (.cons hline .nil)
  | cons field fields =>
    have hline := (hindent.append hopening).append_line
      (hbrace.word hname fun rest => by simp +decide [EndsWord])
    rw [← String.append_assoc] at hline
    have hlines : List.Forall₂ CutsLineInto ((field :: fields).map fieldLine)
        ((field :: fields).map fieldTokens) := by
      rw [List.forall₂_map_left_iff, List.forall₂_map_right_iff, List.forall₂_same]
      exact fun field hfield => cutsLineInto_fieldTokens (hfields field hfield)
    exact .cons hderive
      (forall₂_append (.cons hline hlines) (.cons (hindent.append_line hclose) .nil))

theorem forall₂_sectionTokens {type : ValueType} (h : type.Legible) :
    List.Forall₂ CutsLineInto (sectionLines type) (sectionTokens type) := by
  have hblank : CutsLineInto "" [] := cutsLineInto_ofList (by decide)
  have hpath : SingleLine ("/ Values of the `" ++ type.path.dotted ++ "` section.") := by
    rw [singleLine_append, singleLine_append]
    exact ⟨⟨by decide, h.path⟩, by decide⟩
  have hline := (cutsInto_indent 1).append (cutsInto_comment hpath)
  have hslashes : "//" ++ "/ Values of the `" = "/// Values of the `" := by decide
  simp only [← String.append_assoc, hslashes] at hline
  refine .cons hblank (.cons ?_ (forall₂_structureTokens h.name h.fields))
  simpa [CutsLineInto, ← String.append_assoc] using hline

/-! ## §5 Statements -/

/-- The tokens of the keys in a call. -/
def keyTokens : KeyPath → List Code.Token
  | [] => []
  | [key] => [.literal (Literal.encode key)]
  | key :: rest => .literal (Literal.encode key) :: .mark ',' :: .mark ' ' :: keyTokens rest

theorem cutsInto_keys : ∀ path : KeyPath,
    CutsInto (", ".intercalate (path.map Literal.encode)) (keyTokens path)
  | [] => cutsInto_cut rfl
  | [key] => by
    rw [List.map_singleton, String.intercalate_singleton]
    exact cutsInto_literal key
  | key :: next :: path => by
    have hcomma : CutsInto ", " [.mark ',', .mark ' '] := cutsInto_ofList (by decide)
    rw [List.map_cons, List.map_cons, String.intercalate_cons_cons, ← List.map_cons]
    exact ((cutsInto_literal key).append hcomma).append (cutsInto_keys (next :: path))

theorem cutsInto_call (path : KeyPath) :
    CutsInto (readCall path) (cut callOpening ++ (keyTokens path ++ cut callClosing)) := by
  have hopening : CutsInto callOpening _ := cutsInto_ofList (by decide +kernel)
  have hclosing : CutsInto callClosing _ := cutsInto_ofList (by decide)
  have hcall := hopening.append ((cutsInto_keys path).append hclosing)
  simpa [readCall, String.join, callOpening, callClosing, String.append_assoc] using hcall

theorem cut_readCall (path : KeyPath) :
    cut (readCall path) = cut callOpening ++ (keyTokens path ++ cut callClosing) := by
  have hcall := cutsInto_call path ""
  rwa [String.append_empty, Code.cut_empty, List.append_nil] at hcall

theorem cutsInto_readCall (path : KeyPath) : CutsInto (readCall path) (cut (readCall path)) :=
  cut_readCall path ▸ cutsInto_call path

mutual

theorem forall₂_stepTokens {level : Nat} {opening closing : String}
    {openingTokens closingTokens : List Code.Token} (hopening : CutsInto opening openingTokens)
    (hclosing : CutsInto closing closingTokens) : ∀ {step : Step}, step.Legible →
    List.Forall₂ CutsLineInto (stepLines level opening closing step)
      (stepTokens level openingTokens closingTokens step)
  | .read target path type, _ => by
    have hline := ((cutsInto_indent level).append
      (hopening.append ((cutsInto_readCall path).append hclosing))).line
    refine .cons ?_ .nil
    simpa [String.append_assoc] using hline
  | .construct target typeName [], .construct _ hname _ => by
    have hempty : CutsInto " \x7b\x7d" _ := cutsInto_ofList (by decide)
    have hword := (hempty.append hclosing).word hname fun rest => by simp +decide [EndsWord]
    have hline := ((cutsInto_indent level).append (hopening.append hword)).line
    refine .cons ?_ .nil
    simpa [String.append_assoc] using hline
  | .construct target typeName (field :: fields), .construct _ hname hfields => by
    have hbrace : CutsInto " \x7b" _ := cutsInto_ofList (by decide)
    have hword := hbrace.word hname fun rest => by simp +decide [EndsWord]
    have hfirst := ((cutsInto_indent level).append (hopening.append hword)).line
    have hinner := forall₂_fieldsTokens (level + 1) (field :: fields) hfields
    have hend : CutsInto "\x7d" _ := cutsInto_ofList (by decide)
    have hlast := ((cutsInto_indent level).append (hend.append hclosing)).line
    refine .cons ?_ (forall₂_append hinner (.cons ?_ .nil))
    · simpa [String.append_assoc] using hfirst
    · simpa [String.append_assoc] using hlast

theorem forall₂_fieldsTokens (level : Nat) : ∀ fields : List Step,
    (∀ field ∈ fields, field.Legible) →
    List.Forall₂ CutsLineInto (fieldsLines level fields) (fieldsTokens level fields)
  | [], _ => .nil
  | field :: fields, h => by
    rw [List.forall_mem_cons] at h
    have hcolon : CutsInto ": " _ := cutsInto_ofList (by decide)
    have hopening := hcolon.word h.1.target fun rest => by simp +decide [EndsWord]
    have hcomma : CutsInto "," _ := cutsInto_ofList (by decide)
    exact forall₂_append (forall₂_stepTokens hopening hcomma h.1)
      (forall₂_fieldsTokens level fields h.2)

end

theorem forall₂_statementTokens {step : Step} (h : step.Legible) :
    List.Forall₂ CutsLineInto (statementLines step) (statementTokens step) := by
  have hsettings : CutsInto "settings." _ := cutsInto_ofList (by decide +kernel)
  have hequals : CutsInto " = " _ := cutsInto_ofList (by decide)
  have hsemicolon : CutsInto ";" _ := cutsInto_ofList (by decide)
  have hopening :=
    hsettings.append (hequals.word h.target fun rest => by simp +decide [EndsWord])
  rw [← String.append_assoc] at hopening
  exact forall₂_stepTokens hopening hsemicolon h

/-! ## §6 Modules -/

theorem forall₂_headerTokens {holder : Holder} (hfile : SingleLine holder.fileName)
    (hmodule : IsWord holder.moduleName) :
    List.Forall₂ CutsLineInto (headerLines holder) (headerTokens holder) := by
  have hcomment : SingleLine
      (" @generated by settingsgen from `" ++ holder.fileName ++ "`. Do not edit.") := by
    rw [singleLine_append, singleLine_append]
    exact ⟨⟨by decide, hfile⟩, by decide⟩
  have hfirst := cutsInto_comment hcomment
  have hslashes : "//" ++ " @generated by settingsgen from `" =
      "// @generated by settingsgen from `" := by decide
  simp only [← String.append_assoc, hslashes] at hfirst
  have hopening : CutsInto "pub mod " _ := cutsInto_ofList (by decide +kernel)
  have hbrace : CutsLineInto " \x7b" _ := cutsLineInto_ofList (by decide)
  have hlast := hopening.append_line (hbrace.word hmodule fun rest => by simp +decide [EndsWord])
  rw [← String.append_assoc] at hlast
  refine .cons hfirst ?_
  iterate 9 refine .cons (cutsLineInto_ofList (by decide +kernel)) ?_
  exact .cons hlast .nil

theorem forall₂_instanceTokens {holder : Holder} (hname : IsWord holder.typeName) :
    List.Forall₂ CutsLineInto (instanceLines holder) (instanceTokens holder) := by
  have hconst : CutsInto "    pub const FILE_NAME: &str = " _ :=
    cutsInto_ofList (by decide +kernel)
  have hsemicolon : CutsLineInto ";" _ := cutsLineInto_ofList (by decide)
  have hfile := (hconst.append (cutsInto_literal holder.fileName)).append_line hsemicolon
  have hstatic : CutsInto "    static INSTANCE: ::std::sync::LazyLock<" _ :=
    cutsInto_ofList (by decide +kernel)
  have hnew : CutsLineInto "> = ::std::sync::LazyLock::new(|| \x7b" _ :=
    cutsLineInto_ofList (by decide +kernel)
  have hinstance := hstatic.append_line (hnew.word hname fun rest => by simp +decide [EndsWord])
  have hblanks : CutsInto "        " _ := cutsInto_ofList (by decide)
  have hload : CutsLineInto
      "::load().unwrap_or_else(|err| panic!(\"failed to load \x7bFILE_NAME\x7d: \x7berr\x7d\"))"
        _ :=
    cutsLineInto_ofList (by decide +kernel)
  have hbody := hblanks.append_line (hload.word hname fun rest => by simp +decide [EndsWord])
  rw [← String.append_assoc] at hinstance hbody
  rw [List.append_assoc] at hfile
  refine .cons (cutsLineInto_ofList (by decide +kernel)) (.cons hfile ?_)
  refine .cons (cutsLineInto_ofList (by decide)) (.cons hinstance (.cons hbody ?_))
  iterate 2 refine .cons (cutsLineInto_ofList (by decide)) ?_
  exact .nil

theorem forall₂_accessorTokens {typeName : String} (hname : IsWord typeName) :
    List.Forall₂ CutsLineInto (accessorLines typeName) (accessorTokens typeName) := by
  have hbrace : CutsLineInto " \x7b" _ := cutsLineInto_ofList (by decide)
  have hword := hbrace.word hname fun rest => by simp +decide [EndsWord]
  have himpl : CutsInto "    impl " _ := cutsInto_ofList (by decide)
  have hget : CutsInto "        pub fn get() -> &'static " _ :=
    cutsInto_ofList (by decide +kernel)
  have hfirst := himpl.append_line hword
  have haccessor := hget.append_line hword
  rw [← String.append_assoc] at hfirst haccessor
  refine .cons hfirst ?_
  iterate 3 refine .cons (cutsLineInto_ofList (by decide +kernel)) ?_
  refine .cons haccessor ?_
  iterate 14 refine .cons (cutsLineInto_ofList (by decide +kernel)) ?_
  exact .nil

/-- **The tokens of a module are those of its text**, where all names are words and the name of the
settings file has no line feed. -/
theorem cut_moduleText {holder : Holder} {types : List ValueType} (hlegible : Legible holder types)
    (hfile : SingleLine holder.fileName) (hmodule : IsWord holder.moduleName) :
    cut (moduleText holder types) = moduleTokens holder types := by
  have hview : CutsLineInto ("    /// Typed view of `" ++ holder.fileName ++ "`.")
      (cut (indent 1) ++ [.comment ("/// Typed view of `" ++ holder.fileName ++ "`.")]) := by
    have hcomment : SingleLine ("/ Typed view of `" ++ holder.fileName ++ "`.") := by
      rw [singleLine_append, singleLine_append]
      exact ⟨⟨by decide, hfile⟩, by decide⟩
    have hline := (cutsInto_indent 1).append (cutsInto_comment hcomment)
    have hslashes : "//" ++ "/ Typed view of `" = "/// Typed view of `" := by decide
    have hindented : indent 1 ++ "/// Typed view of `" = "    /// Typed view of `" := by decide
    simp only [← String.append_assoc, hslashes, hindented] at hline
    simpa [CutsLineInto, ← String.append_assoc] using hline
  have hnames := forall₂_append (forall₂_append (forall₂_headerTokens hfile hmodule)
    (forall₂_instanceTokens hlegible.typeName)) (.cons hview .nil)
  have hblank : CutsLineInto "" [] := cutsLineInto_ofList (by decide)
  have hstatements := forall₂_flatMap fun step hstep =>
    forall₂_statementTokens (hlegible.initializer step hstep)
  have hsections := forall₂_flatMap fun type htype =>
    forall₂_sectionTokens (hlegible.types type htype)
  have hend : CutsLineInto "\x7d" _ := cutsLineInto_ofList (by decide)
  have hplan : List.Forall₂ CutsLineInto (planLines holder types) _ :=
    forall₂_append (forall₂_structureTokens hlegible.typeName hlegible.properties)
      (forall₂_append (.cons hblank (forall₂_accessorTokens hlegible.typeName))
        (forall₂_append hstatements (.cons (cutsLineInto_ofList (by decide +kernel))
          (.cons (cutsLineInto_ofList (by decide)) (.cons (cutsLineInto_ofList (by decide))
            (forall₂_append hsections (.cons hend .nil)))))))
  have htext := (cutsInto_ofLines hnames).append (cutsInto_ofLines hplan) ""
  rw [String.append_empty, Code.cut_empty, List.append_nil] at htext
  rw [moduleText_eq_append]
  exact htext

end Source

end TypedSettings

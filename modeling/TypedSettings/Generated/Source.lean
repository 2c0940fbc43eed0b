import TypedSettings.Generated.Initializer
import TypedSettings.Text.Literal

/-!
# Generated source

The source text of one variant: a module that holds the holder type with its initializer and the
value types. Text is put together from lines; every line ends in a line feed.

Types of other modules are spelled by their full paths, so that no value type can take their place.
Only the type of the file name constant is spelled by its name alone.
-/

namespace TypedSettings

/-- The spelling of a scalar type. -/
def ScalarType.spelling : ScalarType → String
  | .integer => "::core::primitive::i64"
  | .boolean => "::core::primitive::bool"
  | .string => "::std::string::String"
  | .sequence item => String.join ["::std::vec::Vec<", item.spelling, ">"]

/-- The spelling of a declared type. -/
def FieldType.spelling : FieldType → String
  | .scalar type => type.spelling
  | .value name => name

namespace Source

/-- Lines as a text. -/
def ofLines (lines : List String) : String := String.join (lines.map (· ++ "\n"))

/-- The blanks in front of a line at an indentation level. -/
def indent (level : Nat) : String := String.ofList (List.replicate (4 * level) ' ')

/-! ## §1 Structures -/

/-- The declaration of a field. -/
def fieldLine (field : Field) : String :=
  indent 2 ++ "pub " ++ field.ident ++ ": " ++ field.type.spelling ++ ","

/-- The declaration of a structure. -/
def structureLines (name : String) (fields : List Field) : List String :=
  (indent 1 ++ "#[derive(Debug, Clone, Default, PartialEq, Eq)]") ::
    match fields with
    | [] => [indent 1 ++ "pub struct " ++ name ++ " \x7b\x7d"]
    | fields =>
      (indent 1 ++ "pub struct " ++ name ++ " \x7b") :: fields.map fieldLine ++ [indent 1 ++ "\x7d"]

/-- The declaration of a value type. -/
def valueTypeLines (type : ValueType) : List String :=
  (indent 1 ++ "/// Values of the `" ++ type.path.dotted ++ "` section.") ::
    structureLines type.name type.fields

/-- The text of a value type. -/
def valueType (type : ValueType) : String := ofLines (valueTypeLines type)

/-- The text of several value types, with blank lines between them. -/
def valueTypes (types : List ValueType) : String := "\n".intercalate (types.map valueType)

/-! ## §2 Initializers -/

/-- The expression that reads the field at a path. -/
def readCall (path : KeyPath) : String :=
  String.join [
    "::settingsgen_runtime::read(document, &[", ", ".intercalate (path.map Literal.encode), "])?"]

mutual

/-- The lines that assign a value after `opening` and end in `closing`. -/
def stepLines (level : Nat) (opening closing : String) : Step → List String
  | .read _ path _ => [indent level ++ opening ++ readCall path ++ closing]
  | .construct _ typeName [] => [indent level ++ opening ++ typeName ++ " \x7b\x7d" ++ closing]
  | .construct _ typeName (field :: fields) =>
    (indent level ++ opening ++ typeName ++ " \x7b") ::
      (stepLines (level + 1) (field.target ++ ": ") "," field ++ fieldsLines (level + 1) fields ++
        [indent level ++ "\x7d" ++ closing])

/-- The lines of the fields of a structure expression. -/
def fieldsLines (level : Nat) : List Step → List String
  | [] => []
  | field :: fields => stepLines level (field.target ++ ": ") "," field ++ fieldsLines level fields

end

/-- The statement of a step of the initializer. -/
def statementLines (step : Step) : List String :=
  stepLines 3 ("settings." ++ step.target ++ " = ") ";" step

/-! ## §3 Holders -/

/-- The file name constant and the lazily loaded instance. -/
def instanceLines (holder : Holder) : List String := [
  "    /// File read from the directory of the running executable.",
  "    pub const FILE_NAME: &str = " ++ Literal.encode holder.fileName ++ ";",
  "",
  "    static INSTANCE: ::std::sync::LazyLock<" ++ holder.typeName ++
    "> = ::std::sync::LazyLock::new(|| \x7b",
  "        " ++ holder.typeName ++
    "::load().unwrap_or_else(|err| panic!(\"failed to load \x7bFILE_NAME\x7d: \x7berr\x7d\"))",
  "    \x7d);",
  ""]

/-- The accessors of a holder up to the body of its initializer. -/
def accessorLines (typeName : String) : List String := [
  "    impl " ++ typeName ++ " \x7b",
  "        /// The process-wide instance, loaded on first access.",
  "        ///",
  "        /// Panics if the file cannot be read or does not match the declared types.",
  "        pub fn get() -> &'static " ++ typeName ++ " \x7b",
  "            &INSTANCE",
  "        \x7d",
  "",
  "        /// Reads and parses [`FILE_NAME`] next to the running executable.",
  "        pub fn load() -> ::core::result::Result<Self, ::settingsgen_runtime::Error> \x7b",
  "            let document = ::settingsgen_runtime::load_adjacent(FILE_NAME)?;",
  "            Self::from_document(&document)",
  "        \x7d",
  "",
  "        /// Builds the settings from an already parsed document.",
  "        pub fn from_document(",
  "            document: &::settingsgen_runtime::Value,",
  "        ) -> ::core::result::Result<Self, ::settingsgen_runtime::Error> \x7b",
  "            let mut settings = Self::default();"]

/-- The lines of a holder at the indentation of its module. -/
def holderLines (holder : Holder) : List String :=
  instanceLines holder ++
    ["    /// Typed view of `" ++ holder.fileName ++ "`."] ++
    structureLines holder.typeName holder.properties ++
    [""] ++
    accessorLines holder.typeName ++
    holder.initializer.flatMap statementLines ++
    ["            ::core::result::Result::Ok(settings)",
      "        \x7d",
      "    \x7d"]

/-- The text of a holder. -/
def holder (holder : Holder) : String := ofLines (holderLines holder)

/-! ## §4 Modules -/

/-- The lines before the holder: a comment that names the settings file and the opened module. -/
def headerLines (holder : Holder) : List String := [
  "// @generated by settingsgen from `" ++ holder.fileName ++ "`. Do not edit.",
  "",
  "#[allow(",
  "    non_snake_case,",
  "    non_camel_case_types,",
  "    dead_code,",
  "    unused_mut,",
  "    unused_variables,",
  "    clippy::all",
  ")]",
  "pub mod " ++ holder.moduleName ++ " \x7b"]

/-- The complete text of a holder and its value types. -/
def moduleText (holder : Holder) (types : List ValueType) : String :=
  ofLines (headerLines holder) ++ Source.holder holder ++
    (if types.isEmpty then "" else "\n" ++ valueTypes types) ++
    ofLines ["\x7d"]

end Source

/-- The source of a variant of a program's settings. -/
def Schema.source (schema : Schema) (variant : Variant) (program : String) : String :=
  Source.moduleText (schema.holder variant program) schema.valueTypes

end TypedSettings

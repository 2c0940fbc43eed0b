import TypedSettings.CommandLine.Arguments
import TypedSettings.FileTree.Basic
import TypedSettings.Reading.File
import TypedSettings.Schema.Tree
import TypedSettings.Toml.Document

/-!
# Configuration

What a configuration file says about code generation, and what holds where it says nothing: the
program is named by its package manifest or else by the source directory, and output goes to a
directory below the source directory. A configuration file that is asked for must be valid; the one
that is merely there is ignored unless it is.
-/

namespace TypedSettings

/-- Why a command fails. -/
inductive CommandError where
  | unreadable (path : Path) (fault : IoFault)
  | rejected (path : Path) (error : SchemaError)
  | invalidConfiguration (path : Path)
  | unresolved (directory : Path) (fault : IoFault)
  | nameless
  | unlisted (directory : Path) (fault : IoFault)
  | unwritten (directory : Path) (fault : IoFault)
  | undocumented (error : FileError)
  | inconsistent (path : Path) (error : ReadError)
  deriving DecidableEq, Repr

/-- The wording of an error with its causes; the cause of a syntax error is told twice. -/
def CommandError.message : CommandError → String
  | .unreadable path fault => String.join ["failed to read ", path.text, ": ", fault.message]
  | .rejected path (.invalid e) =>
    String.join
      ["failed to parse ", path.text, ": ", (SchemaError.invalid e).message, ": ", e.message]
  | .rejected path e => String.join ["failed to parse ", path.text, ": ", e.message]
  | .invalidConfiguration path => String.join ["failed to parse ", path.text]
  | .unresolved directory fault =>
    String.join ["failed to resolve ", directory.text, ": ", fault.message]
  | .nameless => "cannot derive a program name from /"
  | .unlisted directory fault =>
    String.join ["failed to list ", directory.text, ": ", fault.message]
  | .unwritten directory fault =>
    String.join ["failed to write to ", directory.text, ": ", fault.message]
  | .undocumented e => e.message
  | .inconsistent path e => String.join [path.text, " does not match its own types: ", e.message]

/-- What a configuration file says. -/
structure Configuration where
  program : Option String
  outputDirectory : Option Path
  deriving DecidableEq, Repr

namespace Configuration

/-- A configuration that says nothing. -/
def empty : Configuration := ⟨none, none⟩

/-- The name of the configuration file that is used when none is asked for. -/
def fileName : String := "settingsgen.toml"

/-- The text of a key that may be absent but must not hold anything else. -/
def textAt? (entries : Toml.Entries) (key : String) : Option (Option String) :=
  match entries.get? key with
  | none => some none
  | some (.text value) => some (some value)
  | some _ => none

/-- The configuration of a text. -/
def ofText? (text : String) : Option Configuration := do
  let entries ← Toml.parse? text
  let program ← textAt? entries "program_name"
  let outputDirectory ← textAt? entries "out_dir"
  return ⟨program, outputDirectory.map Path.mk⟩

/-- The configuration for a source directory: that of the file asked for, or else of the file in the
directory if it is valid. -/
def load (disk : Disk) (sourceDirectory : Path) :
    (explicit : Option Path) → Except CommandError Configuration
  | some path =>
    match disk.readText path with
    | .error fault => .error (.unreadable path fault)
    | .ok text =>
      match ofText? text with
      | none => .error (.invalidConfiguration path)
      | some configuration => .ok configuration
  | none =>
    match disk.readText (sourceDirectory.child fileName) with
    | .error _ => .ok empty
    | .ok text => .ok ((ofText? text).getD empty)

/-- The name that a package manifest gives to its package. Nothing is known about the other entries
of a manifest, so all of them are looked at. -/
def manifestName? (disk : Disk) (manifest : Path) : Option String := do
  let text ← (disk.readText manifest).toOption
  let entries ← Toml.parse? text
  guard (Toml.Entries.areSound entries)
  let package ← entries.get? "package"
  (← package.get? "name").text?

/-- The name of the program whose settings a directory holds. -/
def programName (configuration : Configuration) (disk : Disk) (sourceDirectory : Path) :
    Except CommandError String :=
  match configuration.program.or (manifestName? disk (sourceDirectory.child "Cargo.toml")) with
  | some name => .ok name
  | none =>
    match disk.canonical sourceDirectory with
    | .error fault => .error (.unresolved sourceDirectory fault)
    | .ok location =>
      match location.getLast? with
      | some name => .ok name
      | none => .error .nameless

/-- The output directory for a source directory. -/
def outputFor (configuration : Configuration) (sourceDirectory : Path) : Path :=
  sourceDirectory.join (configuration.outputDirectory.getD ⟨"generated"⟩)

end Configuration

end TypedSettings

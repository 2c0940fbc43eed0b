import TypedSettings.Generated.Source
import TypedSettings.FileTree.Basic

/-!
# Generation

One pass per variant. A pass looks for the settings file of its variant among candidate files by
exact name, reads it and renders its source. A pass that fails is recorded and does not affect the
other.
-/

namespace TypedSettings

/-- The source text of a variant. -/
structure GeneratedSource where
  variant : Variant
  text : String
  deriving DecidableEq, Repr

/-- Why a variant has no source. -/
inductive GenerationError where
  | notFound (fileName : String)
  | unreadable (path : Path) (fault : IoFault)
  | rejected (error : SchemaError)
  deriving DecidableEq, Repr

/-- The wording of an error. -/
def GenerationError.message : GenerationError → String
  | .notFound fileName => String.join ["no `", fileName, "` among the input files"]
  | .unreadable path fault => String.join ["failed to read ", path.text, ": ", fault.message]
  | .rejected e => e.message

/-- The result of a pass. -/
structure Outcome where
  variant : Variant
  result : Except GenerationError GeneratedSource

namespace Generation

/-- The source of a variant from its settings text. -/
def ofText (text program : String) (variant : Variant) : Except SchemaError GeneratedSource :=
  match Schema.ofText text with
  | .error e => .error e
  | .ok schema => .ok ⟨variant, schema.source variant program⟩

/-- The first candidate with the settings file name of a variant. -/
def input? (program : String) (candidates : List Path) (variant : Variant) : Option Path :=
  candidates.find? fun path => path.fileName? = some (variant.fileName program)

/-- The pass of one variant. -/
def runVariant (disk : Disk) (program : String) (candidates : List Path) (variant : Variant) :
    Except GenerationError GeneratedSource :=
  match input? program candidates variant with
  | none => .error (.notFound (variant.fileName program))
  | some path =>
    match disk.readText path with
    | .error fault => .error (.unreadable path fault)
    | .ok text =>
      match ofText text program variant with
      | .error e => .error (.rejected e)
      | .ok source => .ok source

/-- The passes of both variants. -/
def run (disk : Disk) (program : String) (candidates : List Path) : List Outcome :=
  Variant.all.map fun variant => ⟨variant, runVariant disk program candidates variant⟩

/-- The sources of the passes that succeeded. -/
def sources (outcomes : List Outcome) : List GeneratedSource :=
  outcomes.filterMap fun outcome => outcome.result.toOption

/-- The regular files of a directory, sorted by name; links and directories are left out. -/
def candidates (disk : Disk) (directory : Path) : Except IoFault (List Path) := do
  let children ← disk.list directory
  return children.filterMap fun (name, entry) =>
    match entry with
    | .file _ => some (directory.child name)
    | _ => none

end Generation

end TypedSettings

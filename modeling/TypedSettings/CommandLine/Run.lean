import TypedSettings.Generated.Simulation
import TypedSettings.CommandLine.Configuration
import TypedSettings.Generation.Output
import TypedSettings.Schema.Serialized

/-!
# Commands

What the commands print and do. A command that fails prints nothing.
-/

namespace TypedSettings

namespace Command

/-! ## §1 Looking at one file -/

/-- The end of the name of an internal settings file. -/
def internalSuffix : String := ".settings.json"

/-- The variant and the program that the name of a settings file implies. -/
def impliedVariant (path : Path) : Variant × String :=
  let name := (path.fileName?.getD "").toList
  let program := name.take (name.length - internalSuffix.length)
  if internalSuffix.toList.isSuffixOf name ∧ program ≠ [] then
    (.internalSettings, String.ofList program)
  else
    (.publicSettings, "")

/-- The holder that a settings file implies. -/
def holderFor (path : Path) (schema : Schema) : Holder :=
  schema.holder (impliedVariant path).1 (impliedVariant path).2

/-- The schema of a settings file. -/
def readSchema (disk : Disk) (path : Path) : Except CommandError Schema :=
  match disk.readText path with
  | .error fault => .error (.unreadable path fault)
  | .ok text =>
    match Schema.ofText text with
    | .error e => .error (.rejected path e)
    | .ok schema => .ok schema

/-- A member of a listed type; properties that no step assigns are marked. -/
def memberLine (field : Field) (isAssigned : Bool) : String :=
  "  " ++ field.ident ++ ": " ++ field.type.name ++ (if isAssigned then "" else " [not assigned]")

/-- The listing of a holder and its value types: one line per type and per member. -/
def listing (holder : Holder) (types : List ValueType) : String :=
  let assigned := holder.initializer.map Step.target
  Source.ofLines <|
    (holder.typeName ++ " (" ++ holder.fileName ++ ")") ::
      holder.properties.map (fun p => memberLine p (p.ident ∈ assigned)) ++
      types.flatMap fun type =>
        (type.name ++ " (" ++ type.path.dotted ++ ")") ::
          type.fields.map fun field => memberLine field true

/-- The listing of a settings file, or its schema as a document. -/
def inspectFile (disk : Disk) (path : Path) (asDocument : Bool) : Except CommandError String :=
  match readSchema disk path with
  | .error e => .error e
  | .ok schema =>
    if asDocument then .ok (schema.toValue.pretty ++ "\n")
    else .ok (listing (holderFor path schema) schema.valueTypes)

/-- What the initializer of a settings file makes of the file itself. -/
def previewFile (disk : Disk) (path : Path) : Except CommandError String :=
  match readSchema disk path with
  | .error e => .error e
  | .ok schema =>
    match disk.readDocument path with
    | .error e => .error (.undocumented e)
    | .ok document =>
      match (holderFor path schema).simulate document with
      | .error e => .error (.inconsistent path e)
      | .ok values => .ok ((Value.object values).pretty ++ "\n")

/-! ## §2 Generating -/

/-- What generation works with once configuration and options are put together. -/
structure Job where
  sourceDirectory : Path
  program : String
  outputDirectory : Path
  deriving DecidableEq, Repr

/-- The job of a generation; options win over the configuration. -/
def job (disk : Disk) (explicit : Option Path) (options : GenerateOptions) :
    Except CommandError Job :=
  match Configuration.load disk options.sourceDirectory explicit with
  | .error e => .error e
  | .ok configuration =>
    let output := options.outputDirectory.getD (configuration.outputFor options.sourceDirectory)
    match options.program with
    | some program => .ok ⟨options.sourceDirectory, program, output⟩
    | none =>
      match configuration.programName disk options.sourceDirectory with
      | .error e => .error e
      | .ok program => .ok ⟨options.sourceDirectory, program, output⟩

/-- The sources of a job. -/
def Job.sources (job : Job) (disk : Disk) : Except CommandError (List GeneratedSource) :=
  match Generation.candidates disk job.sourceDirectory with
  | .error fault => .error (.unlisted job.sourceDirectory fault)
  | .ok candidates => .ok (Generation.sources (Generation.run disk job.program candidates))

/-- Writes the output files and lists them, or prints all sources and leaves the disk alone. -/
def runGenerate (explicit : Option Path) (options : GenerateOptions) :
    Action CommandError String := fun disk =>
  match job disk explicit options with
  | .error e => .error e disk
  | .ok job =>
    match job.sources disk with
    | .error e => .error e disk
    | .ok sources =>
      -- Printing leaves the disk alone: the output directory need not even exist.
      if options.toStandardOutput then .ok (Output.aggregate sources) disk
      else
        match Output.update job.outputDirectory sources disk with
        | .error fault disk => .error (.unwritten job.outputDirectory fault) disk
        | .ok paths disk => .ok (Source.ofLines (paths.map Path.text)) disk

/-- Lifts a computation that only reads. -/
def reading (read : Disk → Except CommandError String) : Action CommandError String := fun disk =>
  match read disk with
  | .error e => .error e disk
  | .ok output => .ok output disk

/-- Runs a command with the configuration file that was asked for; returns what it prints. -/
def run (configuration : Option Path) : Command → Action CommandError String
  | .generate options => runGenerate configuration options
  | .inspect file asDocument => reading fun disk => inspectFile disk file asDocument
  | .preview file => reading fun disk => previewFile disk file

end Command

/-- The name and version of the program. -/
def versionLine : String := "settingsgen 0.2.0"

end TypedSettings

import TypedSettings.Generation.Output

/-!
# Builds

A build looks for settings files in one directory, generates what it can and writes the result to
another. A build script takes its options from the environment and asks to be run again when one of
the settings files that exist changes.
-/

namespace TypedSettings

/-- Why a build fails. -/
inductive BuildError where
  | missingVariable (name : String)
  | unlisted (directory : Path) (fault : IoFault)
  | unwritten (directory : Path) (fault : IoFault)
  deriving DecidableEq, Repr

/-- The wording of an error. -/
def BuildError.message : BuildError → String
  | .missingVariable name =>
    String.join ["environment variable ", name, " is not set; run from a build script"]
  | .unlisted directory fault =>
    String.join ["failed to list ", directory.text, ": ", fault.message]
  | .unwritten directory fault =>
    String.join ["failed to write generated sources to ", directory.text, ": ", fault.message]

/-- Where to look, what the program is called and where to write. -/
structure Build where
  sourceDirectory : Path
  program : String
  outputDirectory : Path
  deriving DecidableEq, Repr

namespace Build

/-- The value of an environment variable. -/
def lookup (environment : OrderedMap String String) (name : String) : Except BuildError String :=
  match OrderedMap.find? name environment with
  | some value => .ok value
  | none => .error (.missingVariable name)

/-- The build that an environment describes. -/
def ofEnvironment (environment : OrderedMap String String) : Except BuildError Build := do
  let source ← lookup environment "CARGO_MANIFEST_DIR"
  let program ← lookup environment "CARGO_PKG_NAME"
  let output ← lookup environment "OUT_DIR"
  return ⟨⟨source⟩, program, ⟨output⟩⟩

/-- Where the settings file of a variant is expected. -/
def settingsPath (build : Build) (variant : Variant) : Path :=
  build.sourceDirectory.child (variant.fileName build.program)

/-- The lines that ask for another run when a settings file that exists changes. -/
def watchLines (build : Build) (disk : Disk) : List String :=
  ((Variant.all.map build.settingsPath).filter disk.isFile).map fun path =>
    "cargo:rerun-if-changed=" ++ path.text

/-- Generates and writes; returns the sources. -/
def run (build : Build) : Action BuildError (List GeneratedSource) := fun disk =>
  match Generation.candidates disk build.sourceDirectory with
  | .error fault => .error (.unlisted build.sourceDirectory fault) disk
  | .ok candidates =>
    let sources := Generation.sources (Generation.run disk build.program candidates)
    match Output.update build.outputDirectory sources disk with
    | .error fault disk => .error (.unwritten build.outputDirectory fault) disk
    | .ok _ disk => .ok sources disk

end Build

/-- What a build script prints and achieves in an environment. -/
def buildScript (environment : OrderedMap String String) (disk : Disk) :
    List String × EStateM.Result BuildError Disk (List GeneratedSource) :=
  match Build.ofEnvironment environment with
  | .error e => ([], .error e disk)
  | .ok build => (build.watchLines disk, build.run disk)

end TypedSettings

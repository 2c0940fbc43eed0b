import TypedSettings.CommandLine.Run

/-!
# The program

The outer layer: it copies the part of the file system that a command looks at into a `Disk`, runs
the command there, carries the changes over and prints what there is to print.
-/

namespace TypedSettings.Program

/-! ## §1 Observation -/

/-- The text of the path from the root to a location. -/
def absoluteText (location : Location) : String := (Action.pathOf true location).text

/-- A disk that knows the way from the root to a location. -/
def knowing (disk : Disk) (location : Location) : Disk :=
  (List.range location.length).foldl (fun disk k =>
    let ancestor := location.take (k + 1)
    if (disk.get? ancestor).isSome then disk else disk.withDirectory ancestor) disk

/-- Records what one path leads to, if its parent is known and it is not. -/
def observeOne (disk : Disk) (path : Path) : IO Disk := do
  match disk.vacancy path with
  | .error _ => return disk
  | .ok location =>
    match ← (IO.FS.realPath path.text).toBaseIO with
    | .error _ => return disk
    | .ok real =>
      let found : Location := Path.names ⟨real.toString⟩
      let entry : Entry ← match ← (IO.FS.readBinFile path.text).toBaseIO with
        | .ok bytes => pure (.file (.ofBytes bytes.toList))
        | .error _ => pure .directory
      if found = location then
        return { disk with entries := OrderedMap.insert location entry disk.entries }
      let disk := knowing (disk.withLink location ⟨real.toString⟩) found.dropLast
      return { disk with entries := OrderedMap.insert found entry disk.entries }

/-- Records what a path and every part of it lead to. -/
def observe (disk : Disk) (path : Path) : IO Disk :=
  (List.range path.names.length).foldlM (fun disk k =>
    observeOne disk (Action.pathOf path.isAbsolute (path.names.take (k + 1)))) disk

/-- The paths that decide what a command does. -/
def consulted (configuration : Option Path) : Command → List Path
  | .inspect file _ => [file]
  | .preview file => [file]
  | .generate options =>
    let directory := options.sourceDirectory
    [directory, configuration.getD (directory.child Configuration.fileName),
      directory.child "Cargo.toml"]

/-- The paths that a job reads and writes. -/
def jobPaths (job : Command.Job) : List Path :=
  Variant.all.map (fun variant => job.sourceDirectory.child (variant.fileName job.program)) ++
    Variant.all.map (fun variant => job.outputDirectory.child variant.outputFileName) ++
    [job.outputDirectory.child Output.aggregateName]

/-- The disk that a command runs on. -/
def diskFor (configuration : Option Path) (command : Command) : IO Disk := do
  let here : Location := Path.names ⟨(← IO.currentDir).toString⟩
  let start := knowing ⟨[], here, []⟩ here
  let disk ← (consulted configuration command).foldlM observe start
  match command with
  | .generate options =>
    match Command.job disk configuration options with
    | .ok job => (jobPaths job).foldlM observe disk
    | .error _ => return disk
  | _ => return disk

/-! ## §2 Effects -/

/-- Carries the difference between two disks over to the file system. -/
def carryOver (before after : Disk) : IO Unit := do
  for (location, _) in before.entries do
    if (after.get? location).isNone then IO.FS.removeFile (absoluteText location)
  for (location, entry) in after.entries do
    match entry with
    | .directory =>
      if (before.get? location).isNone then IO.FS.createDirAll (absoluteText location)
    | .file (.text text) =>
      if location ∈ after.written then IO.FS.writeFile (absoluteText location) text
    | _ => pure ()

/-- How the program is used. -/
def usage : String :=
  "\n".intercalate [
    "Usage: settingsgen [--config FILE] [-v]... generate [--source-dir DIR] [--program-name NAME]",
    "         [--out-dir DIR] [--stdout]",
    "       settingsgen inspect [--json] FILE",
    "       settingsgen preview FILE"]

/-- Runs the program; the result is its exit code. -/
def run (words : List String) : IO UInt32 := do
  match Request.parse? words with
  | none =>
    IO.eprintln usage
    return 2
  | some .help =>
    IO.println usage
    return 0
  | some .version =>
    IO.println versionLine
    return 0
  | some (.run configuration command) =>
    let disk ← diskFor configuration command
    match command.run configuration disk with
    | .error e after =>
      carryOver disk after
      IO.eprintln ("error: " ++ e.message)
      return 1
    | .ok output after =>
      carryOver disk after
      IO.print output
      return 0

end TypedSettings.Program

/-- The entry point. -/
def main (words : List String) : IO UInt32 := TypedSettings.Program.run words

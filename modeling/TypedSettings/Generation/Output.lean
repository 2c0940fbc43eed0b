import TypedSettings.Generation.Generator
import TypedSettings.FileTree.Action

/-!
# Output files

Every variant has a file of its own in the output directory, and one more file holds all sources
together. The file of a variant without a source is removed, a file that already holds the wanted
text is left alone, and the file that holds all sources is written last.
-/

namespace TypedSettings.Output

/-- The name of the file that holds all sources. -/
def aggregateName : String := "settingsgen.rs"

/-- The text of the file that holds all sources. -/
def aggregate (sources : List GeneratedSource) : String :=
  "\n".intercalate (sources.map GeneratedSource.text)

/-- The source whose text goes to the file of a variant. -/
def sourceOf? (sources : List GeneratedSource) (variant : Variant) : Option GeneratedSource :=
  sources.find? (·.variant == variant)

/-- Writes a text unless the file holds it already. -/
def refresh (path : Path) (text : String) : Action IoFault Unit := fun disk =>
  match disk.readText path with
  | .ok existing => if existing = text then .ok () disk else Action.write path (.text text) disk
  | .error _ => Action.write path (.text text) disk

/-- Removes a file if there is one. -/
def removeIfPresent (path : Path) : Action IoFault Unit := fun disk =>
  if disk.pathExists path then Action.removeFile path disk else .ok () disk

/-- Brings the file of a variant up to date; returns its path if it is there. -/
def updateVariant (directory : Path) (sources : List GeneratedSource) (variant : Variant) :
    Action IoFault (List Path) := do
  let path := directory.child variant.outputFileName
  match sourceOf? sources variant with
  | some source =>
    refresh path source.text
    return [path]
  | none =>
    removeIfPresent path
    return []

/-- Brings all output files up to date; returns the paths of those that are there. -/
def update (directory : Path) (sources : List GeneratedSource) : Action IoFault (List Path) := do
  Action.createDirectories directory
  let publicPaths ← updateVariant directory sources .publicSettings
  let internalPaths ← updateVariant directory sources .internalSettings
  -- Written last: whoever reads this file never sees the sources of a run that failed half way.
  let path := directory.child aggregateName
  refresh path (aggregate sources)
  return publicPaths ++ internalPaths ++ [path]

end TypedSettings.Output

import TypedSettings.Document.Parser
import TypedSettings.FileTree.Basic

/-!
# Settings files

Documents read from files. A program finds its settings file beside its executable.
-/

namespace TypedSettings

/-- Why a file yields no document. -/
inductive FileError where
  | unreadable (path : Path) (fault : IoFault)
  | malformed (path : Path) (error : SyntaxError)
  deriving DecidableEq, Repr

/-- The wording of an error. -/
def FileError.message : FileError → String
  | .unreadable path fault => String.join ["failed to read ", path.text, ": ", fault.message]
  | .malformed path e => String.join ["failed to parse ", path.text, ": ", e.message]

/-- The document of a file. -/
def Disk.readDocument (disk : Disk) (path : Path) : Except FileError Value :=
  match disk.readText path with
  | .error fault => .error (.unreadable path fault)
  | .ok text =>
    match Value.parse text with
    | .error e => .error (.malformed path e)
    | .ok document => .ok document

/-- The path of a file in the directory of the executable. -/
def besideExecutable (executableDirectory : Path) (fileName : String) : Path :=
  executableDirectory.child fileName

end TypedSettings

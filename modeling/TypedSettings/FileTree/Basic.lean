import TypedSettings.FileTree.Path
import TypedSettings.OrderedMap

/-!
# File trees

A disk is a map from locations to files, directories and symbolic links; a location is the list of
names from the root. Paths are resolved against the working directory, and links are followed on the
way. Reading leaves the disk alone; the operations that change it are in `FileTree.Action`.

## Main definitions

* `Disk.resolve` — the location of a path
* `Disk.readText`, `Disk.list`, `Disk.canonical` — what is found there
-/

namespace TypedSettings

/-- Why a file operation fails. -/
inductive IoFault where
  | notFound
  | alreadyExists
  | notDirectory
  | isDirectory
  | nameTooLong
  | tooManyLinks
  | notText
  | zeroByte
  deriving DecidableEq, Repr

/-- The wording of a fault. -/
def IoFault.message : IoFault → String
  | .notFound => "No such file or directory (os error 2)"
  | .alreadyExists => "File exists (os error 17)"
  | .notDirectory => "Not a directory (os error 20)"
  | .isDirectory => "Is a directory (os error 21)"
  | .nameTooLong => "File name too long (os error 36)"
  | .tooManyLinks => "Too many levels of symbolic links (os error 40)"
  | .notText => "stream did not contain valid UTF-8"
  | .zeroByte => "file name contained an unexpected NUL byte"

/-- The content of a file: a text, or bytes that encode none. -/
inductive Content where
  | text (text : String)
  | binary (bytes : List UInt8)
  deriving DecidableEq, Repr

/-- The content of a file with these bytes. -/
def Content.ofBytes (bytes : List UInt8) : Content :=
  match String.fromUTF8? ⟨bytes.toArray⟩ with
  | some decoded => .text decoded
  | none => .binary bytes

/-- What a location holds. -/
inductive Entry where
  | directory
  | file (content : Content)
  | link (target : Path)
  deriving DecidableEq, Repr

/-- The names from the root down to an entry. -/
abbrev Location := List String

/-- A file tree with a working directory, and the locations that have been written. -/
structure Disk where
  entries : OrderedMap Location Entry
  workingDirectory : Location
  written : List Location
  deriving Repr

namespace Disk

/-- The entry at a location; the root is a directory. -/
def get? (disk : Disk) (location : Location) : Option Entry :=
  if location = [] then some .directory else OrderedMap.find? location disk.entries

/-! ## §1 Resolution -/

/-- How many links may be followed in one resolution. -/
def linkLimit : Nat := 40

/-- How many bytes a name may have. -/
def nameLimit : Nat := 255

/-- How many bytes a path may have. -/
def pathLimit : Nat := 4095

/-- Is the name too long for any entry? -/
def isOverlong (name : String) : Bool := nameLimit < name.utf8ByteSize

/-- Does a name stay in the directory it is looked up in? -/
def staysInPlace (name : String) : Bool := name == "." || name == ""

/-- Follows names from a directory. The last name may have no entry; every other must lead to a
directory. Where a file is to be created, the last name must not be followed by a slash, whatever it
leads to. -/
def walk (disk : Disk) (creating : Bool) (links : Nat) (origin : Location) :
    List String → Except IoFault Location
  | [] => .ok origin
  | name :: rest =>
    if staysInPlace name then walk disk creating links origin rest
    else if name = ".." then walk disk creating links origin.dropLast rest
    else if creating ∧ rest = [""] then .error .isDirectory
    else if isOverlong name then .error .nameTooLong
    else
      match disk.get? (origin ++ [name]) with
      -- What is to be created is not there yet, so a missing last name is no fault here.
      | none => if rest.isEmpty then .ok (origin ++ [name]) else .error .notFound
      | some .directory => walk disk creating links (origin ++ [name]) rest
      | some (.file _) => if rest.isEmpty then .ok (origin ++ [name]) else .error .notDirectory
      | some (.link target) =>
        match links with
        | 0 => .error .tooManyLinks
        | links + 1 =>
          walk disk creating links (if target.isAbsolute then [] else origin) (target.steps ++ rest)
termination_by names => (links, names.length)

/-- Refuses texts that are no paths. -/
def checkText (path : Path) : Except IoFault Unit :=
  if path.text.contains '\x00' then .error .zeroByte
  else if path.text = "" then .error .notFound
  else .ok ()

/-- Refuses paths that no file system takes. -/
def checkPath (path : Path) : Except IoFault Unit := do
  checkText path
  if pathLimit < path.text.utf8ByteSize then throw .nameTooLong

/-- Where a path starts. -/
def origin (disk : Disk) (path : Path) : Location :=
  if path.isAbsolute then [] else disk.workingDirectory

/-- The location of a path with all links followed. -/
def resolve (disk : Disk) (path : Path) : Except IoFault Location := do
  checkPath path
  disk.walk false linkLimit (disk.origin path) path.steps

/-- The location of a path with all links followed, for a file that is created if it is absent. -/
def resolveToCreate (disk : Disk) (path : Path) : Except IoFault Location := do
  checkPath path
  disk.walk true linkLimit (disk.origin path) path.steps

/-- The location of the directory that some names of a path lead to. -/
def resolveDirectory (disk : Disk) (path : Path) (names : List String) :
    Except IoFault Location := do
  let location ← disk.walk false linkLimit (disk.origin path) names
  match disk.get? location with
  | some .directory => return location
  | some _ => throw .notDirectory
  | none => throw .notFound

/-! ## §2 Reading -/

/-- What a path leads to, if it leads anywhere. -/
def find? (disk : Disk) (path : Path) : Option Entry :=
  match disk.resolve path with
  | .error _ => none
  | .ok location => disk.get? location

/-- Does a path lead to something? -/
def pathExists (disk : Disk) (path : Path) : Bool := (disk.find? path).isSome

/-- Does a path lead to a directory? -/
def isDirectory (disk : Disk) (path : Path) : Bool := disk.find? path == some .directory

/-- Does a path lead to a file? -/
def isFile (disk : Disk) (path : Path) : Bool :=
  match disk.find? path with
  | some (.file _) => true
  | _ => false

/-- The text of the file that a path leads to. -/
def readText (disk : Disk) (path : Path) : Except IoFault String := do
  match disk.get? (← disk.resolve path) with
  | some (.file (.text text)) => return text
  | some (.file (.binary _)) => throw .notText
  | some .directory => throw .isDirectory
  | _ => throw .notFound

/-- The name of an entry of a directory. -/
def childName? (directory location : Location) : Option String :=
  match location.getLast? with
  | some name => if location.dropLast = directory then some name else none
  | none => none

/-- The entries of a directory, by name in ascending order. -/
def childrenOf (disk : Disk) (directory : Location) : List (String × Entry) :=
  (disk.entries.filterMap fun (location, entry) =>
    (childName? directory location).map (·, entry)).mergeSort fun a b => !(b.1 < a.1)

/-- The entries of the directory that a path leads to. -/
def list (disk : Disk) (path : Path) : Except IoFault (List (String × Entry)) := do
  let location ← disk.resolve path
  match disk.get? location with
  | some .directory => return disk.childrenOf location
  | some _ => throw .notDirectory
  | none => throw .notFound

/-- The location that a path leads to, which must exist. It is looked up name by name, so a path of
any length will do. -/
def canonical (disk : Disk) (path : Path) : Except IoFault Location := do
  checkText path
  let location ← disk.walk false linkLimit (disk.origin path) path.steps
  if (disk.get? location).isSome then return location else throw .notFound

end Disk

end TypedSettings

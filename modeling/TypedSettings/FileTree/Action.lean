import TypedSettings.FileTree.Basic

/-!
# Changes of file trees

Operations that change a disk or fail. A failing operation leaves the disk as it was; of several in
a row, those before the first failure stay done.
-/

namespace TypedSettings

/-- A computation that may change the disk and may fail. -/
abbrev Action (ε α : Type) := EStateM ε Disk α

namespace Disk

/-! ## §1 Single changes -/

/-- The disk with a new directory. -/
def withDirectory (disk : Disk) (location : Location) : Disk :=
  { disk with entries := OrderedMap.insert location .directory disk.entries }

/-- The disk with a file written. -/
def withFile (disk : Disk) (location : Location) (content : Content) : Disk :=
  { disk with
    entries := OrderedMap.insert location (.file content) disk.entries
    written := disk.written ++ [location] }

/-- The disk with a new link. -/
def withLink (disk : Disk) (location : Location) (target : Path) : Disk :=
  { disk with entries := OrderedMap.insert location (.link target) disk.entries }

/-- The disk without an entry. -/
def without (disk : Disk) (location : Location) : Disk :=
  { disk with entries := OrderedMap.eraseWhere (· = location) disk.entries }

theorem get?_withDirectory (disk : Disk) {location other : Location} (h : location ≠ []) :
    (disk.withDirectory location).get? other =
      if location = other then some .directory else disk.get? other := by
  grind [withDirectory, get?, OrderedMap.find?_insert]

theorem get?_withFile (disk : Disk) {location other : Location} (content : Content)
    (h : location ≠ []) :
    (disk.withFile location content).get? other =
      if location = other then some (.file content) else disk.get? other := by
  grind [withFile, get?, OrderedMap.find?_insert]

theorem get?_withLink (disk : Disk) {location other : Location} (target : Path)
    (h : location ≠ []) :
    (disk.withLink location target).get? other =
      if location = other then some (.link target) else disk.get? other := by
  grind [withLink, get?, OrderedMap.find?_insert]

theorem get?_without (disk : Disk) {location other : Location} (h : location ≠ []) :
    (disk.without location).get? other =
      if location = other then none else disk.get? other := by
  grind [without, get?, OrderedMap.find?_eraseWhere]

/-- The location of a new directory: its parent is a directory, and nothing has its name. -/
def vacancy (disk : Disk) (path : Path) : Except IoFault Location := do
  checkPath path
  match path.names.getLast? with
  | none => throw .alreadyExists
  | some name =>
    let parent ← disk.resolveDirectory path path.names.dropLast
    if name = "." ∨ name = ".." then throw .alreadyExists
    else if isOverlong name then throw .nameTooLong
    else if (disk.get? (parent ++ [name])).isSome then throw .alreadyExists
    else return parent ++ [name]

/-- The location of the file or link of a path itself, its last name not followed. -/
def ownLocation (disk : Disk) (path : Path) : Except IoFault Location := do
  checkPath path
  match path.steps.getLast? with
  | none => throw .isDirectory
  | some name =>
    let parent ← disk.resolveDirectory path path.steps.dropLast
    if staysInPlace name ∨ name = ".." then throw .isDirectory
    else if isOverlong name then throw .nameTooLong
    else match disk.get? (parent ++ [name]) with
      | none => throw .notFound
      | some .directory => throw .isDirectory
      | some _ => return parent ++ [name]

/-- The location that a written file gets. -/
def target (disk : Disk) (path : Path) : Except IoFault Location := do
  let location ← disk.resolveToCreate path
  match disk.get? location with
  | some .directory => throw .isDirectory
  | _ => return location

end Disk

namespace Action

/-- Changes the disk at a location that depends on it. -/
def changeAt (locate : Disk → Except IoFault Location) (change : Disk → Location → Disk) :
    Action IoFault Unit := fun disk =>
  match locate disk with
  | .error fault => .error fault disk
  | .ok location => .ok () (change disk location)

/-- Creates one directory. -/
def createDirectory (path : Path) : Action IoFault Unit :=
  changeAt (·.vacancy path) Disk.withDirectory

/-- Creates one link. -/
def createLink (path target : Path) : Action IoFault Unit :=
  changeAt (·.vacancy path) fun disk location => disk.withLink location target

/-- Writes a file, through links, and creates it if it is absent. -/
def write (path : Path) (content : Content) : Action IoFault Unit :=
  changeAt (·.target path) fun disk location => disk.withFile location content

/-- Removes a file or a link. -/
def removeFile (path : Path) : Action IoFault Unit :=
  changeAt (·.ownLocation path) Disk.without

/-! ## §2 Directories with their parents -/

/-- Creates a directory unless it is there; `parents` runs when its parent is missing. -/
def createUnder (parents : Action IoFault Unit) (path : Path) : Action IoFault Unit := fun disk =>
  match createDirectory path disk with
  | .ok _ disk => .ok () disk
  -- A missing parent is the only fault that creating the parents can mend.
  | .error .notFound disk =>
    match parents disk with
    | .error fault disk => .error fault disk
    | .ok _ disk =>
      match createDirectory path disk with
      | .ok _ disk => .ok () disk
      -- Names such as `.` exist already once the parents do.
      | .error fault disk => if disk.isDirectory path then .ok () disk else .error fault disk
  | .error fault disk => if disk.isDirectory path then .ok () disk else .error fault disk

/-- The path of names from the root or the working directory. -/
def pathOf (absolute : Bool) (names : List String) : Path :=
  ⟨(if absolute then "/" else "") ++ "/".intercalate names⟩

/-- Creates the directory of some names, given the last one first, and its parents as needed. -/
def createAncestors (absolute : Bool) : List String → Action IoFault Unit
  | [] => pure ()
  | name :: before =>
    createUnder (createAncestors absolute before) (pathOf absolute (name :: before).reverse)

/-- Creates a directory and its parents as needed; the empty path is always there. -/
def createDirectories (path : Path) : Action IoFault Unit :=
  if path.text = "" then pure ()
  else createUnder (createAncestors path.isAbsolute path.significantNames.reverse.tail) path

end Action

end TypedSettings

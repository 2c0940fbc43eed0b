import Mathlib
import TypedSettings.Proofs.FileTree.Tree
import TypedSettings.Proofs.Generation.Isolation

/-!
# Settings files of a directory

The candidates of a directory are its files, each under its own name. The one that is read for a
variant is therefore the file with the settings file name, and all that the sources depend on is
what the two settings files hold.

Main facts:
- `Disk.IsTree.find?_childrenOf`: the listing of a directory shows its entries
- `Generation.input?_candidates`: which candidate is read
- `Generation.runVariant_candidates`, `Generation.run_candidates_congr`: what the outcomes depend on
-/

namespace TypedSettings

/-! ## §1 Listings -/

/-- What a file holds. -/
def Entry.content? : Entry → Option Content
  | .file content => some content
  | _ => none

theorem Entry.content?_eq_some_iff {entry : Entry} {content : Content} :
    entry.content? = some content ↔ entry = .file content := by
  cases entry <;> simp [content?]

namespace Disk

/-- What the file of a name in the listing of a directory holds. -/
def fileIn? (disk : Disk) (directory : Path) (name : String) : Option Content :=
  match disk.list directory with
  | .ok children => (OrderedMap.find? name children).bind Entry.content?
  | .error _ => none

variable {disk : Disk} {directory : Path} {location : Location} {name : String}

theorem childName?_eq_some_iff {other : Location} :
    childName? location other = some name ↔ other = location ++ [name] := by
  rw [childName?]
  rcases other.eq_nil_or_concat with rfl | ⟨before, last, rfl⟩
  · simp
  · simp only [List.concat_eq_append, List.getLast?_concat, List.dropLast_concat]
    constructor
    · intro h
      split at h
      next heq =>
        cases h
        rw [heq]
      next => cases h
    · intro h
      obtain ⟨rfl, rfl⟩ : before = location ∧ last = name := by simpa using h
      exact if_pos rfl

/-- A directory lists the entries that lie in it. -/
theorem IsTree.mem_childrenOf (tree : disk.IsTree) {entry : Entry} :
    (name, entry) ∈ disk.childrenOf location ↔ disk.get? (location ++ [name]) = some entry := by
  rw [childrenOf, List.mem_mergeSort, List.mem_filterMap, get?_concat_eq_some_iff tree.nodup]
  constructor
  · rintro ⟨⟨other, entry'⟩, hmem, hname⟩
    obtain ⟨name', hchild, heq⟩ := Option.map_eq_some_iff.mp hname
    obtain ⟨rfl, rfl⟩ := Prod.mk.inj heq
    exact childName?_eq_some_iff.mp hchild ▸ hmem
  · intro hmem
    exact ⟨_, hmem, Option.map_eq_some_iff.mpr ⟨name, childName?_eq_some_iff.mpr rfl, rfl⟩⟩

theorem IsTree.find?_childrenOf (tree : disk.IsTree) :
    OrderedMap.find? name (disk.childrenOf location) = disk.get? (location ++ [name]) := by
  cases hfind : OrderedMap.find? name (disk.childrenOf location) with
  | some entry => exact (tree.mem_childrenOf.mp (OrderedMap.mem_of_find? hfind)).symm
  | none =>
    cases hentry : disk.get? (location ++ [name]) with
    | none => rfl
    | some entry =>
      have hmem := OrderedMap.mem_keys_of_mem (tree.mem_childrenOf.mpr hentry)
      exact absurd hmem (OrderedMap.find?_eq_none_iff.mp hfind)

/-- What is listed are the directories that paths lead to. -/
theorem IsTree.list_eq_ok_iff (tree : disk.IsTree) {children : List (String × Entry)} :
    disk.list directory = .ok children ↔
      directory.text ≠ "" ∧ ∃ location, disk.Opens directory location ∧
        children = disk.childrenOf location := by
  constructor
  · intro h
    obtain ⟨location, hresolve, h⟩ := exists_of_bind_eq_ok h
    split at h
    next hdirectory =>
      cases h
      exact ⟨(checkPath_eq_ok_iff.mp (checkPath_of_resolve hresolve)).2.1, location,
        tree.opens_of_resolve hresolve hdirectory, rfl⟩
    all_goals cases h
  · rintro ⟨hpath, location, hopens, rfl⟩
    rw [list, hopens.resolve_eq hpath]
    simp [tree.get?_of_opens hopens, bind, Except.bind, pure, Except.pure]

theorem IsTree.fileIn?_eq (tree : disk.IsTree) (h : disk.Opens directory location)
    (hpath : directory.text ≠ "") :
    disk.fileIn? directory name = (disk.get? (location ++ [name])).bind Entry.content? := by
  rw [fileIn?, tree.list_eq_ok_iff.mpr ⟨hpath, location, h, rfl⟩, ← tree.find?_childrenOf]

theorem IsTree.fileIn?_eq_some_iff (tree : disk.IsTree) (h : disk.Opens directory location)
    (hpath : directory.text ≠ "") {content : Content} :
    disk.fileIn? directory name = some content ↔
      disk.get? (location ++ [name]) = some (.file content) := by
  rw [tree.fileIn?_eq h hpath, Option.bind_eq_some_iff]
  simp only [Entry.content?_eq_some_iff, exists_eq_right]

end Disk

namespace Generation

/-! ## §2 Candidates -/

section

variable {disk : Disk} {directory : Path} {location : Location} {paths : List Path}

theorem candidates_eq_ok_iff (tree : disk.IsTree) :
    candidates disk directory = .ok paths ↔
      directory.text ≠ "" ∧ ∃ location, disk.Opens directory location ∧
        paths = (disk.childrenOf location).filterMap fun (name, entry) =>
          match entry with
          | .file _ => some (directory.child name)
          | _ => none := by
  constructor
  · intro h
    obtain ⟨children, hlist, h⟩ := exists_of_bind_eq_ok h
    cases h
    obtain ⟨hpath, location, hopens, rfl⟩ := tree.list_eq_ok_iff.mp hlist
    exact ⟨hpath, location, hopens, rfl⟩
  · rintro ⟨hpath, location, hopens, rfl⟩
    rw [candidates, tree.list_eq_ok_iff.mpr ⟨hpath, location, hopens, rfl⟩]
    rfl

/-- The candidates are the files of the directory. -/
theorem mem_candidates_iff (tree : disk.IsTree) (h : candidates disk directory = .ok paths)
    {path : Path} :
    path ∈ paths ↔ ∃ name content, disk.fileIn? directory name = some content ∧
      Path.IsName name ∧ path = directory.child name := by
  obtain ⟨hpath, location, hopens, rfl⟩ := (candidates_eq_ok_iff tree).mp h
  simp only [tree.fileIn?_eq_some_iff hopens hpath, List.mem_filterMap]
  constructor
  · rintro ⟨⟨name, entry⟩, hmem, hname⟩
    rw [tree.mem_childrenOf] at hmem
    cases entry with
    | file content => exact ⟨name, content, hmem, tree.isName hmem, (Option.some.inj hname).symm⟩
    | directory => cases hname
    | link target => cases hname
  · rintro ⟨name, content, hcontent, -, rfl⟩
    exact ⟨(name, .file content), tree.mem_childrenOf.mpr hcontent, rfl⟩

/-- The candidate that is read for a variant is the file with the settings file name. -/
theorem input?_candidates (tree : disk.IsTree) (h : candidates disk directory = .ok paths)
    (program : String) (variant : Variant) :
    input? program paths variant =
      (disk.fileIn? directory (variant.fileName program)).map fun _ =>
        directory.child (variant.fileName program) := by
  cases hfile : disk.fileIn? directory (variant.fileName program) with
  | none =>
    rw [Option.map_none, input?_eq_none_iff]
    intro path hmem hname
    obtain ⟨name, content, hcontent, hisName, rfl⟩ := (mem_candidates_iff tree h).mp hmem
    rw [Path.fileName?_child hisName] at hname
    cases hname
    cases hfile.symm.trans hcontent
  | some content =>
    -- The file is a candidate, so one is found, and its name fixes the path.
    cases hinput : input? program paths variant with
    | none =>
      obtain ⟨hpath, location, hopens, -⟩ := (candidates_eq_ok_iff tree).mp h
      have hisName := tree.isName ((tree.fileIn?_eq_some_iff hopens hpath).mp hfile)
      have hmem : directory.child (variant.fileName program) ∈ paths :=
        (mem_candidates_iff tree h).mpr ⟨_, content, hfile, hisName, rfl⟩
      exact absurd (Path.fileName?_child hisName) (input?_eq_none_iff.mp hinput _ hmem)
    | some path =>
      obtain ⟨before, after, rfl, hname, -⟩ := input?_eq_some_iff.mp hinput
      obtain ⟨name, content, -, hisName, rfl⟩ := (mem_candidates_iff tree h).mp
        (List.mem_append_right _ List.mem_cons_self)
      rw [Path.fileName?_child hisName] at hname
      cases hname
      rfl

/-- The text that is read from a file of a directory. -/
def textIn (directory : Path) (name : String) (content : Content) : Except IoFault String := do
  Disk.checkChild directory name
  match content with
  | .text text => return text
  | .binary _ => throw .notText

theorem readText_of_fileIn? (tree : disk.IsTree) (h : candidates disk directory = .ok paths)
    {name : String} {content : Content} (hfile : disk.fileIn? directory name = some content) :
    disk.readText (directory.child name) = textIn directory name content := by
  obtain ⟨hpath, location, hopens, -⟩ := (candidates_eq_ok_iff tree).mp h
  have hentry := (tree.fileIn?_eq_some_iff hopens hpath).mp hfile
  rw [tree.readText_child hopens (tree.isName hentry), hentry]
  cases content <;> rfl

/-- The outcome of a pass that has found its settings file. -/
def outcomeOf (path : Path) (program : String) (variant : Variant) :
    Except IoFault String → Except GenerationError GeneratedSource
  | .error fault => .error (.unreadable path fault)
  | .ok text =>
    match ofText text program variant with
    | .error e => .error (.rejected e)
    | .ok source => .ok source

/-- A pass that has found its settings file does not miss it. -/
theorem outcomeOf_ne_notFound {path : Path} {program name : String} {variant : Variant}
    {result : Except IoFault String} :
    outcomeOf path program variant result ≠ .error (.notFound name) := by
  cases result with
  | error fault => simp [outcomeOf]
  | ok text =>
    dsimp only [outcomeOf]
    split <;> simp

/-- The outcome of a variant depends on what its settings file holds. -/
theorem runVariant_candidates (tree : disk.IsTree) (h : candidates disk directory = .ok paths)
    (program : String) (variant : Variant) :
    runVariant disk program paths variant =
      match disk.fileIn? directory (variant.fileName program) with
      | none => .error (.notFound (variant.fileName program))
      | some content =>
        outcomeOf (directory.child (variant.fileName program)) program variant
          (textIn directory (variant.fileName program) content) := by
  rw [runVariant, input?_candidates tree h]
  cases hfile : disk.fileIn? directory (variant.fileName program) with
  | none => rfl
  | some content =>
    rw [Option.map_some]
    dsimp only
    rw [← readText_of_fileIn? tree h hfile]
    cases disk.readText (directory.child (variant.fileName program)) <;> rfl

/-- Whatever the disks hold besides, the same settings files have the same outcomes. -/
theorem run_candidates_congr {disk' : Disk} {paths' : List Path} (tree : disk.IsTree)
    (tree' : disk'.IsTree) (h : candidates disk directory = .ok paths)
    (h' : candidates disk' directory = .ok paths') {program : String}
    (hsame : ∀ variant : Variant, disk.fileIn? directory (variant.fileName program) =
      disk'.fileIn? directory (variant.fileName program)) :
    run disk program paths = run disk' program paths' := by
  unfold run
  congr 1
  funext variant
  rw [runVariant_candidates tree h, runVariant_candidates tree' h', hsame]

end

end Generation

end TypedSettings

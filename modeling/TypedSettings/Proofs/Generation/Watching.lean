import Mathlib
import TypedSettings.Generation.Build
import TypedSettings.Proofs.FileTree.Change
import TypedSettings.Proofs.Generation.Inputs

/-!
# Watched files

A build asks to be run again when a settings file changes. It looks for these files by their paths,
while a run looks for them in the listing of the source directory. On a disk of files and
directories both find the same files, with one exception: a listing also shows a file whose path is
longer than file systems take. Such a file is not watched, and its content is never read either.

Main facts:
- `Build.Finds`: whether a run finds a settings file
- `Build.Addressable`: paths that file systems take
- `Build.mem_watchLines_iff`: which files are watched
- `Build.exists_watched_of_run_ne`: only watched files decide on the outcomes
- `Build.watchLines_name_inputs`: watched files are the files that are read
-/

namespace TypedSettings

/-! ## §1 Settings files -/

/-- The name of a settings file is one that entries can have, if that of the program is. -/
theorem Variant.isName_fileName {program : String} (h : '/' ∉ program.toList) (variant : Variant) :
    Path.IsName (variant.fileName program) := by
  cases variant with
  | publicSettings => exact (by decide : Path.IsName "settings.json")
  | internalSettings =>
    have hsuffix : '/' ∉ ".settings.json".toList := by decide
    have hlong : 2 < (Variant.internalSettings.fileName program).length := by
      have hsize : 2 < ".settings.json".length := by decide
      rw [fileName, String.length_append]
      omega
    have hne : ∀ short : String, short.length ≤ 2 →
        Variant.internalSettings.fileName program ≠ short := by
      rintro short hshort rfl
      omega
    refine ⟨hne "" (by decide), ?_, hne "." (by decide), hne ".." (by decide)⟩
    rw [fileName, String.toList_append, List.mem_append, not_or]
    exact ⟨h, hsuffix⟩

namespace Build

/-! ## §2 What is found and what is watched -/

/-- A run finds a settings file: its outcome is not that there is none. -/
def Finds (build : Build) (disk : Disk) (paths : List Path) (variant : Variant) : Prop :=
  ∀ name, Generation.runVariant disk build.program paths variant ≠ .error (.notFound name)

/-- File systems take the path of the settings file. For a file that is there, only the length of
its path may keep them from it. -/
structure Addressable (build : Build) (variant : Variant) : Prop where
  zero_notMem : '\x00' ∉ (build.settingsPath variant).text.toList
  name_fits : (variant.fileName build.program).utf8ByteSize ≤ Disk.nameLimit
  path_fits : (build.settingsPath variant).text.utf8ByteSize ≤ Disk.pathLimit

/-- The line that watches the settings file of a variant. -/
def watchLine (build : Build) (variant : Variant) : String :=
  "cargo:rerun-if-changed=" ++ (build.settingsPath variant).text

theorem watchLines_eq_map (build : Build) (disk : Disk) :
    build.watchLines disk =
      (Variant.all.filter fun variant => disk.isFile (build.settingsPath variant)).map
        build.watchLine := by
  rw [watchLines, List.filter_map, List.map_map]
  rfl

section

variable {build : Build} (hprogram : '/' ∉ build.program.toList)
include hprogram

theorem addressable_iff {variant : Variant} : build.Addressable variant ↔
    Disk.checkChild build.sourceDirectory (variant.fileName build.program) = .ok () := by
  have hne : (build.settingsPath variant).text ≠ "" :=
    Path.text_child_ne_empty (Variant.isName_fileName hprogram variant)
  have hlong : ¬ Disk.isOverlong (variant.fileName build.program) ↔
      (variant.fileName build.program).utf8ByteSize ≤ Disk.nameLimit := by
    simp [Disk.isOverlong]
  rw [Disk.checkChild_eq_ok_iff, Disk.checkPath_eq_ok_iff, hlong]
  exact ⟨fun ⟨hzero, hname, hpath⟩ => ⟨⟨hzero, hne, hpath⟩, hname⟩,
    fun ⟨⟨hzero, _, hpath⟩, hname⟩ => ⟨hzero, hname, hpath⟩⟩

/-- Different settings files have different lines. -/
theorem watchLine_injective : Function.Injective build.watchLine := by
  intro first second h
  have hpath : build.settingsPath first = build.settingsPath second :=
    congrArg Path.mk (String.append_right_inj _ |>.mp h)
  have hname := congrArg Path.fileName? hpath
  rw [settingsPath, settingsPath, Path.fileName?_child (Variant.isName_fileName hprogram first),
    Path.fileName?_child (Variant.isName_fileName hprogram second)] at hname
  exact Variant.fileName_inj (Option.some.inj hname)

theorem mem_watchLines_iff_isFile {disk : Disk} {variant : Variant} :
    build.watchLine variant ∈ build.watchLines disk ↔
      disk.isFile (build.settingsPath variant) = true := by
  have hall : variant ∈ Variant.all := by cases variant <;> decide
  rw [watchLines_eq_map, List.mem_map_of_injective (watchLine_injective hprogram),
    List.mem_filter]
  exact and_iff_right hall

end

section

variable {build : Build} {disk : Disk} {paths : List Path} {variant : Variant}

/-- A run finds the files that are listed. -/
theorem finds_iff (tree : disk.IsTree)
    (hlisted : Generation.candidates disk build.sourceDirectory = .ok paths) :
    build.Finds disk paths variant ↔
      ∃ content, disk.fileIn? build.sourceDirectory (variant.fileName build.program) =
        some content := by
  rw [Finds, Generation.runVariant_candidates tree hlisted]
  cases disk.fileIn? build.sourceDirectory (variant.fileName build.program) with
  | none => simp
  | some content =>
    simp only [Option.some.injEq, exists_eq', iff_true]
    exact fun name => Generation.outcomeOf_ne_notFound

/-- **A settings file is watched** if a run finds it and file systems take its path. -/
theorem mem_watchLines_iff (tree : disk.IsTree)
    (hlisted : Generation.candidates disk build.sourceDirectory = .ok paths)
    (hprogram : '/' ∉ build.program.toList) :
    build.watchLine variant ∈ build.watchLines disk ↔
      build.Finds disk paths variant ∧ build.Addressable variant := by
  obtain ⟨hpath, location, hopens, -⟩ := (Generation.candidates_eq_ok_iff tree).mp hlisted
  have hname := Variant.isName_fileName hprogram variant
  rw [mem_watchLines_iff_isFile hprogram, settingsPath, tree.isFile_child_iff hopens hname,
    finds_iff tree hlisted, addressable_iff hprogram]
  simp only [tree.fileIn?_eq_some_iff hopens hpath]

/-- What a run finds at a path that is not taken, it does not read. -/
theorem runVariant_of_not_addressable (tree : disk.IsTree)
    (hlisted : Generation.candidates disk build.sourceDirectory = .ok paths)
    (hprogram : '/' ∉ build.program.toList) (hfinds : build.Finds disk paths variant)
    (h : ¬ build.Addressable variant) :
    ∃ fault, Disk.checkChild build.sourceDirectory (variant.fileName build.program) = .error fault ∧
      Generation.runVariant disk build.program paths variant =
        .error (.unreadable (build.settingsPath variant) fault) := by
  obtain ⟨content, hcontent⟩ := (finds_iff tree hlisted).mp hfinds
  rw [addressable_iff hprogram] at h
  cases hcheck : Disk.checkChild build.sourceDirectory (variant.fileName build.program) with
  | ok _ => exact absurd hcheck h
  | error fault =>
    refine ⟨fault, rfl, ?_⟩
    rw [Generation.runVariant_candidates tree hlisted, hcontent]
    simp [Generation.textIn, hcheck, bind, Except.bind, Generation.outcomeOf, settingsPath]

/-! ## §3 What decides on the outcomes -/

/-- The outcome of a variant changes only with what its settings file holds. -/
theorem eq_of_runVariant_ne {location : Location} {new : Content} {paths' : List Path}
    (tree : disk.IsTree) (tree' : (disk.withFile location new).IsTree)
    (hconfined : Disk.Confined (· = location) disk (disk.withFile location new))
    {parent : Location} (hopens : disk.Opens build.sourceDirectory parent)
    (hlisted : Generation.candidates disk build.sourceDirectory = .ok paths)
    (hlisted' : Generation.candidates (disk.withFile location new) build.sourceDirectory =
      .ok paths')
    (hne : Generation.runVariant (disk.withFile location new) build.program paths' variant ≠
      Generation.runVariant disk build.program paths variant) :
    location = parent ++ [variant.fileName build.program] := by
  by_contra hfar
  have hpath := ((Generation.candidates_eq_ok_iff tree).mp hlisted).1
  apply hne
  -- The settings file is another one, so the run sees it with the content that it had.
  rw [Generation.runVariant_candidates tree hlisted,
    Generation.runVariant_candidates tree' hlisted', tree.fileIn?_eq hopens hpath,
    tree'.fileIn?_eq (hconfined.opens hopens) hpath, hconfined.frame (Ne.symm hfar)]

/-- **Only watched files decide on the outcomes**: if another content of a file changes them, the
file is the one that a watched path leads to. -/
theorem exists_watched_of_run_ne (tree : disk.IsTree)
    (hlisted : Generation.candidates disk build.sourceDirectory = .ok paths)
    (hprogram : '/' ∉ build.program.toList) {location : Location} {old : Content}
    (hold : disk.get? location = some (.file old)) (new : Content) :
    ∃ paths', Generation.candidates (disk.withFile location new) build.sourceDirectory =
        .ok paths' ∧
      (Generation.run (disk.withFile location new) build.program paths' ≠
        Generation.run disk build.program paths →
          ∃ variant, build.watchLine variant ∈ build.watchLines disk ∧
            disk.resolve (build.settingsPath variant) = .ok location) := by
  obtain ⟨hpath, parent, hopens, -⟩ := (Generation.candidates_eq_ok_iff tree).mp hlisted
  obtain ⟨tree', hconfined⟩ := tree.withFile_of_file hold new
  obtain ⟨paths', hlisted'⟩ : ∃ paths', Generation.candidates (disk.withFile location new)
      build.sourceDirectory = .ok paths' :=
    ⟨_, (Generation.candidates_eq_ok_iff tree').mpr ⟨hpath, parent, hconfined.opens hopens, rfl⟩⟩
  refine ⟨paths', hlisted', fun hne => ?_⟩
  obtain ⟨variant, hvariant⟩ := Generation.exists_of_run_ne hne
  obtain rfl := eq_of_runVariant_ne tree tree' hconfined hopens hlisted hlisted' hvariant
  have hfound : build.Finds disk paths variant :=
    (finds_iff tree hlisted).mpr ⟨old, (tree.fileIn?_eq_some_iff hopens hpath).mpr hold⟩
  have hnew : (disk.withFile (parent ++ [variant.fileName build.program]) new).get?
      (parent ++ [variant.fileName build.program]) = some (.file new) := by
    rw [Disk.get?_withFile disk new (by simp), if_pos rfl]
  have hfound' : build.Finds _ paths' variant := (finds_iff tree' hlisted').mpr
    ⟨new, (tree'.fileIn?_eq_some_iff (hconfined.opens hopens) hpath).mpr hnew⟩
  -- Where the path is not taken, the outcome says so before and after.
  have haddress : build.Addressable variant := by
    by_contra hrefused
    obtain ⟨fault, hcheck, hrun⟩ :=
      runVariant_of_not_addressable tree hlisted hprogram hfound hrefused
    obtain ⟨fault', hcheck', hrun'⟩ :=
      runVariant_of_not_addressable tree' hlisted' hprogram hfound' hrefused
    cases hcheck.symm.trans hcheck'
    exact hvariant (hrun'.trans hrun.symm)
  refine ⟨variant, (mem_watchLines_iff tree hlisted hprogram).mpr ⟨hfound, haddress⟩, ?_⟩
  rw [settingsPath, tree.resolve_child hopens (Variant.isName_fileName hprogram variant),
    (addressable_iff hprogram).mp haddress]
  rfl

/-- A directory that has the name of a settings file is not taken for one. -/
theorem not_finds_of_directory (tree : disk.IsTree)
    (hlisted : Generation.candidates disk build.sourceDirectory = .ok paths)
    {children : List (String × Entry)} (hchildren : disk.list build.sourceDirectory = .ok children)
    (hmem : (variant.fileName build.program, .directory) ∈ children) :
    ¬ build.Finds disk paths variant ∧
      Generation.input? build.program paths variant = none := by
  obtain ⟨hpath, location, hopens, rfl⟩ := tree.list_eq_ok_iff.mp hchildren
  have hnone : disk.fileIn? build.sourceDirectory (variant.fileName build.program) = none := by
    rw [tree.fileIn?_eq hopens hpath, tree.mem_childrenOf.mp hmem]
    rfl
  constructor
  · rw [finds_iff tree hlisted, hnone]
    rintro ⟨content, hcontent⟩
    cases hcontent
  · rw [Generation.input?_candidates tree hlisted, hnone]
    rfl

end

/-! ## §4 Watched files -/

/-- **Watched files are the files that are read**: on a disk of files and directories, and for a
program that has no slash in its name, a settings file is watched exactly if a run finds it and file
systems take its path, and the line names the path that is read. The public file comes first, and no
line is repeated. A file whose path is not taken is not read. If another content of any file changes
the outcomes, that file is watched, and a directory with the name of a settings file is neither
watched nor read. -/
theorem watchLines_name_inputs {build : Build} {disk : Disk} {paths : List Path}
    (tree : disk.IsTree)
    (hlisted : Generation.candidates disk build.sourceDirectory = .ok paths)
    (hprogram : '/' ∉ build.program.toList) :
    (∀ variant, build.watchLine variant ∈ build.watchLines disk ↔
      build.Finds disk paths variant ∧ build.Addressable variant) ∧
    (∀ variant path, Generation.input? build.program paths variant = some path →
      path = build.settingsPath variant) ∧
    (build.watchLines disk).Sublist (Variant.all.map build.watchLine) ∧
    (build.watchLines disk).Nodup ∧
    (∀ variant, build.Finds disk paths variant → ¬ build.Addressable variant →
      ∃ fault, Generation.runVariant disk build.program paths variant =
        .error (.unreadable (build.settingsPath variant) fault)) ∧
    (∀ location old new, disk.get? location = some (.file old) →
      ∃ paths', Generation.candidates (disk.withFile location new) build.sourceDirectory =
          .ok paths' ∧
        (Generation.run (disk.withFile location new) build.program paths' ≠
          Generation.run disk build.program paths →
            ∃ variant, build.watchLine variant ∈ build.watchLines disk ∧
              disk.resolve (build.settingsPath variant) = .ok location)) ∧
    (∀ variant children, disk.list build.sourceDirectory = .ok children →
      (variant.fileName build.program, .directory) ∈ children →
        build.watchLine variant ∉ build.watchLines disk ∧
          Generation.input? build.program paths variant = none) := by
  have hsublist : (build.watchLines disk).Sublist (Variant.all.map build.watchLine) := by
    rw [watchLines_eq_map]
    exact List.filter_sublist.map _
  have hnodup : (Variant.all.map build.watchLine).Nodup :=
    (by decide : Variant.all.Nodup).map (watchLine_injective hprogram)
  refine ⟨fun variant => mem_watchLines_iff tree hlisted hprogram,
    fun variant path hinput => ?named, hsublist, hsublist.nodup hnodup,
    fun variant hfinds hrefused => ?refused,
    fun location old new hold => exists_watched_of_run_ne tree hlisted hprogram hold new,
    fun variant children hchildren hmem => ?directory⟩
  case named =>
    rw [Generation.input?_candidates tree hlisted, Option.map_eq_some_iff] at hinput
    obtain ⟨content, -, rfl⟩ := hinput
    rfl
  case refused =>
    obtain ⟨fault, -, hrun⟩ := runVariant_of_not_addressable tree hlisted hprogram hfinds hrefused
    exact ⟨fault, hrun⟩
  case directory =>
    obtain ⟨hmissed, hnone⟩ := not_finds_of_directory tree hlisted hchildren hmem
    rw [mem_watchLines_iff tree hlisted hprogram]
    exact ⟨fun hwatched => hmissed hwatched.1, hnone⟩

/-- A source directory with one settings file, and a directory that is named as the other one. -/
def misnamed : Disk where
  entries := [(["src"], .directory), (["src", "settings.json"], .file (.text "{}")),
    (["src", "demo.settings.json"], .directory)]
  workingDirectory := []
  written := []

theorem watchLines_name_inputs_misnamed :
    let build : Build := ⟨⟨"src"⟩, "demo", ⟨"out"⟩⟩
    misnamed.IsTree ∧ '/' ∉ build.program.toList ∧
      ∃ paths, Generation.candidates misnamed build.sourceDirectory = .ok paths ∧
        build.watchLine .publicSettings ∈ build.watchLines misnamed ∧
        build.watchLine .internalSettings ∉ build.watchLines misnamed ∧
        Generation.input? build.program paths .internalSettings = none := by
  intro build
  have tree : misnamed.IsTree := by decide
  have hopens : misnamed.Opens build.sourceDirectory ["src"] := by decide
  have hpath : build.sourceDirectory.text ≠ "" := by decide
  have hlisted := (Generation.candidates_eq_ok_iff tree).mpr ⟨hpath, ["src"], hopens, rfl⟩
  have hchildren := tree.list_eq_ok_iff.mpr ⟨hpath, ["src"], hopens, rfl⟩
  have hprogram : '/' ∉ build.program.toList := by decide
  obtain ⟨hwatched, -, -, -, -, -, hdirectory⟩ := watchLines_name_inputs tree hlisted hprogram
  have hfinds : build.Finds misnamed _ .publicSettings := (finds_iff tree hlisted).mpr
    ⟨.text "{}", (tree.fileIn?_eq_some_iff hopens hpath).mpr (by decide)⟩
  have haddress : build.Addressable .publicSettings := ⟨by decide, by decide, by decide⟩
  exact ⟨tree, hprogram, _, hlisted, (hwatched _).mpr ⟨hfinds, haddress⟩,
    hdirectory .internalSettings _ hchildren (tree.mem_childrenOf.mpr (by decide))⟩

end Build

/-! ## §5 A path that is too long -/

namespace Path

/-- The working directory, followed by slashes. -/
def slashed (count : Nat) : Path := ⟨String.ofList ('.' :: List.replicate count '/')⟩

theorem toList_slashed (count : Nat) :
    (slashed count).text.toList = '.' :: List.replicate count '/' :=
  String.toList_ofList

theorem text_slashed_ne_empty (count : Nat) : (slashed count).text ≠ "" := by
  rw [Ne, ← String.toList_eq_nil_iff, toList_slashed]
  simp

theorem names_slashed (count : Nat) : (slashed count).names = ["."] := by
  have hslashes : ∀ n, splitSlashes (List.replicate n '/') = List.replicate (n + 1) [] := by
    intro n
    induction n with
    | zero => rfl
    | succ n ih =>
      rw [List.replicate_succ, splitSlashes, if_pos rfl, ih, ← List.replicate_succ]
  rw [names, toList_slashed, splitSlashes, if_neg (by decide), hslashes, List.replicate_succ]
  simp

theorem size_slashed (count : Nat) : (slashed count).text.utf8ByteSize = count + 1 := by
  have hslashes : ∀ n, String.utf8Len (List.replicate n '/') = n := by
    intro n
    induction n with
    | zero => rfl
    | succ n ih =>
      rw [List.replicate_succ, String.utf8Len_cons, ih]
      rfl
  rw [slashed, String.utf8ByteSize_ofList, String.utf8Len_cons, hslashes]
  rfl

end Path

/-- The slashes may be as many as a path may have bytes. -/
theorem Disk.opens_slashed (disk : Disk) {count : Nat} (h : count < Disk.pathLimit) :
    disk.Opens (Path.slashed count) disk.workingDirectory := by
  refine ⟨.inr (Disk.checkPath_eq_ok_iff.mpr ⟨?_, Path.text_slashed_ne_empty count, ?_⟩), ?_⟩
  · simp [Path.toList_slashed]
  · rw [Path.size_slashed]
    omega
  · have horigin : disk.origin (Path.slashed count) = disk.workingDirectory := by
      rw [Disk.origin, Path.isAbsolute, Path.toList_slashed]
      rfl
    rw [Path.names_slashed, horigin]
    rfl

namespace Build

/-- A settings file in the working directory. -/
def ordinary : Disk where
  entries := [(["settings.json"], .file (.text "{}"))]
  workingDirectory := []
  written := []

/-- A file that a run finds is not watched, as its path is too long. -/
theorem found_file_unwatched :
    let build : Build := ⟨Path.slashed 4090, "demo", ⟨"out"⟩⟩
    ordinary.IsTree ∧ '/' ∉ build.program.toList ∧
      ∃ paths, Generation.candidates ordinary build.sourceDirectory = .ok paths ∧
        build.Finds ordinary paths .publicSettings ∧
        build.watchLine .publicSettings ∉ build.watchLines ordinary := by
  intro build
  have tree : ordinary.IsTree := by decide
  have hopens : ordinary.Opens build.sourceDirectory [] := Disk.opens_slashed ordinary (by decide)
  have hprogram : '/' ∉ build.program.toList := by decide
  have hpath : build.sourceDirectory.text ≠ "" := Path.text_slashed_ne_empty 4090
  have hlisted := (Generation.candidates_eq_ok_iff tree).mpr ⟨hpath, [], hopens, rfl⟩
  have hfinds : build.Finds ordinary _ .publicSettings := (finds_iff tree hlisted).mpr
    ⟨.text "{}", (tree.fileIn?_eq_some_iff hopens hpath).mpr (by decide)⟩
  refine ⟨tree, hprogram, _, hlisted, hfinds, fun hwatched => ?_⟩
  have hfits := ((mem_watchLines_iff tree hlisted hprogram).mp hwatched).2.path_fits
  have hsize : (Path.slashed 4090).text.utf8ByteSize + "settings.json".utf8ByteSize ≤
      (build.settingsPath .publicSettings).text.utf8ByteSize :=
    Path.size_le_child (Variant.isName_fileName hprogram .publicSettings)
  have hname : "settings.json".utf8ByteSize = 13 := by decide
  rw [Path.size_slashed, hname] at hsize
  exact absurd (hsize.trans hfits) (by decide)

end Build

end TypedSettings

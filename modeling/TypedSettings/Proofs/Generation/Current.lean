import Mathlib
import TypedSettings.Proofs.FileTree.Descent
import TypedSettings.Proofs.Generation.Output

/-!
# Current output files

An update leaves the files of the variants that have a source, each with the text of the first one,
and the file with all sources. It writes only what is not there yet, and it can fail only where
something is in the way: a directory in place of an output file, also one that is made when the
output directory is created.

Main facts:
- `Output.written_of_settleAll`: which files are written
- `Output.IsCurrent`: the output files of some sources
- `Output.update_leaves_current`: an update of a directory that can be created
-/

namespace TypedSettings.Output

/-! ## §1 Written files -/

/-- The file is to hold a text that it does not hold yet. -/
def isDue (disk : Disk) (location : Location) (file : String × Option String) : Bool :=
  file.2.isSome && disk.get? (location ++ [file.1]) != fileOf? file.2

section

variable {disk next : Disk} {directory : Path} {location : Location}

/-- Whether a file is due does not depend on directories. -/
theorem isDue_of_grown (h : Disk.Grown disk next) (location : Location) :
    isDue next location = isDue disk location := by
  funext ⟨name, text?⟩
  cases text? with
  | none => rfl
  | some text =>
    have hiff : next.get? (location ++ [name]) = fileOf? (some text) ↔
        disk.get? (location ++ [name]) = fileOf? (some text) := h.get?_eq_file_iff
    simp only [isDue, bne, beq_eq_decide, hiff]

/-- A file is written if it is due, and not if it is to be gone. -/
theorem written_settle (disk : Disk) (location : Location) (name : String)
    (text? : Option String) : (disk.settle (location ++ [name]) text?).written =
      disk.written ++ if isDue disk location (name, text?) then [location ++ [name]] else [] := by
  by_cases hsettled : disk.get? (location ++ [name]) = fileOf? text?
  · simp [Disk.settle_eq_self hsettled, isDue, hsettled]
  · cases text? with
    | none => simp [Disk.settle, hsettled, isDue, Disk.without]
    | some text => simp [Disk.settle, hsettled, isDue, Disk.withFile]

/-- Settling files writes those that are due. -/
theorem written_of_settleAll {files : OrderedMap String (Option String)} (tree : disk.IsTree)
    (h : disk.Opens directory location) (names : HasNames files)
    (hcheck : ∀ name ∈ OrderedMap.keys files, Disk.checkChild directory name = .ok ())
    (hsettle : settleAll directory files disk = .ok () next) :
    next.written =
      disk.written ++ (files.filter (isDue disk location)).map (location ++ [·.1]) := by
  induction files generalizing disk with
  | nil =>
    cases hsettle
    simp
  | cons file rest ih =>
    obtain ⟨name, text?⟩ := file
    obtain ⟨hnew, hrest⟩ := names.tail
    have hname := names.isName name List.mem_cons_self
    have hrespects := settle_respects tree h hname text?
    rw [settleAll] at hsettle
    obtain ⟨_, middle, hfirst, hsettle⟩ := Action.exists_of_bind_ok hsettle
    rw [hfirst] at hrespects
    obtain ⟨htree, hconfined, -⟩ := hrespects
    obtain rfl : middle = disk.settle (location ++ [name]) text? := by
      rw [settle_child tree h hname, hcheck name List.mem_cons_self] at hfirst
      dsimp only at hfirst
      split_ifs at hfirst
      cases hfirst
      rfl
    have hothers := ih htree (hconfined.opens h) hrest
      (fun other hother => hcheck other (List.mem_cons_of_mem _ hother)) hsettle
    -- The files after the first are due if they were before it was settled.
    have hsame : rest.filter (isDue (disk.settle (location ++ [name]) text?) location) =
        rest.filter (isDue disk location) := by
      refine List.filter_congr fun file hfile => ?_
      rw [isDue, isDue, hconfined.frame]
      intro heq
      obtain rfl : file.1 = name := by simpa using heq
      exact hnew (List.mem_map_of_mem hfile)
    rw [hothers, hsame, written_settle, List.append_assoc, List.filter_cons]
    split_ifs <;> rfl

end

/-! ## §2 Files that are there -/

section

variable {directory : Path} {location : Location} {files : OrderedMap String (Option String)}
  {after : Disk}

theorem Settled.isFile_eq (h : Settled directory files after) {name : String}
    {text? : Option String} (hmem : (name, text?) ∈ files) :
    after.isFile (directory.child name) = text?.isSome := by
  rw [Disk.isFile, h name text? hmem]
  cases text? <;> rfl

/-- The returned paths are those of the files that are there. -/
theorem Settled.presentPaths_eq (h : Settled directory files after) :
    presentPaths directory files =
      ((OrderedMap.keys files).filter fun name => after.isFile (directory.child name)).map
        directory.child := by
  induction files with
  | nil => rfl
  | cons file rest ih =>
    obtain ⟨name, text?⟩ := file
    have hfile := h.isFile_eq List.mem_cons_self
    have hrest := ih fun other other? hmem => h other other? (List.mem_cons_of_mem _ hmem)
    rw [presentPaths] at hrest ⊢
    rw [OrderedMap.keys_cons, List.filterMap_cons, List.filter_cons, hfile, hrest]
    cases text? <;> rfl

/-- The files that were due are those that are there and have changed. -/
theorem Settled.filter_isDue (h : Settled directory files after) {disk : Disk}
    (hget : ∀ name text?, (name, text?) ∈ files → after.get? (location ++ [name]) = fileOf? text?) :
    (files.filter (isDue disk location)).map (location ++ [·.1]) =
      ((OrderedMap.keys files).filter fun name => after.isFile (directory.child name) &&
        after.get? (location ++ [name]) != disk.get? (location ++ [name])).map
          (location ++ [·]) := by
  rw [OrderedMap.keys, List.filter_map, List.map_map]
  refine congrArg (List.map _) (List.filter_congr ?_)
  rintro ⟨name, text?⟩ hmem
  rw [isDue, Function.comp_apply, h.isFile_eq hmem, hget name text? hmem, bne_comm]

end

/-! ## §3 Current files -/

/-- `IsCurrent directory location sources disk paths after`: an update of the directory, which is at
the location, has left the output files of the sources, and has returned these paths. -/
structure IsCurrent (directory : Path) (location : Location) (sources : List GeneratedSource)
    (disk : Disk) (paths : List Path) (after : Disk) : Prop where
  resolve_eq : ∀ name ∈ fileNames, after.resolve (directory.child name) = .ok (location ++ [name])
  /-- There is a file for each variant that has a source. -/
  pathExists_iff : ∀ variant : Variant,
    after.pathExists (directory.child variant.outputFileName) = true ↔
      ∃ source ∈ sources, source.variant = variant
  /-- The file of a variant holds the text of its first source. -/
  readText_variant : ∀ before source rest, sources = before ++ source :: rest →
    (∀ earlier ∈ before, earlier.variant ≠ source.variant) →
      after.readText (directory.child source.variant.outputFileName) = .ok source.text
  readText_aggregate : after.readText (directory.child aggregateName) =
    .ok ("\n".intercalate (sources.map GeneratedSource.text))
  /-- No other file is changed; directories may have been created. -/
  frame : ∀ other, (∀ name ∈ fileNames, other ≠ location ++ [name]) →
    after.get? other = disk.get? other ∨
      disk.get? other = none ∧ after.get? other = some .directory
  paths_eq : paths =
    (fileNames.filter fun name => after.isFile (directory.child name)).map directory.child
  /-- The files that are there and have changed are written, and no others. -/
  written_eq : after.written = disk.written ++
    (fileNames.filter fun name => after.isFile (directory.child name) &&
      after.get? (location ++ [name]) != disk.get? (location ++ [name])).map (location ++ [·])

section

variable {disk middle : Disk} {directory : Path} {location : Location}
  {sources : List GeneratedSource}

theorem not_isOverlong_of_mem_fileNames {name : String} (h : name ∈ fileNames) :
    ¬ Disk.isOverlong name := by
  revert name
  decide

/-- The file of a variant is that of its first source. -/
theorem sourceOf?_eq_some {before rest : List GeneratedSource} {source : GeneratedSource}
    (h : ∀ earlier ∈ before, earlier.variant ≠ source.variant) :
    sourceOf? (before ++ source :: rest) source.variant = some source := by
  have hbefore : before.find? (·.variant == source.variant) = none :=
    List.find?_eq_none.mpr fun earlier hmem => by simpa using h earlier hmem
  rw [sourceOf?, List.find?_append, hbefore, Option.none_or]
  exact List.find?_cons_of_pos (beq_self_eq_true _)

theorem isSome_sourceOf?_iff {variant : Variant} :
    (sourceOf? sources variant).isSome = true ↔ ∃ source ∈ sources, source.variant = variant := by
  simp [sourceOf?]

/-- What an update does once the directory is there and nothing is in the way. -/
theorem exists_settleAll (tree : middle.IsTree) (hopens : middle.Opens directory location)
    (hfree : ∀ name ∈ fileNames, middle.IsFree (directory.child name))
    (sources : List GeneratedSource) :
    ∃ after, settleAll directory (wanted sources) middle = .ok () after ∧
      after.IsTree ∧ Disk.Confined (Touches location (wanted sources)) middle after ∧
      Settled directory (wanted sources) after ∧
      (∀ name ∈ fileNames, after.resolve (directory.child name) = .ok (location ++ [name])) ∧
      after.written = middle.written ++
        ((wanted sources).filter (isDue middle location)).map (location ++ [·.1]) := by
  have names := hasNames_wanted sources
  -- The names are short, so only a long path or a directory could be in the way.
  have hentry : ∀ name ∈ fileNames, Disk.checkChild directory name = .ok () ∧
      middle.get? (location ++ [name]) ≠ some .directory := by
    intro name hname
    have hlong := not_isOverlong_of_mem_fileNames hname
    obtain ⟨hcheck, hdirectory⟩ := (tree.isFree_child_iff hopens (isName_of_mem_fileNames hname)
      hlong).mp (hfree name hname)
    exact ⟨Disk.checkChild_of_checkPath hcheck hlong, hdirectory⟩
  obtain ⟨after, hsettle⟩ := settleAll_eq_ok tree hopens names (fun name hname =>
    (hentry name hname).1) fun name hname => (hentry name hname).2
  have hrespects := settleAll_respects tree hopens names
  rw [hsettle] at hrespects
  obtain ⟨htree, hconfined, hsettled⟩ := hrespects
  refine ⟨after, hsettle, htree, hconfined, hsettled, fun name hname => ?_,
    written_of_settleAll tree hopens names (fun name hname => (hentry name hname).1) hsettle⟩
  rw [htree.resolve_child (hconfined.opens hopens) (isName_of_mem_fileNames hname),
    (hentry name hname).1]
  rfl

end

/-- **An update leaves exactly the current files**: on a disk of files and directories, where the
directory can be created and each output file is absent or a file, an update succeeds and leaves the
output files of its sources. If the directory is reached through `..`, nothing may be in the way of
the output files once it is created, since directories are created on the way there. -/
theorem update_leaves_current {disk middle : Disk} (tree : disk.IsTree) {directory : Path}
    (hcreate : Action.createDirectories directory disk = .ok () middle)
    (hfree : ∀ name ∈ fileNames, disk.IsFree (directory.child name))
    (hmade : ".." ∈ directory.names →
      ∀ name ∈ fileNames, middle.IsFree (directory.child name))
    (sources : List GeneratedSource) :
    ∃ location paths after, update directory sources disk = .ok paths after ∧
      IsCurrent directory location sources disk paths after := by
  have hgrown := Action.createDirectories_respects tree directory
  have hwritten := Action.createDirectories_written tree directory
  rw [hcreate] at hgrown hwritten
  obtain ⟨htree, hgrown, location, hopens⟩ := hgrown
  obtain ⟨-, hwritten, -⟩ := hwritten
  -- Creating the directory puts nothing in the way, except on a path that leads back.
  have hfree' : ∀ name ∈ fileNames, middle.IsFree (directory.child name) := by
    intro name hname
    by_cases hup : ".." ∈ directory.names
    · exact hmade hup name hname
    · exact (hfree name hname).of_createDirectories tree hcreate hup
        (isName_of_mem_fileNames hname) (not_isOverlong_of_mem_fileNames hname)
  obtain ⟨after, hsettle, htree', hconfined, hsettled, hresolve, hnew⟩ :=
    exists_settleAll htree hopens hfree' sources
  have hfile : ∀ name text?, (name, text?) ∈ wanted sources →
      after.get? (location ++ [name]) = fileOf? text? := by
    intro name text? hmem
    rw [← hsettled name text? hmem, Disk.find?, hresolve name (OrderedMap.mem_keys_of_mem hmem)]
  refine ⟨location, presentPaths directory (wanted sources), after, ?succeeds, hresolve,
    ?variants, ?first, ?aggregate, ?others, hsettled.presentPaths_eq, ?written⟩
  case succeeds =>
    rw [update_eq, Action.bind_of_ok hcreate, Action.bind_of_ok hsettle]
    rfl
  case variants =>
    intro variant
    rw [← isSome_sourceOf?_iff, Disk.pathExists, hsettled.find?_variant, fileOf?, Option.isSome_map,
      Option.isSome_map]
  case first =>
    rintro before source rest rfl hfirst
    apply Disk.readText_eq_ok_iff.mpr
    rw [hsettled.find?_variant, sourceOf?_eq_some hfirst]
    rfl
  case aggregate =>
    apply Disk.readText_eq_ok_iff.mpr
    rw [hsettled aggregateName (some (aggregate sources)) (by simp [wanted])]
    rfl
  case others =>
    intro other hother
    rw [hconfined.frame]
    · exact hgrown.frame other
    · rintro ⟨name, hname, rfl⟩
      exact hother name hname rfl
  case written =>
    rw [hnew, hwritten, isDue_of_grown hgrown, hsettled.filter_isDue hfile, keys_wanted]

/-- A public file that is as wanted, an internal one that goes, and bytes that are no text. -/
def outdated : Disk where
  entries := [(["out"], .directory), (["out", "settings_generated.rs"], .file (.text "first")),
    (["out", "internal_settings_generated.rs"], .file (.text "stale")),
    (["out", "settingsgen.rs"], .file (.binary [255]))]
  workingDirectory := []
  written := []

theorem update_leaves_current_outdated :
    let sources : List GeneratedSource := [⟨.publicSettings, "first"⟩, ⟨.publicSettings, "second"⟩]
    outdated.IsTree ∧ Action.createDirectories ⟨"out"⟩ outdated = .ok () outdated ∧
      (∀ name ∈ fileNames, outdated.IsFree (Path.child ⟨"out"⟩ name)) ∧
      ∃ location paths after, update ⟨"out"⟩ sources outdated = .ok paths after ∧
        IsCurrent ⟨"out"⟩ location sources outdated paths after := by
  intro sources
  have tree : outdated.IsTree := by decide
  have hopens : outdated.Opens ⟨"out"⟩ ["out"] := by decide
  have hcreate := Action.createDirectories_of_opens tree hopens
  have hfree : ∀ name ∈ fileNames, outdated.IsFree (Path.child ⟨"out"⟩ name) := by
    have hentry : ∀ name ∈ fileNames, Disk.checkPath (Path.child ⟨"out"⟩ name) = .ok () ∧
        outdated.get? ["out", name] ≠ some .directory := by decide
    intro name hname
    exact (tree.isFree_child_iff hopens (isName_of_mem_fileNames hname)
      (not_isOverlong_of_mem_fileNames hname)).mpr (hentry name hname)
  exact ⟨tree, hcreate, hfree, update_leaves_current tree hcreate hfree
    (fun hup => absurd hup (by decide)) sources⟩

/-! ## §4 A directory in the way -/

/-- An empty output directory. -/
def vacated : Disk := ⟨[(["out"], .directory)], [], []⟩

/-- The same directory, with another one in place of the file with all sources. -/
def blocked : Disk := vacated.withDirectory ["out", "settingsgen.rs"]

/-- A path to the output directory that leads through a directory in it. -/
def detour : Path := ⟨"out/settingsgen.rs/.."⟩

theorem isTree_vacated : vacated.IsTree := by decide

theorem isTree_blocked : blocked.IsTree := by decide

theorem opens_blocked : blocked.Opens detour ["out"] := by decide

/-- The directory on the way is created and stays. -/
theorem createDirectories_detour :
    Action.createDirectories detour vacated = .ok () blocked := by
  have hfollow : vacated.follow? (vacated.origin detour) ["out"] = some ["out"] := by decide
  have hparent : vacated.resolveDirectory detour ["out", "settingsgen.rs"] = .error .notFound :=
    Disk.resolveDirectory_of_missing hfollow (by decide) (by decide) (by decide)
  have hnames : detour.names = ["out", "settingsgen.rs", ".."] := by decide
  have hmissing : Action.createDirectory detour vacated = .error .notFound vacated := by
    rw [Action.createDirectory, Action.changeAt, Disk.vacancy,
      Disk.checkPath_eq_ok_iff.mpr (by decide), hnames]
    simp only [List.getLast?_cons_cons, List.getLast?_singleton, List.dropLast_cons_cons,
      List.dropLast_singleton, hparent, bind, Except.bind]
  have hvacancy : vacated.vacancy ⟨"out/settingsgen.rs"⟩ = .ok ["out", "settingsgen.rs"] :=
    isTree_vacated.vacancy_eq_ok (by decide)
      (show Path.names ⟨"out/settingsgen.rs"⟩ = ["out"] ++ ["settingsgen.rs"] by decide)
      hfollow (by decide) (by decide) (by decide)
  have hcreated : Action.createDirectory ⟨"out/settingsgen.rs"⟩ vacated = .ok () blocked := by
    rw [Action.createDirectory, Action.changeAt, hvacancy]
    rfl
  have hancestors : Action.createAncestors detour.isAbsolute detour.significantNames.reverse.tail
      vacated = .ok () blocked := by
    have hnames : detour.significantNames.reverse.tail = ["settingsgen.rs", "out"] := by decide
    have hpath : Action.pathOf detour.isAbsolute ["settingsgen.rs", "out"].reverse =
        ⟨"out/settingsgen.rs"⟩ := by decide
    rw [hnames, Action.createAncestors, hpath, Action.createUnder, hcreated]
  have hthere : Action.createDirectory detour blocked = .error .alreadyExists blocked := by
    rw [Action.createDirectory, Action.changeAt,
      isTree_blocked.vacancy_of_opens opens_blocked (by decide)]
  -- The path itself can be created only after its ancestors, and by then it is there.
  rw [Action.createDirectories, if_neg (by decide), Action.createUnder, hmissing]
  dsimp only
  rw [hancestors]
  dsimp only
  rw [hthere]
  exact if_pos (isTree_blocked.isDirectory_of_opens opens_blocked (by decide))

theorem checkPath_detour {name : String} (h : name ∈ fileNames) :
    Disk.checkPath (detour.child name) = .ok () := by
  revert name
  decide

/-- Nothing is found at the output paths at first, since the way to them is not there. -/
theorem isFree_detour {name : String} (h : name ∈ fileNames) :
    vacated.IsFree (detour.child name) := by
  have hnames : detour.names ++ [name] = ["out"] ++ "settingsgen.rs" :: ["..", name] := by
    rw [show detour.names = ["out", "settingsgen.rs", ".."] by decide]
    rfl
  have hresolve : vacated.resolve (detour.child name) = .error .notFound := by
    rw [Disk.resolve_of_checkPath (checkPath_detour h),
      Path.steps_child (isName_of_mem_fileNames h), Disk.origin_child (isName_of_mem_fileNames h),
      hnames]
    exact Disk.walk_of_missing (show _ = some ["out"] by decide) (by decide) (by decide) (by decide)
  left
  rw [Disk.status, hresolve]
  rfl

/-- The output directory can be created, and nothing is found at the output paths, but the update
fails. -/
theorem update_detour_fails :
    vacated.IsTree ∧ (∃ middle, Action.createDirectories detour vacated = .ok () middle) ∧
      (∀ name ∈ fileNames, vacated.IsFree (detour.child name)) ∧
      ∃ after, update detour [] vacated = .error .isDirectory after := by
  refine ⟨isTree_vacated, ⟨blocked, createDirectories_detour⟩, fun name => isFree_detour, blocked,
    ?_⟩
  have hsettle {name : String} (h : name ∈ fileNames) (text? : Option String) :
      settle (detour.child name) text? blocked =
        if blocked.get? ["out", name] = some .directory then .error .isDirectory blocked
        else .ok () (blocked.settle ["out", name] text?) := by
    have hcheck : Disk.checkChild detour name = .ok () :=
      Disk.checkChild_of_checkPath (checkPath_detour h) (not_isOverlong_of_mem_fileNames h)
    rw [settle_child isTree_blocked opens_blocked (isName_of_mem_fileNames h), hcheck]
    rfl
  -- There is no source, so the files of variants are gone already; the last file is in the way.
  have hpublic : settle (detour.child "settings_generated.rs") none blocked = .ok () blocked :=
    hsettle (by decide) none
  have hinternal : settle (detour.child "internal_settings_generated.rs") none blocked =
      .ok () blocked := hsettle (by decide) none
  have haggregate : settle (detour.child "settingsgen.rs") (some "") blocked =
      .error .isDirectory blocked := hsettle (by decide) (some "")
  have hwanted : wanted [] = [("settings_generated.rs", none),
      ("internal_settings_generated.rs", none), ("settingsgen.rs", some "")] := rfl
  have hall : settleAll detour (wanted []) blocked = .error .isDirectory blocked := by
    rw [hwanted, settleAll, Action.bind_of_ok hpublic, settleAll, Action.bind_of_ok hinternal,
      settleAll, Action.bind_of_error haggregate]
  rw [update_eq, Action.bind_of_ok createDirectories_detour, Action.bind_of_error hall]

end TypedSettings.Output

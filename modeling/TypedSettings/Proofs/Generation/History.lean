import Mathlib
import TypedSettings.Generation.Build
import TypedSettings.Proofs.Generation.Inputs
import TypedSettings.Proofs.Generation.Output

/-!
# Histories of builds

Builds with the same options run again and again, and between them anything may happen to the disk.
Whatever happened before, a build that succeeds leaves the output files that a first build into an
empty directory would have left.

Main facts:
- `Build.replay`: a history of builds and changes
- `Build.replay_isTree`: a tree stays one
- `Build.never_stale`: output files depend on the settings files alone
-/

namespace TypedSettings

/-- A directory that is there and empty, with paths for output files that file systems take. -/
structure Output.IsFresh (disk : Disk) (directory : Path) : Prop where
  empty : disk.list directory = .ok []
  fits : ∀ name ∈ fileNames, (directory.child name).text.utf8ByteSize ≤ Disk.pathLimit

namespace Output.IsFresh

variable {disk : Disk} {directory : Path}

theorem checkChild (fresh : IsFresh disk directory) (tree : disk.IsTree) {name : String}
    (hname : name ∈ fileNames) : Disk.checkChild directory name = .ok () := by
  obtain ⟨hpath, location, hopens, -⟩ := tree.list_eq_ok_iff.mp fresh.empty
  have hdirectory := Disk.checkPath_eq_ok_iff.mp (hopens.valid.resolve_left hpath)
  have hplain : '\x00' ∉ name.toList ∧ ¬ Disk.isOverlong name := by
    revert name
    decide
  exact Disk.checkChild_eq_ok (isName_of_mem_fileNames hname) hplain.1 hplain.2 hdirectory.1
    (fresh.fits name hname)

theorem exists_update (fresh : IsFresh disk directory) (tree : disk.IsTree)
    (sources : List GeneratedSource) :
    ∃ paths next, update directory sources disk = .ok paths next := by
  obtain ⟨-, location, hopens, hempty⟩ := tree.list_eq_ok_iff.mp fresh.empty
  obtain ⟨next, hnext⟩ := update_eq_ok tree sources hopens (fun _ => fresh.checkChild tree) <| by
    intro name _ hentry
    have hmem := tree.mem_childrenOf.mpr hentry
    rw [← hempty] at hmem
    cases hmem
  exact ⟨_, next, hnext⟩

end Output.IsFresh

/-- A settings file never has the name of an output file. -/
theorem Variant.fileName_notMem_fileNames (variant : Variant) (program : String) :
    variant.fileName program ∉ Output.fileNames := by
  have hlast : (variant.fileName program).toList.getLast? = some 'n' := by
    have hpublic : "settings.json".toList.getLast? = some 'n' := by decide
    have hinternal : ".settings.json".toList.getLast? = some 'n' := by decide
    cases variant with
    | publicSettings => exact hpublic
    | internalSettings =>
      rw [fileName, String.toList_append, List.getLast?_append_of_ne_nil _ (by decide), hinternal]
  have houtput : ∀ name ∈ Output.fileNames, name.toList.getLast? = some 's' := by decide
  intro hmem
  cases hlast.symm.trans (houtput _ hmem)

namespace Build

/-! ## §1 One build -/

section

variable {build : Build} {disk after : Disk} {sources : List GeneratedSource}

theorem run_eq_ok_iff : build.run disk = .ok sources after ↔
    ∃ candidates paths, Generation.candidates disk build.sourceDirectory = .ok candidates ∧
      Generation.sources (Generation.run disk build.program candidates) = sources ∧
      Output.update build.outputDirectory sources disk = .ok paths after := by
  rw [run]
  constructor
  · intro h
    split at h
    next => cases h
    next candidates hcandidates =>
      dsimp only at h
      split at h
      next => cases h
      next paths next hupdate =>
        cases h
        exact ⟨candidates, paths, hcandidates, rfl, hupdate⟩
  · rintro ⟨candidates, paths, hcandidates, rfl, hupdate⟩
    rw [hcandidates]
    dsimp only
    rw [hupdate]

/-- A build leaves a tree, whether it fails or not. -/
theorem run_isTree (build : Build) (tree : disk.IsTree) : (build.run.after disk).IsTree := by
  rw [Action.after, run]
  cases Generation.candidates disk build.sourceDirectory with
  | error fault => exact tree
  | ok candidates =>
    have hupdate := (Output.update_respects tree build.outputDirectory
      (Generation.sources (Generation.run disk build.program candidates))).isTree
    rw [Action.after] at hupdate
    dsimp only
    cases h : Output.update build.outputDirectory
      (Generation.sources (Generation.run disk build.program candidates)) disk with
    | error fault next =>
      rw [h] at hupdate
      exact hupdate
    | ok paths next =>
      rw [h] at hupdate
      exact hupdate

end

/-! ## §2 Histories -/

/-- What happens between builds, and builds. -/
inductive Event where
  | change (next : Disk) (tree : next.IsTree)
  | run

/-- The disk after an event. -/
def Event.apply (build : Build) (disk : Disk) : Event → Disk
  | .change next _ => next
  | .run => build.run.after disk

/-- The disk after a history. -/
def replay (build : Build) (history : List Event) (start : Disk) : Disk :=
  history.foldl (Event.apply build) start

theorem Event.apply_isTree {build : Build} {disk : Disk} (tree : disk.IsTree) (event : Event) :
    (event.apply build disk).IsTree := by
  cases event with
  | change next tree => exact tree
  | run => exact build.run_isTree tree

theorem replay_isTree {build : Build} {start : Disk} (history : List Event) (tree : start.IsTree) :
    (build.replay history start).IsTree := by
  induction history generalizing start with
  | nil => exact tree
  | cons event rest ih => exact ih (event.apply_isTree tree)

/-! ## §3 Output files -/

/-- The other disk has the source directory, with the same settings files. -/
structure SameSettings (build : Build) (disk other : Disk) : Prop where
  listed : ∃ children, other.list build.sourceDirectory = .ok children
  same : ∀ variant : Variant,
    disk.fileIn? build.sourceDirectory (variant.fileName build.program) =
      other.fileIn? build.sourceDirectory (variant.fileName build.program)

section

variable {build : Build} {disk other : Disk}

/-- The same settings files have the same sources, wherever they are written. -/
theorem exists_candidates_of_same {candidates : List Path} (tree : disk.IsTree)
    (tree' : other.IsTree)
    (h : Generation.candidates disk build.sourceDirectory = .ok candidates)
    (hsame : build.SameSettings disk other) :
    ∃ candidates', Generation.candidates other build.sourceDirectory = .ok candidates' ∧
      Generation.sources (Generation.run other build.program candidates') =
        Generation.sources (Generation.run disk build.program candidates) := by
  obtain ⟨children, hlist⟩ := hsame.listed
  obtain ⟨hpath, location, hopens, -⟩ := tree'.list_eq_ok_iff.mp hlist
  have h' := (Generation.candidates_eq_ok_iff tree').mpr ⟨hpath, location, hopens, rfl⟩
  exact ⟨_, h', by rw [Generation.run_candidates_congr tree tree' h h' hsame.same]⟩

/-- An update leaves the settings files as they are, also where it writes beside them. -/
theorem sameSettings_of_updated {candidates : List Path} (tree : disk.IsTree)
    (tree' : other.IsTree) (h : Generation.candidates disk build.sourceDirectory = .ok candidates)
    (hupdated : Output.Updated build.outputDirectory disk other) :
    build.SameSettings disk other := by
  obtain ⟨hpath, location, hopens, -⟩ := (Generation.candidates_eq_ok_iff tree).mp h
  have hopens' := hupdated.toExtends.opens hopens
  refine ⟨⟨_, tree'.list_eq_ok_iff.mpr ⟨hpath, location, hopens', rfl⟩⟩, fun variant => ?_⟩
  ext content
  rw [tree.fileIn?_eq_some_iff hopens hpath, tree'.fileIn?_eq_some_iff hopens' hpath,
    hupdated.frame]
  intro parent name _ hname heq
  obtain ⟨-, rfl⟩ : location = parent ∧ variant.fileName build.program = name := by simpa using heq
  exact variant.fileName_notMem_fileNames build.program hname

/-- **No stale output**: after any history of builds and changes, a build that succeeds returns the
sources, and leaves the output files, of a first build from the same settings files into an empty
directory. Running it again changes nothing, and no output file is ever read as a settings file. -/
theorem never_stale (build : Build) (history : List Event) (start after : Disk)
    (sources : List GeneratedSource) (tree : start.IsTree)
    (hrun : build.run (build.replay history start) = .ok sources after) :
    (∀ (other : Disk) (directory : Path), other.IsTree →
      build.SameSettings (build.replay history start) other → Output.IsFresh other directory →
      ∃ otherAfter, { build with outputDirectory := directory }.run other = .ok sources otherAfter ∧
        ∀ name ∈ Output.fileNames,
          after.find? (build.outputDirectory.child name) =
            otherAfter.find? (directory.child name)) ∧
    build.run after = .ok sources after ∧
    (∀ candidates variant path,
      Generation.candidates (build.replay history start) build.sourceDirectory = .ok candidates →
      Generation.input? build.program candidates variant = some path →
      ∀ name ∈ Output.fileNames, path.fileName? ≠ some name) := by
  have htree : (build.replay history start).IsTree := replay_isTree history tree
  obtain ⟨candidates, paths, hcandidates, rfl, hupdate⟩ := run_eq_ok_iff.mp hrun
  have hrespects := Output.update_respects htree build.outputDirectory
    (Generation.sources (Generation.run (build.replay history start) build.program candidates))
  rw [hupdate] at hrespects
  obtain ⟨htree', hupdated, ⟨location, hopens⟩, hsettled⟩ := hrespects
  refine ⟨fun other directory hother hsame fresh => ?fresh, ?again, ?unread⟩
  case fresh =>
    obtain ⟨candidates', hcandidates', hsources⟩ :=
      exists_candidates_of_same htree hother hcandidates hsame
    obtain ⟨paths', otherAfter, hupdate'⟩ := fresh.exists_update hother
      (Generation.sources (Generation.run (build.replay history start) build.program candidates))
    refine ⟨otherAfter, run_eq_ok_iff.mpr ⟨candidates', paths', hcandidates', hsources, hupdate'⟩,
      fun name hname => ?_⟩
    have hrespects' := Output.update_respects hother directory
      (Generation.sources (Generation.run (build.replay history start) build.program candidates))
    rw [hupdate'] at hrespects'
    obtain ⟨-, -, -, hsettled'⟩ := hrespects'
    -- Both builds leave each output file as the same sources want it.
    rw [← Output.keys_wanted] at hname
    obtain ⟨⟨name, text?⟩, hmem, rfl⟩ := List.mem_map.mp hname
    exact (hsettled name text? hmem).trans (hsettled' name text? hmem).symm
  case again =>
    obtain ⟨candidates', hcandidates', hsources⟩ := exists_candidates_of_same htree htree'
      hcandidates (sameSettings_of_updated htree htree' hcandidates hupdated)
    exact run_eq_ok_iff.mpr ⟨candidates', _, hcandidates', hsources,
      Output.update_eq_self htree' hopens hsettled⟩
  case unread =>
    intro candidates variant path _ hinput name hname heq
    obtain ⟨-, -, -, hfile, -⟩ := Generation.input?_eq_some_iff.mp hinput
    cases hfile.symm.trans heq
    exact variant.fileName_notMem_fileNames build.program hname

end

/-! ## §4 A build beside its settings files -/

/-- A build that writes beside its settings files. -/
def inPlace : Build := ⟨⟨"/src"⟩, "demo", ⟨"/src"⟩⟩

/-- A settings file, and the output file of another one that is gone. -/
def leftover : Disk where
  entries := [(["src"], .directory), (["src", "settings.json"], .file (.text "{}")),
    (["src", "internal_settings_generated.rs"], .file (.text "struct InternalSettings;"))]
  workingDirectory := []
  written := []

/-- The same settings file, and an empty directory. -/
def emptied : Disk where
  entries := [(["src"], .directory), (["src", "settings.json"], .file (.text "{}")),
    (["out"], .directory)]
  workingDirectory := []
  written := []

theorem opens_leftover : leftover.Opens ⟨"/src"⟩ ["src"] := by decide

/-- The only candidate read is the public settings file. -/
theorem exists_run_leftover :
    ∃ text after, inPlace.run leftover = .ok [⟨.publicSettings, text⟩] after := by
  have tree : leftover.IsTree := by decide
  have hcandidates := (Generation.candidates_eq_ok_iff tree).mpr
    ⟨by decide, ["src"], opens_leftover, rfl⟩
  have hpublic : leftover.fileIn? ⟨"/src"⟩ "settings.json" = some (.text "{}") :=
    (tree.fileIn?_eq_some_iff opens_leftover (by decide)).mpr (by decide)
  have hinternal : leftover.fileIn? ⟨"/src"⟩ "demo.settings.json" = none := by
    rw [tree.fileIn?_eq opens_leftover (by decide)]
    decide
  have hcheck : ∀ name ∈ "settings.json" :: Output.fileNames,
      Disk.checkChild ⟨"/src"⟩ name = .ok () := by decide
  have hschema : Schema.ofText "{}" = .ok [] := by cbv
  obtain ⟨after, hupdate⟩ := Output.update_eq_ok tree
    [⟨.publicSettings, Schema.source [] .publicSettings "demo"⟩] opens_leftover
    (fun name hname => hcheck name (List.mem_cons_of_mem _ hname)) (by decide)
  refine ⟨Schema.source [] .publicSettings "demo", _, run_eq_ok_iff.mpr
    ⟨_, _, hcandidates, ?_, hupdate⟩⟩
  simp [Generation.run, Generation.sources, Variant.all, inPlace,
    Generation.runVariant_candidates tree hcandidates, Variant.fileName, hpublic, hinternal,
    Generation.outcomeOf, Generation.textIn, hcheck, Generation.ofText, hschema, bind,
    Except.bind, pure, Except.pure, Except.toOption]

theorem never_stale_leftover :
    ∃ text after otherAfter,
      inPlace.run (inPlace.replay [.run, .change leftover (by decide)] leftover) =
        .ok [⟨.publicSettings, text⟩] after ∧
      { inPlace with outputDirectory := ⟨"/out"⟩ }.run emptied =
        .ok [⟨.publicSettings, text⟩] otherAfter ∧
      (∀ name ∈ Output.fileNames,
        after.find? (Path.child ⟨"/src"⟩ name) = otherAfter.find? (Path.child ⟨"/out"⟩ name)) ∧
      inPlace.run after = .ok [⟨.publicSettings, text⟩] after := by
  obtain ⟨text, after, hrun⟩ := exists_run_leftover
  obtain ⟨hfresh, hagain, -⟩ := never_stale inPlace [.run, .change leftover (by decide)] leftover
    after [⟨.publicSettings, text⟩] (by decide) hrun
  have tree : emptied.IsTree := by decide
  have hsource : emptied.Opens ⟨"/src"⟩ ["src"] := by decide
  have hout : emptied.Opens ⟨"/out"⟩ ["out"] := by decide
  have hsame : inPlace.SameSettings leftover emptied := by
    refine ⟨⟨_, tree.list_eq_ok_iff.mpr ⟨by decide, ["src"], hsource, rfl⟩⟩, fun variant => ?_⟩
    change leftover.fileIn? ⟨"/src"⟩ _ = emptied.fileIn? ⟨"/src"⟩ _
    rw [Disk.IsTree.fileIn?_eq (by decide) opens_leftover (by decide),
      tree.fileIn?_eq hsource (by decide)]
    cases variant <;> decide
  have hempty : emptied.childrenOf ["out"] = [] := by
    simp [Disk.childrenOf, emptied, Disk.childName?]
  have fresh : Output.IsFresh emptied ⟨"/out"⟩ :=
    ⟨tree.list_eq_ok_iff.mpr ⟨by decide, ["out"], hout, hempty.symm⟩, by decide⟩
  obtain ⟨otherAfter, hother, hfiles⟩ := hfresh emptied ⟨"/out"⟩ tree hsame fresh
  exact ⟨text, after, otherAfter, hrun, hother, hfiles, hagain⟩

end Build

end TypedSettings

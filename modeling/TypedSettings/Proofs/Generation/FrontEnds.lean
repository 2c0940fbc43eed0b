import Mathlib
import TypedSettings.CommandLine.Run
import TypedSettings.Generation.Build
import TypedSettings.Proofs.FileTree.Visits
import TypedSettings.Proofs.Generation.History

/-!
# Front ends

Code is generated by a command that writes files, by the same command when it prints, and by build
scripts. What is printed is what the file with all sources holds after either of the others, and
those leave the same disk. On a disk with links an output file may lead to another one, or by way of
a link that goes; where the output files are apart, the file with all sources holds those of the
variants one after the other.

Main facts:
- `Output.settle_settles`: what settling one file does on a disk with links
- `Output.IsApart.of_settle`: paths stay apart from the files that are settled later
- `Output.settled_of_settleAll`: files that are apart are settled one after the other
- `Command.front_ends_agree`: the front ends produce the same code
-/

namespace TypedSettings

namespace Output

/-! ## §1 One file -/

/-- The path is seen to lead to the entry, or to nothing; whatever else changes is not passed by any
path, and only the location that the path leads to is changed. -/
structure Settles (path : Path) (left : Option Entry) (disk next : Disk) : Prop where
  passage : disk.SamePassage next
  frame : ∀ location, disk.resolve path ≠ .ok location → next.get? location = disk.get? location
  found : next.find? path = left

section

variable {disk next : Disk} {path : Path}

theorem settles_of_find? {left : Option Entry} (h : disk.find? path = left) :
    Settles path left disk disk :=
  ⟨.refl disk, fun _ _ => rfl, h⟩

theorem write_settles (sound : disk.IsSound) {text : String}
    (h : Action.write path (.text text) disk = .ok () next) :
    Settles path (fileOf? (some text)) disk next := by
  obtain ⟨location, htarget, rfl⟩ := Action.exists_of_changeAt_ok h
  obtain ⟨hresolve, hwritable⟩ := sound.of_target htarget
  have hget : ∀ other, (disk.withFile location (.text text)).get? other =
      if location = other then some (.file (.text text)) else disk.get? other :=
    fun _ => disk.get?_withFile (.text text) hwritable.ne_nil
  refine ⟨hwritable.samePassage _, fun other hother => ?_, ?_⟩
  · rw [hget, if_neg]
    rintro rfl
    exact hother hresolve
  · rw [Disk.find?, (hwritable.samePassage _).resolve_eq_ok_iff.mpr hresolve]
    exact (hget location).trans (if_pos rfl)

theorem refresh_settles (sound : disk.IsSound) {text : String}
    (h : refresh path text disk = .ok () next) :
    Settles path (fileOf? (some text)) disk next := by
  rw [refresh] at h
  cases hread : disk.readText path with
  | error fault =>
    rw [hread] at h
    exact write_settles sound h
  | ok existing =>
    rw [hread] at h
    dsimp only at h
    split at h
    next hsame =>
      cases h
      subst hsame
      exact settles_of_find? (Disk.readText_eq_ok_iff.mp hread)
    next => exact write_settles sound h

/-- A link that leads to something goes itself, and what it leads to is left. -/
theorem removeIfPresent_settles (h : removeIfPresent path disk = .ok () next) :
    Settles path none disk next ∨
      ∃ location, disk.RemovesLink path location ∧ next = disk.without location := by
  rw [removeIfPresent] at h
  split at h
  next hpresent =>
    obtain ⟨location, hown, rfl⟩ := Action.exists_of_changeAt_ok h
    obtain ⟨-, parent, name, -, rfl, -, -, -, -, found, hfound, hdirectory⟩ :=
      Disk.exists_of_ownLocation hown
    have hget : ∀ other, (disk.without (parent ++ [name])).get? other =
        if parent ++ [name] = other then none else disk.get? other :=
      fun _ => disk.get?_without (by simp)
    cases found with
    | directory => exact absurd rfl hdirectory
    | link target => exact .inr ⟨_, ⟨hpresent, hown, target, hfound⟩, rfl⟩
    | file content =>
      have hresolve := Disk.resolve_of_ownLocation hown hfound
      have hpassage := Disk.samePassage_without (by simp) hfound
      refine .inl ⟨hpassage, fun other hother => ?_, ?_⟩
      · rw [hget, if_neg]
        rintro rfl
        exact hother hresolve
      · rw [Disk.find?, hpassage.resolve_eq_ok_iff.mpr hresolve]
        exact (hget _).trans (if_pos rfl)
  next habsent =>
    cases h
    exact .inl (settles_of_find? (by simpa [Disk.pathExists] using habsent))

/-- What settling a file does, links or not. -/
theorem settle_settles (sound : disk.IsSound) {text? : Option String}
    (h : settle path text? disk = .ok () next) :
    Settles path (fileOf? text?) disk next ∨ (text? = none ∧
      ∃ location, disk.RemovesLink path location ∧ next = disk.without location) := by
  cases text? with
  | some text => exact .inl (refresh_settles sound h)
  | none => exact (removeIfPresent_settles h).imp_right fun hlink => ⟨rfl, hlink⟩

/-- A file that is not there is created where its path leads. -/
theorem settle_of_vacant {location : Location} (hcheck : Disk.checkPath path = .ok ())
    (h : Disk.Walks disk true Disk.linkLimit (disk.origin path) path.steps location)
    (hvacant : disk.get? location = none) (text : String) :
    settle path (some text) disk = .ok () (disk.withFile location (.text text)) := by
  have hresolve : disk.resolve path = .ok location :=
    Disk.resolve_eq_ok_iff.mpr ⟨hcheck, h.reading⟩
  have hread : disk.readText path = .error .notFound := by
    rw [Disk.readText, hresolve]
    simp [hvacant, bind, Except.bind, throw, throwThe, MonadExceptOf.throw]
  have htarget : disk.target path = .ok location :=
    Disk.target_eq_ok hcheck h (by simp [hvacant])
  rw [settle, refresh, hread]
  dsimp only
  rw [Action.write, Action.changeAt, htarget]

theorem refresh_keepsSound (path : Path) (text : String) :
    Action.KeepsSound (refresh path text) := by
  intro disk sound
  have hwrite := Action.write_keepsSound path (.text text) sound
  rw [Action.after] at hwrite ⊢
  rw [refresh]
  cases disk.readText path with
  | error fault => exact hwrite
  | ok existing =>
    by_cases hsame : existing = text
    · simpa [hsame] using sound
    · simpa [hsame] using hwrite

theorem settle_keepsSound (path : Path) (text? : Option String) :
    Action.KeepsSound (settle path text?) := by
  cases text? with
  | some text => exact refresh_keepsSound path text
  | none =>
    intro disk sound
    have hremove := Action.removeFile_keepsSound path sound
    rw [settle, Action.after, removeIfPresent]
    by_cases hthere : disk.pathExists path
    · rw [if_pos hthere]
      exact hremove
    · rw [if_neg hthere]
      exact sound

end

/-! ## §2 Files that are apart -/

/-- What is done to the file is not seen at the path: they lead to different locations, and if the
file is to go and a link goes in its place, that is not on the way of the path. -/
structure IsApart (disk : Disk) (path file : Path) (text? : Option String) : Prop where
  location : ∀ location, disk.resolve path = .ok location → disk.resolve file ≠ .ok location
  bypassed : text? = none → ∀ location, disk.RemovesLink file location → location ∉ disk.visits path

section

variable {disk next : Disk} {path file other : Path} {text? text?' : Option String}

/-- Settling a file adds no directories and no links. -/
theorem covers_of_settle (sound : disk.IsSound) (h : settle file text? disk = .ok () next) :
    disk.Covers next := by
  rcases settle_settles sound h with hsettles | ⟨-, location, hlink, rfl⟩
  · exact hsettles.passage.covers
  · exact disk.covers_without hlink.ne_nil

/-- A settled file is seen as it was settled. -/
theorem find?_of_settle (sound : disk.IsSound) (h : settle file text? disk = .ok () next) :
    next.find? file = fileOf? text? := by
  rcases settle_settles sound h with hsettles | ⟨rfl, location, hlink, rfl⟩
  · exact hsettles.found
  · rw [Disk.find?]
    cases hresolve : (disk.without location).resolve file with
    | error fault => rfl
    | ok found =>
      rw [hlink.resolve_self hresolve]
      exact (disk.get?_without hlink.ne_nil).trans (if_pos rfl)

namespace IsApart

/-- A path that is apart from a file leads where it did. -/
theorem resolve_eq_ok_iff (apart : IsApart disk path file text?) (sound : disk.IsSound)
    (h : settle file text? disk = .ok () next) {location : Location} :
    next.resolve path = .ok location ↔ disk.resolve path = .ok location := by
  rcases settle_settles sound h with hsettles | ⟨hnone, gone, hlink, rfl⟩
  · exact hsettles.passage.resolve_eq_ok_iff
  · rw [hlink.resolve_eq (apart.bypassed hnone gone hlink)]

/-- And it is seen as before. -/
theorem find?_eq (apart : IsApart disk path file text?) (sound : disk.IsSound)
    (h : settle file text? disk = .ok () next) : next.find? path = disk.find? path := by
  rcases settle_settles sound h with hsettles | ⟨hnone, gone, hlink, rfl⟩
  · exact hsettles.passage.find?_eq fun location hresolve =>
      hsettles.frame location (apart.location location hresolve)
  · exact hlink.find?_eq sound (apart.bypassed hnone gone hlink)

/-- **Paths stay apart from a file** while some other file is settled, be it the one of the path. -/
theorem of_settle (apart : IsApart disk path other text?') (sound : disk.IsSound)
    (h : settle file text? disk = .ok () next) (hother : IsApart disk other file text?)
    (hpath : path = file ∨ IsApart disk path file text?) : IsApart next path other text?' := by
  have hcovers := covers_of_settle sound h
  refine ⟨fun location hresolve hsame => ?location, fun hnone location hlink hmem => ?bypassed⟩
  case location =>
    rw [hother.resolve_eq_ok_iff sound h] at hsame
    rcases hpath with rfl | hpath
    · rcases settle_settles sound h with hsettles | ⟨-, gone, hlink, rfl⟩
      · exact apart.location location (hsettles.passage.resolve_eq_ok_iff.mp hresolve) hsame
      · -- The path ends where its link was, and no path leads to a link.
        obtain ⟨target, htarget⟩ := hlink.isLink
        rw [hlink.resolve_self hresolve] at hsame
        exact sound.get?_resolve_ne_link hsame target htarget
    · exact apart.location location ((hpath.resolve_eq_ok_iff sound h).mp hresolve) hsame
  case bypassed =>
    have hpresent : disk.pathExists other := by
      rw [Disk.pathExists, ← hother.find?_eq sound h]
      exact hlink.present
    exact apart.bypassed hnone location (hcovers.removesLink hlink hpresent)
      ((hcovers.visits_prefix path).subset hmem)

end IsApart

end

/-- No two of the files are one, and no link that goes is on the way of another file. -/
def Apart (directory : Path) (files : OrderedMap String (Option String)) (disk : Disk) : Prop :=
  ∀ name text?, (name, text?) ∈ files → ∀ other ∈ OrderedMap.keys files, name ≠ other →
    IsApart disk (directory.child other) (directory.child name) text?

/-- On a disk without links all files of a directory are apart. -/
theorem apart_of_isTree {disk : Disk} (tree : disk.IsTree) {directory : Path} {location : Location}
    (h : disk.Opens directory location) {files : OrderedMap String (Option String)}
    (names : HasNames files) : Apart directory files disk := by
  have hlocation {name : String} (hname : name ∈ OrderedMap.keys files) {found : Location}
      (hresolve : disk.resolve (directory.child name) = .ok found) :
      location ++ [name] = found := by
    rw [tree.resolve_child h (names.isName name hname)] at hresolve
    obtain ⟨_, -, hresolve⟩ := exists_of_bind_eq_ok hresolve
    exact Except.ok.inj hresolve
  intro name text? hmem other hother hne
  refine ⟨fun found hresolve hsame => ?_, fun _ found hlink => ?_⟩
  · have hnames : [other] = [name] := List.append_cancel_left
      ((hlocation hother hresolve).trans (hlocation (OrderedMap.mem_keys_of_mem hmem) hsame).symm)
    exact hne (List.cons.inj hnames).1.symm
  · obtain ⟨target, htarget⟩ := hlink.isLink
    exact absurd htarget (tree.noLink found target)

/-- Files that are apart are settled one after the other, and a path that is apart from them all is
seen as before. -/
theorem settled_of_settleAll {directory : Path} {files : OrderedMap String (Option String)}
    {disk after : Disk} (sound : disk.IsSound) (names : HasNames files)
    (apart : Apart directory files disk) (h : settleAll directory files disk = .ok () after) :
    Settled directory files after ∧
      ∀ path, (∀ name text?, (name, text?) ∈ files →
          IsApart disk path (directory.child name) text?) →
        after.find? path = disk.find? path := by
  induction files generalizing disk with
  | nil =>
    cases h
    exact ⟨nofun, fun _ _ => rfl⟩
  | cons file rest ih =>
    obtain ⟨name, text?⟩ := file
    obtain ⟨hnew, hrest⟩ := names.tail
    rw [settleAll] at h
    obtain ⟨_, next, hfirst, h⟩ := Action.exists_of_bind_ok h
    have hsound : next.IsSound := by
      have := settle_keepsSound (directory.child name) text? sound
      rwa [Action.after_eq_of_ok hfirst] at this
    -- The first file is none of the others, so they are apart from it.
    have hothers {other : String} (hother : other ∈ OrderedMap.keys rest) :
        IsApart disk (directory.child other) (directory.child name) text? :=
      apart name text? List.mem_cons_self other (List.mem_cons_of_mem _ hother)
        fun heq => hnew (heq ▸ hother)
    have hkeep {path : Path} {other : String} {text?' : Option String}
        (hmem : (other, text?') ∈ rest)
        (hpath : path = directory.child name ∨ IsApart disk path (directory.child name) text?)
        (hapart : IsApart disk path (directory.child other) text?') :
        IsApart next path (directory.child other) text?' :=
      hapart.of_settle sound hfirst (hothers (OrderedMap.mem_keys_of_mem hmem)) hpath
    have hnext : Apart directory rest next := fun other text?' hmem last hlast hne =>
      hkeep hmem (.inr (hothers hlast))
        (apart other text?' (List.mem_cons_of_mem _ hmem) last (List.mem_cons_of_mem _ hlast) hne)
    obtain ⟨hsettled, hseen⟩ := ih hsound hrest hnext h
    refine ⟨fun other text?' hmem => ?_, fun path hpath => ?_⟩
    · rcases List.mem_cons.mp hmem with heq | hmem
      · obtain ⟨rfl, rfl⟩ := Prod.mk.inj heq
        rw [hseen _ fun last text?' hlast => hkeep hlast (.inl rfl) ?_]
        · exact find?_of_settle sound hfirst
        · exact apart last text?' (List.mem_cons_of_mem _ hlast) other List.mem_cons_self
            fun heq => hnew (heq ▸ OrderedMap.mem_keys_of_mem hlast)
      · exact hsettled other text?' hmem
    · rw [hseen path fun last text?' hlast => hkeep hlast (.inr ?_) ?_]
      · exact (hpath name text? List.mem_cons_self).find?_eq sound hfirst
      · exact hpath name text? List.mem_cons_self
      · exact hpath last text?' (List.mem_cons_of_mem _ hlast)

/-! ## §3 Updates -/

section

variable {directory : Path} {sources : List GeneratedSource} {disk after : Disk} {paths : List Path}

/-- An update makes the directory and then settles its files. -/
theorem exists_of_update (h : update directory sources disk = .ok paths after) :
    ∃ made, Action.createDirectories directory disk = .ok () made ∧
      settleAll directory (wanted sources) made = .ok () after := by
  rw [update_eq] at h
  obtain ⟨_, made, hmade, h⟩ := Action.exists_of_bind_ok h
  obtain ⟨_, next, hsettle, h⟩ := Action.exists_of_bind_ok h
  cases h
  exact ⟨made, hmade, hsettle⟩

/-- The file that is settled last is seen as it was settled, links or not. -/
theorem readText_of_settleAll {files : OrderedMap String (Option String)} {name text : String}
    (sound : disk.IsSound) (h : settleAll directory (files ++ [(name, some text)]) disk =
      .ok () after) : after.readText (directory.child name) = .ok text := by
  induction files generalizing disk with
  | nil =>
    rw [List.nil_append, settleAll] at h
    obtain ⟨_, next, hlast, h⟩ := Action.exists_of_bind_ok h
    cases h
    exact Disk.readText_eq_ok_iff.mpr (refresh_settles sound hlast).found
  | cons file rest ih =>
    obtain ⟨first, text?⟩ := file
    rw [List.cons_append, settleAll] at h
    obtain ⟨_, next, hfirst, h⟩ := Action.exists_of_bind_ok h
    have hsound := settle_keepsSound (directory.child first) text? sound
    rw [Action.after_eq_of_ok hfirst] at hsound
    exact ih hsound h

theorem readText_aggregate (sound : disk.IsSound)
    (h : update directory sources disk = .ok paths after) :
    after.readText (directory.child aggregateName) = .ok (aggregate sources) := by
  obtain ⟨made, hmade, hsettle⟩ := exists_of_update h
  have hsound := Action.createDirectories_keepsSound directory sound
  rw [Action.after_eq_of_ok hmade] at hsound
  -- The file with all sources is the last one that is wanted.
  have hwanted : wanted sources = (wanted sources).take 2 ++
      [(aggregateName, some (aggregate sources))] := rfl
  rw [hwanted] at hsettle
  exact readText_of_settleAll hsound hsettle

/-- An update of files that are apart leaves each of them as wanted. -/
theorem settled_of_update (sound : disk.IsSound)
    (apart : Apart directory (wanted sources) ((Action.createDirectories directory).after disk))
    (h : update directory sources disk = .ok paths after) :
    Settled directory (wanted sources) after := by
  obtain ⟨made, hmade, hsettle⟩ := exists_of_update h
  have hsound := Action.createDirectories_keepsSound directory sound
  rw [Action.after_eq_of_ok hmade] at hsound apart
  exact (settled_of_settleAll hsound (hasNames_wanted sources) apart hsettle).1

end

end Output

namespace Generation

variable {disk : Disk} {program : String} {candidates : List Path}

theorem variant_of_runVariant {variant : Variant} {source : GeneratedSource}
    (h : runVariant disk program candidates variant = .ok source) : source.variant = variant := by
  unfold runVariant at h
  split at h
  next => cases h
  next path _ =>
    split at h
    next => cases h
    next text _ =>
      split at h
      next => cases h
      next generated hgenerated =>
        cases h
        unfold ofText at hgenerated
        split at hgenerated
        next => cases hgenerated
        next =>
          cases hgenerated
          rfl

/-- The sources of a run are those of the variants, in their order. -/
theorem map_text_sources (disk : Disk) (program : String) (candidates : List Path) :
    let generated := sources (run disk program candidates)
    generated.map GeneratedSource.text = Variant.all.filterMap fun variant =>
      (Output.sourceOf? generated variant).map GeneratedSource.text := by
  have hvariant {variant : Variant} {source : GeneratedSource}
      (h : runVariant disk program candidates variant = .ok source) : source.variant = variant :=
    variant_of_runVariant h
  simp only [sources, run, Variant.all, List.map_cons, List.map_nil]
  cases hpublic : runVariant disk program candidates .publicSettings with
  | error e =>
    cases hinternal : runVariant disk program candidates .internalSettings with
    | error e' => rfl
    | ok internal => simp [Except.toOption, Output.sourceOf?, hvariant hinternal]
  | ok source =>
    cases hinternal : runVariant disk program candidates .internalSettings with
    | error e => simp [Except.toOption, Output.sourceOf?, hvariant hpublic]
    | ok internal =>
      simp [Except.toOption, Output.sourceOf?, hvariant hpublic, hvariant hinternal]

end Generation

namespace Output

/-- The texts of the files of variants that are there. -/
theorem mapM_readText_of_settled {directory : Path} {sources : List GeneratedSource} {after : Disk}
    (h : Settled directory (wanted sources) after) (variants : List Variant) :
    ((variants.map fun variant => directory.child variant.outputFileName).filter
      after.pathExists).mapM after.readText = .ok (variants.filterMap fun variant =>
        (sourceOf? sources variant).map GeneratedSource.text) := by
  induction variants with
  | nil => rfl
  | cons variant rest ih =>
    have hfirst := h.find?_variant variant
    rw [List.map_cons]
    cases hsource : sourceOf? sources variant with
    | none =>
      rw [hsource] at hfirst
      have habsent : ¬ after.pathExists (directory.child variant.outputFileName) := by
        rw [Disk.pathExists, hfirst]
        exact Bool.false_ne_true
      rw [List.filter_cons_of_neg habsent, ih, List.filterMap_cons_none (by rw [hsource]; rfl)]
    | some source =>
      rw [hsource] at hfirst
      have hpresent : after.pathExists (directory.child variant.outputFileName) := by
        rw [Disk.pathExists, hfirst]
        rfl
      rw [List.filter_cons_of_pos hpresent, List.mapM_cons, ih,
        Disk.readText_eq_ok_iff.mpr hfirst, List.filterMap_cons_some (by rw [hsource]; rfl)]
      rfl

end Output

namespace Command

/-! ## §4 Commands -/

/-- The build that a job describes. -/
def Job.build (settings : Job) : Build :=
  ⟨settings.sourceDirectory, settings.program, settings.outputDirectory⟩

section

variable {disk after : Disk} {settings : Job} {sources : List GeneratedSource}

/-- A build writes the sources of the job. -/
theorem Job.run_build_eq_ok_iff : settings.build.run disk = .ok sources after ↔
    settings.sources disk = .ok sources ∧
      ∃ paths, Output.update settings.outputDirectory sources disk = .ok paths after := by
  rw [Build.run_eq_ok_iff, Job.sources]
  constructor
  · rintro ⟨candidates, paths, hcandidates, rfl, hupdate⟩
    rw [show Generation.candidates disk settings.sourceDirectory = .ok candidates from hcandidates]
    exact ⟨rfl, paths, hupdate⟩
  · rintro ⟨hsources, paths, hupdate⟩
    cases hcandidates : Generation.candidates disk settings.sourceDirectory with
    | error fault =>
      rw [hcandidates] at hsources
      cases hsources
    | ok candidates =>
      rw [hcandidates] at hsources
      exact ⟨candidates, paths, hcandidates, Except.ok.inj hsources, hupdate⟩

/-- The sources of a job are those of the variants, in their order. -/
theorem Job.map_text_sources (h : settings.sources disk = .ok sources) :
    sources.map GeneratedSource.text = Variant.all.filterMap fun variant =>
      (Output.sourceOf? sources variant).map GeneratedSource.text := by
  rw [Job.sources] at h
  split at h
  next => cases h
  next candidates hcandidates =>
    cases h
    exact Generation.map_text_sources disk settings.program candidates

end

section

variable {disk after : Disk} {explicit : Option Path} {options : GenerateOptions} {settings : Job}

/-- Without a configuration file, options that say everything are the job. -/
theorem job_eq_ok {fault : IoFault} {program : String} {output : Path}
    (hread : disk.readText (options.sourceDirectory.child Configuration.fileName) = .error fault)
    (hprogram : options.program = some program) (houtput : options.outputDirectory = some output) :
    job disk none options = .ok ⟨options.sourceDirectory, program, output⟩ := by
  rw [job, Configuration.load, hread]
  simp only [hprogram, houtput, Option.getD_some]

/-- Printing leaves the disk alone. -/
theorem runGenerate_print (hjob : job disk explicit options = .ok settings)
    (hprint : options.toStandardOutput = true) : runGenerate explicit options disk =
      match settings.sources disk with
      | .error e => .error e disk
      | .ok sources => .ok (Output.aggregate sources) disk := by
  cases hsources : settings.sources disk <;>
    simp only [runGenerate, hjob, hprint, hsources, if_true]

/-- Writing updates the output files with the sources. -/
theorem runGenerate_write_eq_ok_iff (hjob : job disk explicit options = .ok settings)
    (hwrite : options.toStandardOutput = false) :
    (∃ listed, runGenerate explicit options disk = .ok listed after) ↔
      ∃ sources, settings.sources disk = .ok sources ∧
        ∃ paths, Output.update settings.outputDirectory sources disk = .ok paths after := by
  simp only [runGenerate, hjob, hwrite, Bool.false_eq_true, if_false]
  cases settings.sources disk with
  | error e => simp
  | ok sources =>
    simp only [Except.ok.injEq, exists_eq_left']
    cases Output.update settings.outputDirectory sources disk with
    | error fault next => simp
    | ok paths next => simp

end

/-- **The front ends agree**: the command that writes succeeds where the build does and leaves the
same disk; the command that prints leaves the disk alone, and it prints what the file with all
sources then holds, whatever links there are. Where the output files are apart once their directory
is there, this is the texts of those files of variants that then exist, with a line feed between
them. -/
theorem front_ends_agree {disk : Disk} (sound : disk.IsSound) {explicit : Option Path}
    {options : GenerateOptions} {settings : Job}
    (hjob : job disk explicit options = .ok settings) :
    let write := runGenerate explicit { options with toStandardOutput := false }
    let print := runGenerate explicit { options with toStandardOutput := true }
    let output := settings.outputDirectory.child
    let made := (Action.createDirectories settings.outputDirectory).after disk
    (∀ after, (∃ listed, write disk = .ok listed after) ↔
      ∃ sources, settings.build.run disk = .ok sources after) ∧
    print.after disk = disk ∧
    ∀ sources after, settings.build.run disk = .ok sources after → ∃ text,
      print disk = .ok text disk ∧ after.readText (output Output.aggregateName) = .ok text ∧
      (Output.Apart settings.outputDirectory (Output.wanted sources) made →
        ∃ texts, ((Variant.all.map fun variant => output variant.outputFileName).filter
            after.pathExists).mapM after.readText = .ok texts ∧
          text = "\n".intercalate texts) := by
  intro write print output made
  -- Where a job comes from does not depend on the switch.
  have hprint : print disk = _ := runGenerate_print hjob rfl
  refine ⟨fun after => ?_, ?_, fun sources after hrun => ?_⟩
  · simp only [Job.run_build_eq_ok_iff]
    exact runGenerate_write_eq_ok_iff hjob rfl
  · rw [Action.after, hprint]
    cases settings.sources disk <;> rfl
  · obtain ⟨hsources, paths, hupdate⟩ := Job.run_build_eq_ok_iff.mp hrun
    have haggregate := Output.readText_aggregate sound hupdate
    refine ⟨Output.aggregate sources, by rw [hprint, hsources], haggregate, fun apart => ?_⟩
    have hsettled := Output.settled_of_update sound apart hupdate
    refine ⟨_, Output.mapM_readText_of_settled hsettled Variant.all, ?_⟩
    rw [Output.aggregate, Job.map_text_sources hsources]

/-- A job on a disk without links, with an output file that goes. -/
theorem front_ends_agree_leftover :
    let options : GenerateOptions := ⟨⟨"/src"⟩, some "demo", some ⟨"/src"⟩, true⟩
    let settings : Job := ⟨⟨"/src"⟩, "demo", ⟨"/src"⟩⟩
    Build.leftover.IsSound ∧ job Build.leftover none options = .ok settings ∧
      ∃ text sources after, settings.build.run Build.leftover = .ok sources after ∧
        runGenerate none options Build.leftover = .ok text Build.leftover ∧
        after.readText (Path.child ⟨"/src"⟩ Output.aggregateName) = .ok text ∧
        ∃ texts, ((Variant.all.map fun variant => Path.child ⟨"/src"⟩ variant.outputFileName).filter
            after.pathExists).mapM after.readText = .ok texts ∧ text = "\n".intercalate texts := by
  intro options settings
  have tree : Build.leftover.IsTree := by decide
  have hjob : job Build.leftover none options = .ok settings := by
    have hread : Build.leftover.readText (Path.child ⟨"/src"⟩ Configuration.fileName) =
        .error .notFound := by
      have hcheck : Disk.checkChild ⟨"/src"⟩ Configuration.fileName = .ok () := by decide
      rw [tree.readText_child Build.opens_leftover (by decide), hcheck]
      rfl
    exact job_eq_ok hread rfl rfl
  obtain ⟨text, after, hrun⟩ := Build.exists_run_leftover
  obtain ⟨-, -, hagree⟩ := front_ends_agree tree.isSound hjob
  obtain ⟨printed, hprint, haggregate, hjoined⟩ := hagree _ after hrun
  refine ⟨tree.isSound, hjob, printed, _, after, hrun, hprint, haggregate, hjoined ?_⟩
  have hmade : (Action.createDirectories ⟨"/src"⟩).after Build.leftover = Build.leftover :=
    Action.after_eq_of_ok (Action.createDirectories_of_opens tree Build.opens_leftover)
  rw [hmade]
  exact Output.apart_of_isTree tree Build.opens_leftover (Output.hasNames_wanted _)

/-! ## §5 Output files that are one -/

/-- Internal settings, and a link in place of the file of the public ones. -/
def linked : Disk where
  entries := [(["src"], .directory), (["src", "app.settings.json"], .file (.text "{}")),
    (["out"], .directory),
    (["out", "settings_generated.rs"], .link ⟨"internal_settings_generated.rs"⟩)]
  workingDirectory := []
  written := []

/-- The only candidate is read as the internal settings. -/
theorem linked_sources : Job.sources ⟨⟨"src"⟩, "app", ⟨"out"⟩⟩ linked =
    .ok [⟨.internalSettings, Schema.source [] .internalSettings "app"⟩] := by
  have hdirectory : linked.resolve ⟨"src"⟩ = .ok ["src"] :=
    Disk.resolve_eq_ok_iff.mpr ⟨by decide,
      .enter (by decide) rfl .done⟩
  have hlist : linked.list ⟨"src"⟩ = .ok [("app.settings.json", .file (.text "{}"))] := by
    rw [Disk.list, hdirectory]
    simp [linked, Disk.childrenOf, Disk.childName?, Disk.get?, OrderedMap.find?, bind, Except.bind,
      pure, Except.pure]
  have hfile : linked.resolve ⟨"src/app.settings.json"⟩ = .ok ["src", "app.settings.json"] :=
    Disk.resolve_eq_ok_iff.mpr ⟨by decide,
      .enter (by decide) rfl (.file (by decide) rfl)⟩
  have hread : linked.readText ⟨"src/app.settings.json"⟩ = .ok "{}" := by
    rw [Disk.readText, hfile]
    rfl
  have hschema : Schema.ofText "{}" = .ok [] := by cbv
  have hpath : Path.child ⟨"src"⟩ "app.settings.json" = ⟨"src/app.settings.json"⟩ := by decide
  have hpublic : Generation.input? "app" [⟨"src/app.settings.json"⟩] .publicSettings = none := by
    decide
  have hinternal : Generation.input? "app" [⟨"src/app.settings.json"⟩] .internalSettings =
      some ⟨"src/app.settings.json"⟩ := by decide
  simp [Job.sources, Generation.candidates, hlist, hpath, Generation.run, Generation.sources,
    Variant.all, Generation.runVariant, hpublic, hinternal, hread, Generation.ofText, hschema,
    bind, Except.bind, pure, Except.pure, Except.toOption]

/-- The disk after the internal file and the file with all sources are written. -/
def linkedAfter (text : String) : Disk :=
  (linked.withFile ["out", "internal_settings_generated.rs"] (.text text)).withFile
    ["out", "settingsgen.rs"] (.text text)

theorem child_public :
    Path.child ⟨"out"⟩ "settings_generated.rs" = ⟨"out/settings_generated.rs"⟩ := by decide

theorem child_internal : Path.child ⟨"out"⟩ "internal_settings_generated.rs" =
    ⟨"out/internal_settings_generated.rs"⟩ := by decide

theorem child_aggregate : Path.child ⟨"out"⟩ "settingsgen.rs" = ⟨"out/settingsgen.rs"⟩ := by decide

/-- The output directory is there. -/
theorem linked_createDirectories :
    Action.createDirectories ⟨"out"⟩ linked = .ok () linked := by
  have hvacancy : linked.vacancy ⟨"out"⟩ = .error .alreadyExists := by
    have hcheck : Disk.checkPath ⟨"out"⟩ = .ok () := by decide
    have hroot : linked.resolveDirectory ⟨"out"⟩ [] = .ok [] :=
      Disk.resolveDirectory_eq_ok_iff.mpr ⟨.done, rfl⟩
    have hnames : Path.names ⟨"out"⟩ = ["out"] := by decide
    rw [Disk.vacancy, hcheck, hnames]
    simp only [bind, Except.bind, List.getLast?_singleton, List.dropLast_singleton, hroot]
    rfl
  have hthere : linked.isDirectory ⟨"out"⟩ = true := by
    have hresolve : linked.resolve ⟨"out"⟩ = .ok ["out"] :=
      Disk.resolve_eq_ok_iff.mpr ⟨by decide, .enter (by decide) rfl .done⟩
    rw [Disk.isDirectory, Disk.find?, hresolve]
    rfl
  rw [Action.createDirectories, if_neg (by decide), Action.createUnder, Action.createDirectory,
    Action.changeAt, hvacancy]
  simp only [hthere, if_true]

/-- The link leads nowhere at first and is left alone; then it leads to the internal file. -/
theorem linked_settleAll (text : String) :
    Output.settleAll ⟨"out"⟩ (Output.wanted [⟨.internalSettings, text⟩]) linked =
      .ok () (linkedAfter text) := by
  have hpublic : Output.settle ⟨"out/settings_generated.rs"⟩ none linked = .ok () linked := by
    have hresolve : linked.resolve ⟨"out/settings_generated.rs"⟩ =
        .ok ["out", "internal_settings_generated.rs"] :=
      Disk.resolve_eq_ok_iff.mpr ⟨by decide,
        .enter (by decide) rfl (.follow (by decide) rfl (.vacant (by decide) rfl))⟩
    rw [Output.settle, Output.removeIfPresent, Disk.pathExists, Disk.find?, hresolve]
    rfl
  have hinternal : Output.settle ⟨"out/internal_settings_generated.rs"⟩ (some text) linked =
      .ok () (linked.withFile ["out", "internal_settings_generated.rs"] (.text text)) :=
    Output.settle_of_vacant (by decide)
      (.enter (by decide) rfl (.vacant (by decide) rfl)) rfl text
  have haggregate : Output.settle ⟨"out/settingsgen.rs"⟩ (some text)
      (linked.withFile ["out", "internal_settings_generated.rs"] (.text text)) =
        .ok () (linkedAfter text) :=
    Output.settle_of_vacant (by decide)
      (.enter (by decide) rfl (.vacant (by decide) rfl)) rfl text
  have hwanted : Output.wanted [⟨.internalSettings, text⟩] =
      [("settings_generated.rs", none), ("internal_settings_generated.rs", some text),
        ("settingsgen.rs", some text)] := by
    simp [Output.wanted, Output.sourceOf?, Output.aggregate, Output.aggregateName,
      Variant.outputFileName]
  rw [hwanted]
  simp only [Output.settleAll, child_public, child_internal, child_aggregate]
  rw [Action.bind_of_ok hpublic, Action.bind_of_ok hinternal, Action.bind_of_ok haggregate]
  rfl

theorem linked_update (text : String) :
    Output.update ⟨"out"⟩ [⟨.internalSettings, text⟩] linked =
      .ok [⟨"out/internal_settings_generated.rs"⟩, ⟨"out/settingsgen.rs"⟩] (linkedAfter text) := by
  have hpaths : Output.presentPaths ⟨"out"⟩ (Output.wanted [⟨.internalSettings, text⟩]) =
      [Path.child ⟨"out"⟩ "internal_settings_generated.rs", Path.child ⟨"out"⟩ "settingsgen.rs"] :=
    rfl
  rw [Output.update_eq, Action.bind_of_ok linked_createDirectories,
    Action.bind_of_ok (linked_settleAll text), hpaths, child_internal, child_aggregate]
  rfl

/-- The file of the public settings is that of the internal ones. -/
theorem linkedAfter_find?_public (text : String) :
    (linkedAfter text).find? (Path.child ⟨"out"⟩ "settings_generated.rs") =
      some (.file (.text text)) := by
  have hresolve : (linkedAfter text).resolve ⟨"out/settings_generated.rs"⟩ =
      .ok ["out", "internal_settings_generated.rs"] :=
    Disk.resolve_eq_ok_iff.mpr ⟨by decide,
      .enter (by decide) rfl (.follow (by decide) rfl (.file (by decide) rfl))⟩
  rw [child_public, Disk.find?, hresolve]
  rfl

theorem linkedAfter_find?_internal (text : String) :
    (linkedAfter text).find? (Path.child ⟨"out"⟩ "internal_settings_generated.rs") =
      some (.file (.text text)) := by
  have hresolve : (linkedAfter text).resolve ⟨"out/internal_settings_generated.rs"⟩ =
      .ok ["out", "internal_settings_generated.rs"] :=
    Disk.resolve_eq_ok_iff.mpr ⟨by decide, .enter (by decide) rfl (.file (by decide) rfl)⟩
  rw [child_internal, Disk.find?, hresolve]
  rfl

/-- There is no configuration. -/
theorem linked_job : job linked none ⟨⟨"src"⟩, some "app", some ⟨"out"⟩, true⟩ =
    .ok ⟨⟨"src"⟩, "app", ⟨"out"⟩⟩ := by
  have hresolve : linked.resolve ⟨"src/settingsgen.toml"⟩ = .ok ["src", "settingsgen.toml"] :=
    Disk.resolve_eq_ok_iff.mpr ⟨by decide, .enter (by decide) rfl (.vacant (by decide) rfl)⟩
  have hpath : Path.child ⟨"src"⟩ Configuration.fileName = ⟨"src/settingsgen.toml"⟩ := by decide
  have hread : linked.readText (Path.child ⟨"src"⟩ Configuration.fileName) = .error .notFound := by
    rw [hpath, Disk.readText, hresolve]
    rfl
  exact job_eq_ok hread rfl rfl

/-- The file of the public settings leads to that of the internal ones, so the texts of both are
there, and the file with all sources holds one. -/
theorem linked_file_repeated :
    let options : GenerateOptions := ⟨⟨"src"⟩, some "app", some ⟨"out"⟩, true⟩
    let settings : Job := ⟨⟨"src"⟩, "app", ⟨"out"⟩⟩
    let output := settings.outputDirectory.child
    linked.IsSound ∧ job linked none options = .ok settings ∧
      ∃ text sources after, settings.build.run linked = .ok sources after ∧
        runGenerate none options linked = .ok text linked ∧
        after.readText (output Output.aggregateName) = .ok text ∧
        ((Variant.all.map fun variant => output variant.outputFileName).filter
          after.pathExists).mapM after.readText = .ok [text, text] ∧
        text ≠ "\n".intercalate [text, text] := by
  intro options settings output
  have sound : linked.IsSound := Disk.isSound_of_entries (by decide) rfl
  let text := Schema.source [] .internalSettings "app"
  have hupdate := linked_update text
  have hpublic : (linkedAfter text).find? (output "settings_generated.rs") =
      some (.file (.text text)) := linkedAfter_find?_public text
  have hinternal : (linkedAfter text).find? (output "internal_settings_generated.rs") =
      some (.file (.text text)) := linkedAfter_find?_internal text
  refine ⟨sound, linked_job, text, _, linkedAfter text,
    Job.run_build_eq_ok_iff.mpr ⟨linked_sources, _, hupdate⟩, ?print, ?aggregate, ?texts, ?differs⟩
  case print =>
    rw [runGenerate_print linked_job rfl, linked_sources]
    rfl
  case aggregate => exact Output.readText_aggregate sound hupdate
  case texts =>
    simp [Variant.all, Variant.outputFileName, Disk.pathExists, hpublic, hinternal,
      Disk.readText_eq_ok_iff.mpr hpublic, Disk.readText_eq_ok_iff.mpr hinternal, bind, Except.bind,
      pure, Except.pure]
  case differs =>
    intro heq
    simpa [String.intercalate_cons_cons] using congrArg String.length heq

end Command

end TypedSettings

import Mathlib
import TypedSettings.Proofs.Generation.Inputs
import TypedSettings.Proofs.Generation.Output

/-!
# Failed updates

The output files are settled one after the other, and a file that cannot be settled is left as it
is. A run that fails has therefore settled the files before the one that it failed at, and nothing
else. The file with all sources is the last, so a failed update never gets there.

Main facts:
- `Output.exists_of_settleAll_error`: a failed run is a successful one on the files before the fault
- `Output.Spared`: what a failed update leaves
- `Output.failed_update_spares`: a failed update leaves the file with all sources as it was
-/

namespace TypedSettings

namespace Disk

/-- The content of the file at a location, if there is a file. -/
def content? (disk : Disk) (location : Location) : Option Content :=
  (disk.get? location).bind Entry.content?

section

variable {disk next : Disk} {location : Location}

theorem content?_eq_some_iff {content : Content} :
    disk.content? location = some content ↔ disk.get? location = some (.file content) := by
  simp only [content?, Option.bind_eq_some_iff, Entry.content?_eq_some_iff, exists_eq_right]

theorem content?_congr (h : next.get? location = disk.get? location) :
    next.content? location = disk.content? location := by rw [content?, content?, h]

/-- More directories change no file. -/
theorem Grown.content?_eq (h : Grown disk next) (location : Location) :
    next.content? location = disk.content? location := by
  ext content
  rw [content?_eq_some_iff, content?_eq_some_iff]
  exact h.get?_eq_file_iff

end

end Disk

namespace Output

/-! ## §1 Where a run fails -/

section

variable {disk next : Disk} {directory : Path} {location : Location} {fault : IoFault}

/-- What can become of one file: it cannot be settled, nothing has to be done about it, or it is
settled. -/
theorem settle_cases (tree : disk.IsTree) (h : disk.Opens directory location) {name : String}
    (hname : Path.IsName name) (text? : Option String) :
    (∃ fault, settle (directory.child name) text? disk = .error fault disk) ∨
      settle (directory.child name) text? disk = .ok () disk ∨
      settle (directory.child name) text? disk =
        .ok () (disk.settle (location ++ [name]) text?) := by
  rw [settle_child tree h hname]
  cases Disk.checkChild directory name with
  | error fault =>
    -- A file that cannot be named cannot be written, and need not be removed.
    dsimp only
    split_ifs
    · exact .inl ⟨fault, rfl⟩
    · exact .inr (.inl rfl)
  | ok _ =>
    -- Only a directory in the place of the file is in the way.
    dsimp only
    split_ifs
    · exact .inl ⟨.isDirectory, rfl⟩
    · exact .inr (.inr rfl)

/-- A file that cannot be settled is left as it is. -/
theorem eq_of_settle_error (tree : disk.IsTree) (h : disk.Opens directory location) {name : String}
    (hname : Path.IsName name) {text? : Option String}
    (hfail : settle (directory.child name) text? disk = .error fault next) : next = disk := by
  rcases settle_cases tree h hname text? with ⟨_, heq⟩ | heq | heq <;> cases heq.symm.trans hfail
  rfl

/-- A file is as before unless it is settled. -/
theorem get?_of_settle (tree : disk.IsTree) (h : disk.Opens directory location) {name : String}
    (hname : Path.IsName name) {text? : Option String}
    (hsettle : settle (directory.child name) text? disk = .ok () next) :
    next.get? (location ++ [name]) = disk.get? (location ++ [name]) ∨
      next.get? (location ++ [name]) = fileOf? text? := by
  rcases settle_cases tree h hname text? with ⟨_, heq⟩ | heq | heq <;> cases heq.symm.trans hsettle
  · exact .inl rfl
  · exact .inr (((tree.edit_settle (by simp)).get? _).trans (if_pos rfl))

theorem HasNames.of_sublist {before files : OrderedMap String (Option String)}
    (hsub : before.Sublist files) (names : HasNames files) : HasNames before where
  nodup := (hsub.map Prod.fst).nodup names.nodup
  isName name hname := names.isName name ((hsub.map Prod.fst).subset hname)

/-- **A run takes one file at a time**: it fails at the first file and leaves it as it is, or it
settles the first file and goes on with the others. -/
theorem settleAll_cons_cases (tree : disk.IsTree) (h : disk.Opens directory location)
    {name : String} (hname : Path.IsName name) (text? : Option String)
    (rest : OrderedMap String (Option String)) :
    (∃ fault, settleAll directory ((name, text?) :: rest) disk = .error fault disk) ∨
      ∃ middle, settle (directory.child name) text? disk = .ok () middle ∧ middle.IsTree ∧
        Disk.Confined (· = location ++ [name]) disk middle ∧
        settleAll directory ((name, text?) :: rest) disk = settleAll directory rest middle := by
  rw [settleAll]
  cases hfirst : settle (directory.child name) text? disk with
  | error fault left =>
    obtain rfl := eq_of_settle_error tree h hname hfirst
    exact .inl ⟨fault, Action.bind_of_error hfirst⟩
  | ok _ middle =>
    have hsettled := settle_respects tree h hname text?
    rw [hfirst] at hsettled
    obtain ⟨htree, hconfined, -⟩ := hsettled
    exact .inr ⟨middle, rfl, htree, hconfined, Action.bind_of_ok hfirst⟩

/-- **A failed run stops at a file**: those before it have been settled, and nothing else has been
done. -/
theorem exists_of_settleAll_error {files : OrderedMap String (Option String)} (tree : disk.IsTree)
    (h : disk.Opens directory location) (names : HasNames files)
    (hfail : settleAll directory files disk = .error fault next) :
    ∃ before file after, files = before ++ file :: after ∧
      settleAll directory before disk = .ok () next := by
  induction files generalizing disk with
  | nil => cases hfail
  | cons file rest ih =>
    obtain ⟨name, text?⟩ := file
    rcases settleAll_cons_cases tree h (names.isName name List.mem_cons_self) text? rest with
      ⟨_, hstop⟩ | ⟨middle, hfirst, htree, hconfined, hrun⟩
    · cases hstop.symm.trans hfail
      exact ⟨[], (name, text?), rest, rfl, rfl⟩
    · -- The run over the others has failed, and the first file was settled before it.
      rw [hrun] at hfail
      obtain ⟨before, file, after, rfl, hbefore⟩ :=
        ih htree (hconfined.opens h) names.tail.2 hfail
      refine ⟨(name, text?) :: before, file, after, rfl, ?_⟩
      rw [settleAll, Action.bind_of_ok hfirst]
      exact hbefore

/-- After a run each file is as before or holds what is wanted. -/
theorem get?_of_settleAll {files : OrderedMap String (Option String)} (tree : disk.IsTree)
    (h : disk.Opens directory location) (names : HasNames files)
    (hsettle : settleAll directory files disk = .ok () next) {name : String}
    {text? : Option String} (hmem : (name, text?) ∈ files) :
    next.get? (location ++ [name]) = disk.get? (location ++ [name]) ∨
      next.get? (location ++ [name]) = fileOf? text? := by
  induction files generalizing disk with
  | nil => cases hmem
  | cons file rest ih =>
    obtain ⟨first, first?⟩ := file
    obtain ⟨hnew, hrest⟩ := names.tail
    have hname := names.isName first List.mem_cons_self
    rcases settleAll_cons_cases tree h hname first? rest with
      ⟨_, hstop⟩ | ⟨middle, hfirst, htree, hconfined, hrun⟩
    · cases hstop.symm.trans hsettle
    · rw [hrun] at hsettle
      have hopens := hconfined.opens h
      have hothers := settleAll_respects htree hopens hrest
      rw [hsettle] at hothers
      rcases List.mem_cons.mp hmem with heq | hmem
      -- The files after the first have other names.
      · obtain ⟨rfl, rfl⟩ := Prod.mk.inj heq
        have hkept : next.get? (location ++ [name]) = middle.get? (location ++ [name]) := by
          refine hothers.2.1.frame ?_
          rintro ⟨last, hlast, hsame⟩
          obtain rfl : name = last := by simpa using hsame
          exact hnew hlast
        rw [hkept]
        exact get?_of_settle tree h hname hfirst
      · have hkept : middle.get? (location ++ [name]) = disk.get? (location ++ [name]) := by
          refine hconfined.frame fun hsame => ?_
          have hsame : name = first := by simpa using hsame
          exact hnew (hsame ▸ OrderedMap.mem_keys_of_mem hmem)
        rw [← hkept]
        exact ih htree hopens hrest hsettle hmem

end

/-! ## §2 Failed updates -/

/-- `Spared directory sources disk next`: an update of the directory that failed has left `next`. -/
structure Spared (directory : Path) (sources : List GeneratedSource) (disk next : Disk) : Prop where
  /-- The file with all sources is as it was, wherever the directory is. -/
  content?_aggregate : ∀ parent, next.Opens directory parent →
    next.content? (parent ++ [aggregateName]) = disk.content? (parent ++ [aggregateName])
  /-- Whoever reads that file in a directory that was there reads what it held before. -/
  readText_aggregate : ∀ parent, disk.Opens directory parent →
    next.readText (directory.child aggregateName) = disk.readText (directory.child aggregateName)
  /-- The file of a variant is as it was, or holds the new text, or is gone for good. -/
  variant : ∀ parent, next.Opens directory parent → ∀ variant : Variant,
    next.content? (parent ++ [variant.outputFileName]) =
        disk.content? (parent ++ [variant.outputFileName]) ∨
      next.get? (parent ++ [variant.outputFileName]) =
        fileOf? ((sourceOf? sources variant).map GeneratedSource.text)
  /-- No other file is changed. -/
  frame : ∀ location, (∀ parent (variant : Variant), next.Opens directory parent →
      location ≠ parent ++ [variant.outputFileName]) →
    next.content? location = disk.content? location

/-- The files of the variants, which come before the file with all sources. -/
def variantFiles (sources : List GeneratedSource) : OrderedMap String (Option String) :=
  Variant.all.map fun variant =>
    (variant.outputFileName, (sourceOf? sources variant).map GeneratedSource.text)

theorem wanted_eq (sources : List GeneratedSource) :
    wanted sources = variantFiles sources ++ [(aggregateName, some (aggregate sources))] := rfl

/-- A run over all files that fails has gone through files of variants only. -/
theorem exists_prefix_of_settleAll_error {disk next : Disk} {directory : Path} {location : Location}
    {fault : IoFault} {sources : List GeneratedSource} (tree : disk.IsTree)
    (h : disk.Opens directory location)
    (hfail : settleAll directory (wanted sources) disk = .error fault next) :
    ∃ before, before <+: variantFiles sources ∧ settleAll directory before disk = .ok () next := by
  obtain ⟨before, file, after, hfiles, hbefore⟩ :=
    exists_of_settleAll_error tree h (hasNames_wanted sources) hfail
  refine ⟨before, ?_, hbefore⟩
  -- A proper part of all files lacks the last one.
  have hdropLast : variantFiles sources = before ++ (file :: after).dropLast := by
    rw [← List.dropLast_append_of_ne_nil (List.cons_ne_nil file after), ← hfiles, wanted_eq,
      List.dropLast_concat]
  exact ⟨(file :: after).dropLast, hdropLast.symm⟩

theorem aggregateName_ne (variant : Variant) : aggregateName ≠ variant.outputFileName := by
  cases variant <;> decide

/-- The files of variants are wanted as their first sources say. -/
theorem exists_of_mem_variantFiles {sources : List GeneratedSource} {name : String}
    {text? : Option String} (h : (name, text?) ∈ variantFiles sources) :
    ∃ variant : Variant, name = variant.outputFileName ∧
      text? = (sourceOf? sources variant).map GeneratedSource.text := by
  obtain ⟨variant, -, heq⟩ := List.mem_map.mp h
  obtain ⟨rfl, rfl⟩ := Prod.mk.inj heq
  exact ⟨variant, rfl, rfl⟩

theorem exists_of_mem_keys {sources : List GeneratedSource}
    {before : OrderedMap String (Option String)} (hpre : before <+: variantFiles sources)
    {name : String} (h : name ∈ OrderedMap.keys before) :
    ∃ variant : Variant, name = variant.outputFileName := by
  obtain ⟨⟨_, text?⟩, hmem, rfl⟩ := List.mem_map.mp h
  obtain ⟨variant, hname, -⟩ := exists_of_mem_variantFiles (hpre.subset hmem)
  exact ⟨variant, hname⟩

theorem outputFileName_injective : Function.Injective Variant.outputFileName := by
  intro first second h
  cases first <;> cases second <;> first | rfl | exact absurd h (by decide)

theorem eq_of_mem_variantFiles {sources : List GeneratedSource} {variant : Variant}
    {text? : Option String} (h : (variant.outputFileName, text?) ∈ variantFiles sources) :
    text? = (sourceOf? sources variant).map GeneratedSource.text := by
  obtain ⟨other, hname, htext⟩ := exists_of_mem_variantFiles h
  rw [htext, outputFileName_injective hname]

theorem isName_aggregateName : Path.IsName aggregateName :=
  isName_of_mem_fileNames (by simp [fileNames])

/-- A run over files of variants spares what is no such file. -/
theorem spared_of_settleAll {disk middle next : Disk} {directory : Path} {location : Location}
    {sources : List GeneratedSource} {before : OrderedMap String (Option String)}
    (hgrown : Disk.Grown disk middle)
    (hthere : ∀ parent, disk.Opens directory parent → disk = middle)
    (tree : middle.IsTree) (hopens : middle.Opens directory location)
    (hpre : before <+: variantFiles sources)
    (hsettle : settleAll directory before middle = .ok () next) :
    Spared directory sources disk next := by
  have names : HasNames before :=
    (hasNames_wanted sources).of_sublist (hpre.trans ⟨_, (wanted_eq sources).symm⟩).sublist
  have hrespects := settleAll_respects tree hopens names
  rw [hsettle] at hrespects
  obtain ⟨htree, hconfined, -⟩ := hrespects
  have hopens' := hconfined.opens hopens
  have haggregate : ¬ Touches location before (location ++ [aggregateName]) := by
    rintro ⟨name, hname, hsame⟩
    obtain ⟨variant, rfl⟩ := exists_of_mem_keys hpre hname
    exact aggregateName_ne variant (by simpa using hsame)
  refine ⟨fun parent hparent => ?aggregate, fun parent hparent => ?text,
    fun parent hparent variant => ?variant, fun other hother => ?others⟩
  case aggregate =>
    obtain rfl := hparent.unique hopens'
    rw [Disk.content?_congr (hconfined.frame haggregate), hgrown.content?_eq]
  case text =>
    obtain rfl := hthere parent hparent
    rw [htree.readText_child hopens' isName_aggregateName,
      tree.readText_child hopens isName_aggregateName, hconfined.frame haggregate]
  case variant =>
    obtain rfl := hparent.unique hopens'
    -- Either the run came to the file of the variant before it failed, or it left the file alone.
    by_cases hname : variant.outputFileName ∈ OrderedMap.keys before
    · obtain ⟨⟨name, text?⟩, hmem, hsame⟩ := List.mem_map.mp hname
      obtain rfl : name = variant.outputFileName := hsame
      obtain rfl := eq_of_mem_variantFiles (hpre.subset hmem)
      refine (get?_of_settleAll tree hopens names hsettle hmem).imp_left fun hkept => ?_
      rw [Disk.content?_congr hkept, hgrown.content?_eq]
    · refine .inl ?_
      rw [Disk.content?_congr (hconfined.frame ?_), hgrown.content?_eq]
      rintro ⟨name, hmem, hsame⟩
      have hsame : variant.outputFileName = name := by simpa using hsame
      exact hname (hsame ▸ hmem)
  case others =>
    rw [Disk.content?_congr (hconfined.frame ?_), hgrown.content?_eq]
    rintro ⟨name, hname, rfl⟩
    obtain ⟨variant, rfl⟩ := exists_of_mem_keys hpre hname
    exact hother location variant hopens' rfl

/-- Nothing but directories on the way can have been created before the directory is there. -/
theorem spared_of_grown {disk next : Disk} {directory : Path} {sources : List GeneratedSource}
    (hgrown : Disk.Grown disk next) (hmissing : ∀ parent, ¬ disk.Opens directory parent) :
    Spared directory sources disk next where
  content?_aggregate _ _ := hgrown.content?_eq _
  readText_aggregate parent hparent := absurd hparent (hmissing parent)
  variant _ _ _ := .inl (hgrown.content?_eq _)
  frame _ _ := hgrown.content?_eq _

/-- **A failed update leaves the file with all sources as it was**, on a disk of files and
directories, whatever is in the way: it fails before that file is written. The file of a variant is
as it was or as wanted, and no other file is changed. -/
theorem failed_update_spares {disk next : Disk} (tree : disk.IsTree) {directory : Path}
    {sources : List GeneratedSource} {fault : IoFault}
    (hfail : update directory sources disk = .error fault next) :
    Spared directory sources disk next := by
  have hcreated := Action.createDirectories_respects tree directory
  have hthere : ∀ {parent}, disk.Opens directory parent →
      Action.createDirectories directory disk = .ok () disk :=
    fun hparent => Action.createDirectories_of_opens tree hparent
  rw [update_eq] at hfail
  rcases Action.cases_of_bind_error hfail with hcreate | ⟨_, middle, hcreate, hfail⟩
  · -- Creating a directory that is there does not fail, so the directory was not there.
    rw [hcreate] at hcreated
    exact spared_of_grown hcreated.2 fun parent hparent =>
      nomatch hcreate.symm.trans (hthere hparent)
  · rw [hcreate] at hcreated
    obtain ⟨htree, hgrown, location, hopens⟩ := hcreated
    -- Once the files are settled, nothing is left that could fail.
    have hsettle : settleAll directory (wanted sources) middle = .error fault next :=
      (Action.cases_of_bind_error hfail).resolve_right fun ⟨_, _, _, hdone⟩ => nomatch hdone
    obtain ⟨before, hpre, hbefore⟩ := exists_prefix_of_settleAll_error htree hopens hsettle
    refine spared_of_settleAll hgrown (fun parent hparent => ?_) htree hopens hpre hbefore
    cases hcreate.symm.trans (hthere hparent)
    rfl

/-- A directory in place of the internal file, and older output files. -/
def obstructed : Disk where
  entries := [(["out"], .directory), (["out", "settings_generated.rs"], .file (.text "old")),
    (["out", "internal_settings_generated.rs"], .directory),
    (["out", "settingsgen.rs"], .file (.text "all"))]
  workingDirectory := []
  written := []

theorem failed_update_spares_obstructed :
    let sources : List GeneratedSource := [⟨.publicSettings, "new"⟩]
    let next := obstructed.withFile ["out", "settings_generated.rs"] (.text "new")
    obstructed.IsTree ∧ update ⟨"out"⟩ sources obstructed = .error .isDirectory next ∧
      Spared ⟨"out"⟩ sources obstructed next := by
  intro sources next
  have tree : obstructed.IsTree := by decide
  have tree' : next.IsTree := by decide
  have hopens : obstructed.Opens ⟨"out"⟩ ["out"] := by decide
  have hopens' : next.Opens ⟨"out"⟩ ["out"] := by decide
  have hcheck : ∀ name ∈ fileNames, Disk.checkChild ⟨"out"⟩ name = .ok () := by decide
  have hpublic : settle (Path.child ⟨"out"⟩ "settings_generated.rs") (some "new") obstructed =
      .ok () next := by
    rw [settle_child tree hopens (by decide), hcheck _ (by decide)]
    rfl
  have hinternal : settle (Path.child ⟨"out"⟩ "internal_settings_generated.rs") none next =
      .error .isDirectory next := by
    rw [settle_child tree' hopens' (by decide), hcheck _ (by decide)]
    rfl
  have hfail : update ⟨"out"⟩ sources obstructed = .error .isDirectory next := by
    have hwanted : wanted sources = [("settings_generated.rs", some "new"),
      ("internal_settings_generated.rs", none), ("settingsgen.rs", some "new")] := rfl
    rw [update_eq, Action.bind_of_ok (Action.createDirectories_of_opens tree hopens), hwanted,
      settleAll, Action.bind_of_error]
    rw [Action.bind_of_ok hpublic, settleAll, Action.bind_of_error hinternal]
  exact ⟨tree, hfail, failed_update_spares tree hfail⟩

end Output

end TypedSettings

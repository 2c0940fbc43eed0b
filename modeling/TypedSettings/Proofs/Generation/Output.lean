import Mathlib
import TypedSettings.Generation.Output
import TypedSettings.Proofs.FileTree.Change

/-!
# Updated output files

Every output file is either to hold a text or to be gone, and an update settles one after the other.
A settled file is seen to be so, and settling it again changes nothing.

Main facts:
- `Output.wanted`, `Output.update_eq`: an update settles the wanted state of each file
- `Output.settle_child`: what settling one file does
- `Output.settleAll_respects`, `Output.settleAll_eq_ok`, `Output.settleAll_eq_self`: what settling
  several files does, when it cannot fail and when it does nothing
- `Output.update_respects`: the outcome of an update
-/

namespace TypedSettings

/-! ## §1 Settled entries -/

/-- The entry of a file that holds a text, or none. -/
def fileOf? (text? : Option String) : Option Entry := text?.map fun text => .file (.text text)

/-- The disk on which a file holds a text or is gone; it is left alone if it is that disk. -/
def Disk.settle (disk : Disk) (location : Location) (text? : Option String) : Disk :=
  if disk.get? location = fileOf? text? then disk
  else match text? with
    | some text => disk.withFile location (.text text)
    | none => disk.without location

namespace Disk

variable {disk : Disk} {location : Location} {text? : Option String}

theorem settle_eq_self (h : disk.get? location = fileOf? text?) :
    disk.settle location text? = disk := if_pos h

theorem IsTree.edit_settle (tree : disk.IsTree) (h : location ≠ []) :
    disk.Edit location (fileOf? text?) (disk.settle location text?) := by
  by_cases hsettled : disk.get? location = fileOf? text?
  · rw [settle_eq_self hsettled]
    refine ⟨tree.nodup, rfl, fun other => ?_⟩
    split
    next heq => rw [← heq, hsettled]
    next => rfl
  · cases text? with
    | some text =>
      rw [settle, if_neg hsettled]
      exact tree.edit_withFile (.text text) h
    | none =>
      rw [settle, if_neg hsettled]
      exact tree.edit_without h

end Disk

namespace Output

/-! ## §2 The wanted files -/

/-- Makes a file hold a text or be gone. -/
def settle (path : Path) : Option String → Action IoFault Unit
  | some text => refresh path text
  | none => removeIfPresent path

/-- Settles files of a directory, one after the other. -/
def settleAll (directory : Path) : OrderedMap String (Option String) → Action IoFault Unit
  | [] => pure ()
  | (name, text?) :: rest => do
    settle (directory.child name) text?
    settleAll directory rest

/-- What each output file is to hold, if anything. -/
def wanted (sources : List GeneratedSource) : OrderedMap String (Option String) :=
  [(Variant.publicSettings.outputFileName,
      (sourceOf? sources .publicSettings).map GeneratedSource.text),
    (Variant.internalSettings.outputFileName,
      (sourceOf? sources .internalSettings).map GeneratedSource.text),
    (aggregateName, some (aggregate sources))]

/-- The paths of the files that hold a text. -/
def presentPaths (directory : Path) (files : OrderedMap String (Option String)) : List Path :=
  files.filterMap fun (name, text?) => text?.map fun _ => directory.child name

/-- The names of the output files. -/
def fileNames : List String :=
  [Variant.publicSettings.outputFileName, Variant.internalSettings.outputFileName, aggregateName]

theorem keys_wanted (sources : List GeneratedSource) :
    OrderedMap.keys (wanted sources) = fileNames := rfl

theorem isName_of_mem_fileNames {name : String} (h : name ∈ fileNames) : Path.IsName name := by
  revert name
  decide

/-- The files are different, and entries can have their names. -/
structure HasNames (files : OrderedMap String (Option String)) : Prop where
  nodup : (OrderedMap.keys files).Nodup
  isName : ∀ name ∈ OrderedMap.keys files, Path.IsName name

theorem HasNames.tail {name : String} {text? : Option String}
    {files : OrderedMap String (Option String)} (h : HasNames ((name, text?) :: files)) :
    name ∉ OrderedMap.keys files ∧ HasNames files := by
  have hnodup := h.nodup
  rw [OrderedMap.keys_cons, List.nodup_cons] at hnodup
  exact ⟨hnodup.1, hnodup.2, fun other hother => h.isName other (List.mem_cons_of_mem _ hother)⟩

theorem hasNames_wanted (sources : List GeneratedSource) : HasNames (wanted sources) := by
  refine ⟨?_, fun name => isName_of_mem_fileNames⟩
  rw [keys_wanted]
  decide

theorem update_eq (directory : Path) (sources : List GeneratedSource) :
    update directory sources = (do
      Action.createDirectories directory
      settleAll directory (wanted sources)
      return presentPaths directory (wanted sources)) := by
  simp only [update, updateVariant, wanted, settleAll, presentPaths]
  cases sourceOf? sources .publicSettings <;> cases sourceOf? sources .internalSettings <;>
    simp [settle]

/-! ## §3 One file -/

section

variable {disk : Disk} {directory : Path} {location : Location} {name : String}

theorem refresh_child (tree : disk.IsTree) (h : disk.Opens directory location)
    (hname : Path.IsName name) (text : String) :
    refresh (directory.child name) text disk =
      match Disk.checkChild directory name with
      | .error fault => .error fault disk
      | .ok _ =>
        if disk.get? (location ++ [name]) = some .directory then .error .isDirectory disk
        else .ok () (disk.settle (location ++ [name]) (some text)) := by
  rw [refresh, tree.readText_child h hname, Action.write_child tree h hname, Disk.settle, fileOf?]
  cases Disk.checkChild directory name with
  | error fault => rfl
  | ok _ =>
    cases disk.get? (location ++ [name]) with
    | none => rfl
    | some found =>
      cases found with
      | directory => rfl
      | link target => rfl
      -- Only a file that holds the very text is left alone.
      | file content =>
        cases content with
        | binary bytes => rfl
        | text existing =>
          by_cases hsame : existing = text
          · simp [hsame, bind, Except.bind, pure, Except.pure]
          · simp [hsame, bind, Except.bind, pure, Except.pure]

theorem removeIfPresent_child (tree : disk.IsTree) (h : disk.Opens directory location)
    (hname : Path.IsName name) :
    removeIfPresent (directory.child name) disk =
      match Disk.checkChild directory name with
      | .error _ => .ok () disk
      | .ok _ =>
        if disk.get? (location ++ [name]) = some .directory then .error .isDirectory disk
        else .ok () (disk.settle (location ++ [name]) none) := by
  rw [removeIfPresent, Disk.pathExists, tree.find?_child h hname,
    Action.removeFile_child tree h hname, Disk.settle, fileOf?]
  cases Disk.checkChild directory name with
  | error fault => rfl
  | ok _ =>
    cases disk.get? (location ++ [name]) with
    | none => rfl
    | some found => cases found <;> rfl

/-- What settling an entry does. Where no file system takes its path, nothing can be written, but
nothing is seen there either. -/
theorem settle_child (tree : disk.IsTree) (h : disk.Opens directory location)
    (hname : Path.IsName name) (text? : Option String) :
    settle (directory.child name) text? disk =
      match Disk.checkChild directory name with
      | .error fault => if text?.isSome then .error fault disk else .ok () disk
      | .ok _ =>
        if disk.get? (location ++ [name]) = some .directory then .error .isDirectory disk
        else .ok () (disk.settle (location ++ [name]) text?) := by
  cases text? with
  | some text =>
    rw [settle, refresh_child tree h hname]
    rfl
  | none =>
    rw [settle, removeIfPresent_child tree h hname]
    rfl

/-- A settled entry is seen to be so, and no other entry is changed. -/
theorem settle_respects (tree : disk.IsTree) (h : disk.Opens directory location)
    (hname : Path.IsName name) (text? : Option String) :
    Action.Respects (Disk.Confined (· = location ++ [name]))
      (fun next => next.find? (directory.child name) = fileOf? text?) disk
      (settle (directory.child name) text? disk) := by
  rw [settle_child tree h hname]
  have hfind := fun {next : Disk} (tree : next.IsTree) (h : next.Opens directory location) =>
    tree.find?_child h hname
  cases hcheck : Disk.checkChild directory name with
  | error fault =>
    -- Where nothing can be written nothing is seen, so a file that is to go is gone.
    cases text? with
    | some text => exact ⟨tree, .refl _ _⟩
    | none => exact ⟨tree, .refl _ _, (hfind tree h).trans (by rw [hcheck]; rfl)⟩
  | ok _ =>
    dsimp only
    split
    next => exact ⟨tree, .refl _ _⟩
    next hdirectory =>
      have hedit : disk.Edit (location ++ [name]) (fileOf? text?)
          (disk.settle (location ++ [name]) text?) :=
        tree.edit_settle (by simp)
      have hkeeps : disk.get? (location ++ [name]) = some .directory →
          fileOf? text? = some .directory := fun h => absurd h hdirectory
      have hconfined := Disk.Confined.of_edit hedit hkeeps
      have htree : (disk.settle (location ++ [name]) text?).IsTree :=
        tree.of_edit hedit (tree.get?_of_opens h) hname (by cases text? <;> simp [fileOf?]) hkeeps
      refine ⟨htree, hconfined, (hfind htree (hconfined.opens h)).trans ?_⟩
      rw [hcheck]
      exact (hedit.get? _).trans (if_pos rfl)

/-- A settled entry is left alone. -/
theorem settle_eq_self (tree : disk.IsTree) (h : disk.Opens directory location)
    (hname : Path.IsName name) {text? : Option String}
    (hsettled : disk.find? (directory.child name) = fileOf? text?) :
    settle (directory.child name) text? disk = .ok () disk := by
  rw [tree.find?_child h hname] at hsettled
  rw [settle_child tree h hname]
  cases hcheck : Disk.checkChild directory name with
  | error fault =>
    rw [hcheck] at hsettled
    cases text? with
    | some text => cases hsettled
    | none => rfl
  | ok _ =>
    rw [hcheck] at hsettled
    dsimp only at hsettled ⊢
    rw [Disk.settle_eq_self hsettled, hsettled, if_neg (by cases text? <;> simp [fileOf?])]

end

/-! ## §4 All files -/

/-- The locations of the files in a directory. -/
def Touches (location : Location) (files : OrderedMap String (Option String)) (other : Location) :
    Prop := ∃ name ∈ OrderedMap.keys files, other = location ++ [name]

/-- Each of the files is seen to hold its text or to be gone. -/
def Settled (directory : Path) (files : OrderedMap String (Option String)) (disk : Disk) : Prop :=
  ∀ name text?, (name, text?) ∈ files → disk.find? (directory.child name) = fileOf? text?

/-- What is seen of the file of a variant. -/
theorem Settled.find?_variant {directory : Path} {sources : List GeneratedSource} {disk : Disk}
    (h : Settled directory (wanted sources) disk) (variant : Variant) :
    disk.find? (directory.child variant.outputFileName) =
      fileOf? ((sourceOf? sources variant).map GeneratedSource.text) := by
  cases variant <;> exact h _ _ (by simp [wanted])

section

variable {directory : Path} {location : Location} {files : OrderedMap String (Option String)}

/-- Settling files one after the other settles each of them and changes nothing else. -/
theorem settleAll_respects {disk : Disk} (tree : disk.IsTree) (h : disk.Opens directory location)
    (names : HasNames files) :
    Action.Respects (Disk.Confined (Touches location files)) (Settled directory files) disk
      (settleAll directory files disk) := by
  induction files generalizing disk with
  | nil => exact ⟨tree, .refl _ _, nofun⟩
  | cons file rest ih =>
    obtain ⟨name, text?⟩ := file
    obtain ⟨hnew, hrest⟩ := names.tail
    have hname := names.isName name List.mem_cons_self
    have hfirst : ∀ {next}, Disk.Confined (· = location ++ [name]) disk next →
        Disk.Confined (Touches location ((name, text?) :: rest)) disk next :=
      fun hconfined => hconfined.mono fun other hother => ⟨name, List.mem_cons_self, hother⟩
    rw [settleAll]
    refine (settle_respects tree h hname text?).bind hfirst
      fun {_ middle} htree hconfined hfind => ?_
    refine (ih htree (hconfined.opens h) hrest).imp ?_ ?_
    · intro next hothers
      refine (hfirst hconfined).trans (hothers.mono ?_)
      exact fun other ⟨last, hlast, hother⟩ => ⟨last, List.mem_cons_of_mem _ hlast, hother⟩
    · intro next htree' hothers hsettled other other? hmem
      rcases List.mem_cons.mp hmem with heq | hmem
      -- The files after the first have other names, so they leave it settled.
      · obtain ⟨rfl, rfl⟩ := Prod.mk.inj heq
        rw [hothers.find?_child htree htree' (hconfined.opens h) hname, hfind]
        rintro ⟨last, hlast, heq⟩
        obtain rfl : other = last := by simpa using heq
        exact hnew hlast
      · exact hsettled other other? hmem

/-- Files that are settled already are left alone. -/
theorem settleAll_eq_self {disk : Disk} (tree : disk.IsTree) (h : disk.Opens directory location)
    (names : HasNames files) (hsettled : Settled directory files disk) :
    settleAll directory files disk = .ok () disk := by
  induction files with
  | nil => rfl
  | cons file rest ih =>
    obtain ⟨name, text?⟩ := file
    have hfirst := settle_eq_self tree h (names.isName name List.mem_cons_self)
      (hsettled name text? List.mem_cons_self)
    rw [settleAll, Action.bind_of_ok hfirst]
    exact ih names.tail.2 fun other other? hmem =>
      hsettled other other? (List.mem_cons_of_mem _ hmem)

/-- Nothing fails where all paths are taken and no directory is in the way. -/
theorem settleAll_eq_ok {disk : Disk} (tree : disk.IsTree) (h : disk.Opens directory location)
    (names : HasNames files)
    (hcheck : ∀ name ∈ OrderedMap.keys files, Disk.checkChild directory name = .ok ())
    (hfree : ∀ name ∈ OrderedMap.keys files, disk.get? (location ++ [name]) ≠ some .directory) :
    ∃ next, settleAll directory files disk = .ok () next := by
  induction files generalizing disk with
  | nil => exact ⟨disk, rfl⟩
  | cons file rest ih =>
    obtain ⟨name, text?⟩ := file
    obtain ⟨hnew, hrest⟩ := names.tail
    have hname := names.isName name List.mem_cons_self
    have hsettle : settle (directory.child name) text? disk =
        .ok () (disk.settle (location ++ [name]) text?) := by
      rw [settle_child tree h hname, hcheck name List.mem_cons_self]
      exact if_neg (hfree name List.mem_cons_self)
    have hfirst := settle_respects tree h hname text?
    rw [hsettle] at hfirst
    obtain ⟨htree, hconfined, -⟩ := hfirst
    rw [settleAll, Action.bind_of_ok hsettle]
    refine ih htree (hconfined.opens h) hrest
      (fun other hother => hcheck other (List.mem_cons_of_mem _ hother)) fun other hother => ?_
    -- The first file has another name, so it is not in the way of the others.
    rw [hconfined.frame]
    · exact hfree other (List.mem_cons_of_mem _ hother)
    · intro heq
      obtain rfl : other = name := by simpa using heq
      exact hnew hother

end

/-! ## §5 Updates -/

/-- `next` has all directories of `disk`, and the same files apart from output files of the
directory. -/
structure Updated (directory : Path) (disk next : Disk) : Prop extends Disk.Extends disk next where
  frame : ∀ {location : Location} {content : Content},
    (∀ parent name, next.Opens directory parent → name ∈ fileNames → location ≠ parent ++ [name]) →
    (next.get? location = some (.file content) ↔ disk.get? location = some (.file content))

section

variable {disk : Disk} {directory : Path} {location : Location}

/-- An update that does not fail leaves the output files as wanted; whether it fails or not, it
changes no other file. -/
theorem update_respects (tree : disk.IsTree) (directory : Path) (sources : List GeneratedSource) :
    Action.Respects (Updated directory)
      (fun next => Action.Ready directory next ∧ Settled directory (wanted sources) next) disk
      (update directory sources disk) := by
  rw [update_eq]
  refine (Action.createDirectories_respects tree directory).bind
    (fun hgrown => ⟨hgrown.toExtends, fun _ => hgrown.get?_eq_file_iff⟩)
    fun {_ middle} htree hgrown ⟨location, hopens⟩ => ?_
  have hupdated : ∀ {next : Disk}, Disk.Confined (Touches location (wanted sources)) middle next →
      Updated directory disk next := by
    intro next hconfined
    refine ⟨hgrown.toExtends.trans hconfined.toExtends, fun {other content} hother => ?_⟩
    rw [hconfined.frame, hgrown.get?_eq_file_iff]
    rintro ⟨name, hname, heq⟩
    exact hother location name (hconfined.opens hopens) hname heq
  exact (settleAll_respects htree hopens (hasNames_wanted sources)).bind hupdated
    fun htree' hconfined hsettled =>
      ⟨htree', hupdated hconfined, ⟨location, hconfined.opens hopens⟩, hsettled⟩

/-- An update of files that are as wanted already does nothing. -/
theorem update_eq_self (tree : disk.IsTree) {sources : List GeneratedSource}
    (h : disk.Opens directory location) (hsettled : Settled directory (wanted sources) disk) :
    update directory sources disk = .ok (presentPaths directory (wanted sources)) disk := by
  rw [update_eq, Action.bind_of_ok (Action.createDirectories_of_opens tree h),
    Action.bind_of_ok (settleAll_eq_self tree h (hasNames_wanted sources) hsettled)]
  rfl

/-- An update of a directory does not fail where all paths are taken and no directory is in the
way. -/
theorem update_eq_ok (tree : disk.IsTree) (sources : List GeneratedSource)
    (h : disk.Opens directory location)
    (hcheck : ∀ name ∈ fileNames, Disk.checkChild directory name = .ok ())
    (hfree : ∀ name ∈ fileNames, disk.get? (location ++ [name]) ≠ some .directory) :
    ∃ next, update directory sources disk = .ok (presentPaths directory (wanted sources)) next := by
  obtain ⟨next, hsettle⟩ := settleAll_eq_ok tree h (hasNames_wanted sources) hcheck hfree
  refine ⟨next, ?_⟩
  rw [update_eq, Action.bind_of_ok (Action.createDirectories_of_opens tree h),
    Action.bind_of_ok hsettle]
  rfl

end

end Output

end TypedSettings

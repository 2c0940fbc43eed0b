import Mathlib
import TypedSettings.Proofs.FileTree.Tree

/-!
# Changes of trees

An operation changes one entry, and it takes no directory away. Trees therefore stay trees, a path
that leads to a directory goes on leading to it, and of the other entries none changes, except that
a directory may appear where nothing was.

Main facts:
- `Disk.Edit`: one changed entry
- `Disk.Extends`, `Disk.Grown`, `Disk.Confined`: what is kept
- `Action.createDirectories_respects_of`, `Action.createDirectories_respects`: a directory is
  created with its parents, and nothing else is changed
- `Action.createDirectories_of_opens`: a directory that is there is not created again
-/

namespace TypedSettings

/-- The disk that an action leaves behind, whether it fails or not. -/
def Action.after {ε α : Type} (action : Action ε α) (disk : Disk) : Disk :=
  match action disk with
  | .ok _ next => next
  | .error _ next => next

namespace Action

variable {ε α β : Type} {first : Action ε α} {second : α → Action ε β} {disk next : Disk}

/-- After a success the second action runs on the disk that the first leaves. -/
theorem bind_of_ok {a : α} (h : first disk = .ok a next) :
    (first >>= second) disk = second a next := by
  change EStateM.bind first second disk = _
  rw [EStateM.bind, h]

theorem bind_of_error {e : ε} (h : first disk = .error e next) :
    (first >>= second) disk = .error e next := by
  change EStateM.bind first second disk = _
  rw [EStateM.bind, h]

/-- A sequence that succeeds has succeeded half way. -/
theorem exists_of_bind_ok {b : β} (h : (first >>= second) disk = .ok b next) :
    ∃ a middle, first disk = .ok a middle ∧ second a middle = .ok b next := by
  cases hfirst : first disk with
  | ok a middle =>
    rw [bind_of_ok hfirst] at h
    exact ⟨a, middle, rfl, h⟩
  | error e middle =>
    rw [bind_of_error hfirst] at h
    cases h

/-- A sequence that fails has failed at once or half way. -/
theorem cases_of_bind_error {e : ε} (h : (first >>= second) disk = .error e next) :
    first disk = .error e next ∨
      ∃ a middle, first disk = .ok a middle ∧ second a middle = .error e next := by
  cases hfirst : first disk with
  | ok a middle =>
    rw [bind_of_ok hfirst] at h
    exact .inr ⟨a, middle, rfl, h⟩
  | error e middle =>
    rw [bind_of_error hfirst] at h
    cases h
    exact .inl rfl

/-- A change that is made has found its location. -/
theorem exists_of_changeAt_ok {locate : Disk → Except IoFault Location}
    {change : Disk → Location → Disk} (h : changeAt locate change disk = .ok () next) :
    ∃ location, locate disk = .ok location ∧ next = change disk location := by
  rw [changeAt] at h
  cases hlocate : locate disk with
  | error fault =>
    rw [hlocate] at h
    cases h
  | ok location =>
    rw [hlocate] at h
    cases h
    exact ⟨location, rfl, rfl⟩

end Action

namespace Disk

/-! ## §1 One entry -/

/-- `next` is `disk` with another entry, or none, left at one location. -/
structure Edit (disk : Disk) (location : Location) (left : Option Entry) (next : Disk) : Prop where
  nodup : (OrderedMap.keys next.entries).Nodup
  workingDirectory : next.workingDirectory = disk.workingDirectory
  get? : ∀ other, next.get? other = if location = other then left else disk.get? other

section

variable {disk : Disk} {location : Location}

theorem IsTree.edit_withDirectory (tree : disk.IsTree) (h : location ≠ []) :
    disk.Edit location (some .directory) (disk.withDirectory location) :=
  ⟨OrderedMap.nodup_keys_insert tree.nodup, rfl, fun _ => disk.get?_withDirectory h⟩

theorem IsTree.edit_withFile (tree : disk.IsTree) (content : Content) (h : location ≠ []) :
    disk.Edit location (some (.file content)) (disk.withFile location content) :=
  ⟨OrderedMap.nodup_keys_insert tree.nodup, rfl, fun _ => disk.get?_withFile content h⟩

theorem IsTree.edit_without (tree : disk.IsTree) (h : location ≠ []) :
    disk.Edit location none (disk.without location) :=
  ⟨(List.filter_sublist.map Prod.fst).nodup tree.nodup, rfl, fun _ => disk.get?_without h⟩

/-- A tree stays one if an entry of a directory gets another content, becomes a directory or goes,
as long as no directory goes. -/
theorem IsTree.of_edit {next : Disk} {parent : Location} {name : String} {left : Option Entry}
    (tree : disk.IsTree) (h : disk.Edit (parent ++ [name]) left next)
    (hparent : disk.get? parent = some .directory) (hname : Path.IsName name)
    (hlink : ∀ target, left ≠ some (.link target))
    (hkeeps : disk.get? (parent ++ [name]) = some .directory → left = some .directory) :
    next.IsTree := by
  have hdirectory : ∀ other, disk.get? other = some .directory →
      next.get? other = some .directory := by
    intro other hother
    rw [h.get?]
    split
    next heq => exact hkeeps (heq ▸ hother)
    next => exact hother
  refine ⟨h.nodup, fun other target => ?noLink, fun {other last entry} hentry => ?isName,
    fun {other last entry} hentry => ?parent, ?start⟩
  case noLink =>
    rw [h.get?]
    split
    · exact hlink target
    · exact tree.noLink other target
  case isName =>
    rw [h.get?] at hentry
    split at hentry
    next heq =>
      obtain ⟨rfl, rfl⟩ := List.concat_inj.mp (by simpa using heq)
      exact hname
    next => exact tree.isName hentry
  case parent =>
    rw [h.get?] at hentry
    split at hentry
    next heq =>
      obtain ⟨rfl, rfl⟩ := List.concat_inj.mp (by simpa using heq)
      exact hdirectory _ hparent
    next => exact hdirectory _ (tree.parent hentry)
  case start =>
    rw [h.workingDirectory]
    exact hdirectory _ tree.start

end

/-! ## §2 Kept directories -/

/-- `next` has all directories of `disk`. -/
structure Extends (disk next : Disk) : Prop where
  workingDirectory : next.workingDirectory = disk.workingDirectory
  keeps : ∀ {location}, disk.get? location = some .directory → next.get? location = some .directory

/-- `next` is `disk` with more directories. -/
structure Grown (disk next : Disk) : Prop extends Extends disk next where
  frame : ∀ location, next.get? location = disk.get? location ∨
    disk.get? location = none ∧ next.get? location = some .directory

/-- `next` has all directories of `disk`, and all other entries that are not touched. -/
structure Confined (touched : Location → Prop) (disk next : Disk) : Prop
    extends Extends disk next where
  frame : ∀ {location}, ¬ touched location → next.get? location = disk.get? location

namespace Extends

variable {disk middle next : Disk}

theorem refl (disk : Disk) : Extends disk disk := ⟨rfl, id⟩

theorem trans (h : Extends disk middle) (h' : Extends middle next) : Extends disk next :=
  ⟨h'.workingDirectory.trans h.workingDirectory, fun hdirectory => h'.keeps (h.keeps hdirectory)⟩

theorem origin (h : Extends disk next) (path : Path) : next.origin path = disk.origin path := by
  rw [Disk.origin, Disk.origin, h.workingDirectory]

theorem enter? (h : Extends disk next) {origin location : Location} {name : String}
    (henter : disk.enter? origin name = some location) :
    next.enter? origin name = some location := by
  rw [Disk.enter?] at henter ⊢
  split_ifs at henter with hstay hup hlong hentry
  · rw [if_pos hstay, henter]
  · rw [if_neg hstay, if_pos hup, henter]
  · rw [if_neg hstay, if_neg hup, if_neg hlong, if_pos (h.keeps hentry), henter]

theorem follow? (h : Extends disk next) {origin location : Location} {names : List String}
    (hfollow : disk.follow? origin names = some location) :
    next.follow? origin names = some location := by
  induction names generalizing origin with
  | nil => exact hfollow
  | cons name rest ih =>
    rw [follow?_cons, Option.bind_eq_some_iff] at hfollow ⊢
    obtain ⟨middle, henter, hrest⟩ := hfollow
    exact ⟨middle, h.enter? henter, ih hrest⟩

/-- A path goes on leading to its directory. -/
theorem opens (h : Extends disk next) {path : Path} {location : Location}
    (hopens : disk.Opens path location) : next.Opens path location :=
  ⟨hopens.valid, by rw [h.origin]; exact h.follow? hopens.follow⟩

theorem of_edit {location : Location} {left : Option Entry} (h : disk.Edit location left next)
    (hkeeps : disk.get? location = some .directory → left = some .directory) :
    Extends disk next := by
  refine ⟨h.workingDirectory, fun {other} hother => ?_⟩
  rw [h.get?]
  split
  next heq => exact hkeeps (heq ▸ hother)
  next => exact hother

end Extends

namespace Grown

variable {disk middle next : Disk}

theorem refl (disk : Disk) : Grown disk disk := ⟨.refl disk, fun _ => .inl rfl⟩

theorem trans (h : Grown disk middle) (h' : Grown middle next) : Grown disk next := by
  refine ⟨h.toExtends.trans h'.toExtends, fun location => ?_⟩
  rcases h.frame location with heq | ⟨hnone, hdirectory⟩
  · rw [← heq]
    exact h'.frame location
  · exact .inr ⟨hnone, h'.keeps hdirectory⟩

theorem get?_eq_file_iff (h : Grown disk next) {location : Location} {content : Content} :
    next.get? location = some (.file content) ↔ disk.get? location = some (.file content) := by
  rcases h.frame location with heq | ⟨hnone, hdirectory⟩
  · rw [heq]
  · simp [hnone, hdirectory]

theorem of_edit {location : Location} (h : disk.Edit location (some .directory) next)
    (hnone : disk.get? location = none) : Grown disk next := by
  refine ⟨.of_edit h fun _ => rfl, fun other => ?_⟩
  rw [h.get?]
  split
  next heq => exact .inr ⟨heq ▸ hnone, rfl⟩
  next => exact .inl rfl

end Grown

namespace Confined

variable {touched wider : Location → Prop} {disk middle next : Disk}

theorem refl (touched : Location → Prop) (disk : Disk) : Confined touched disk disk :=
  ⟨.refl disk, fun _ => rfl⟩

theorem trans (h : Confined touched disk middle) (h' : Confined touched middle next) :
    Confined touched disk next :=
  ⟨h.toExtends.trans h'.toExtends, fun hfar => (h'.frame hfar).trans (h.frame hfar)⟩

theorem mono (h : Confined touched disk next)
    (hwider : ∀ location, touched location → wider location) : Confined wider disk next :=
  ⟨h.toExtends, fun hfar => h.frame fun htouched => hfar (hwider _ htouched)⟩

theorem of_edit {location : Location} {left : Option Entry} (h : disk.Edit location left next)
    (hkeeps : disk.get? location = some .directory → left = some .directory) :
    Confined (· = location) disk next :=
  ⟨.of_edit h hkeeps, fun hfar => by rw [h.get?, if_neg (Ne.symm hfar)]⟩

/-- An entry that is not touched is seen as before. -/
theorem find?_child (h : Confined touched disk next) (tree : disk.IsTree) (tree' : next.IsTree)
    {directory : Path} {location : Location} {name : String}
    (hopens : disk.Opens directory location) (hname : Path.IsName name)
    (hfar : ¬ touched (location ++ [name])) :
    next.find? (directory.child name) = disk.find? (directory.child name) := by
  rw [tree'.find?_child (h.opens hopens) hname, tree.find?_child hopens hname, h.frame hfar]

end Confined

/-- Another content of a file leaves a tree, with all that was there. -/
theorem IsTree.withFile_of_file {disk : Disk} (tree : disk.IsTree) {location : Location}
    {old : Content} (h : disk.get? location = some (.file old)) (new : Content) :
    (disk.withFile location new).IsTree ∧
      Confined (· = location) disk (disk.withFile location new) := by
  rcases location.eq_nil_or_concat with rfl | ⟨parent, name, rfl⟩
  · simp at h
  · rw [List.concat_eq_append] at h ⊢
    have hnew : parent ++ [name] ≠ [] := by simp
    have hedit := tree.edit_withFile new hnew
    have hkeeps : disk.get? (parent ++ [name]) = some .directory →
        some (Entry.file new) = some .directory := fun hdirectory => by
      rw [h] at hdirectory
      cases hdirectory
    exact ⟨tree.of_edit hedit (tree.parent h) (tree.isName h) (by simp) hkeeps,
      .of_edit hedit hkeeps⟩

/-! ## §3 New directories -/

/-- Where a directory is created. -/
theorem IsTree.of_vacancy {disk : Disk} (tree : disk.IsTree) {path : Path} {location : Location}
    (h : disk.vacancy path = .ok location) :
    ∃ before parent name, path.names = before ++ [name] ∧ location = parent ++ [name] ∧
      checkPath path = .ok () ∧ disk.follow? (disk.origin path) before = some parent ∧
      Path.IsName name ∧ ¬ isOverlong name ∧ disk.get? location = none := by
  obtain ⟨_, hcheck, h⟩ := exists_of_bind_eq_ok h
  cases hlast : path.names.getLast? with
  | none =>
    rw [hlast] at h
    cases h
  | some name =>
    obtain ⟨before, hnames⟩ := List.getLast?_eq_some_iff.mp hlast
    rw [hlast, hnames, List.dropLast_concat] at h
    obtain ⟨parent, hparent, h⟩ := exists_of_bind_eq_ok h
    split_ifs at h with hdots hlong hentry
    cases h
    rw [not_or] at hdots
    have hmem : name ∈ path.names := by simp [hnames]
    exact ⟨before, parent, name, hnames, rfl, hcheck, tree.resolveDirectory_eq_ok_iff.mp hparent,
      Path.isName_of_mem_names hmem hdots.1 hdots.2, hlong, by simpa using hentry⟩

/-- A directory can be created in one that is there, under a new name. -/
theorem IsTree.vacancy_eq_ok {disk : Disk} (tree : disk.IsTree) {path : Path}
    {before : List String} {name : String} {parent : Location} (hcheck : checkPath path = .ok ())
    (hnames : path.names = before ++ [name])
    (hparent : disk.follow? (disk.origin path) before = some parent) (hname : Path.IsName name)
    (hlong : ¬ isOverlong name) (hnone : disk.get? (parent ++ [name]) = none) :
    disk.vacancy path = .ok (parent ++ [name]) := by
  rw [vacancy, hcheck, hnames, List.getLast?_concat, List.dropLast_concat,
    tree.resolveDirectory_eq_ok_iff.mpr hparent]
  simp [bind, Except.bind, hname.ne_dot, hname.ne_dots, hlong, hnone, pure, Except.pure]

/-- No directory is created where a path leads to one. -/
theorem IsTree.vacancy_of_opens {disk : Disk} (tree : disk.IsTree) {path : Path}
    {location : Location} (h : disk.Opens path location) (hpath : path.text ≠ "") :
    disk.vacancy path = .error .alreadyExists := by
  have hfollow := h.follow
  rw [vacancy, h.valid.resolve_left hpath]
  dsimp only [bind, Except.bind]
  cases hlast : path.names.getLast? with
  | none => rfl
  | some name =>
    obtain ⟨before, hnames⟩ := List.getLast?_eq_some_iff.mp hlast
    rw [hnames, follow?_append, Option.bind_eq_some_iff] at hfollow
    obtain ⟨parent, hbefore, henter⟩ := hfollow
    rw [follow?_singleton, enter?] at henter
    have hmem : name ∈ path.names := by simp [hnames]
    have hne : name ≠ "" := (Path.of_mem_names hmem).1
    rw [hnames, List.dropLast_concat, tree.resolveDirectory_eq_ok_iff.mpr hbefore]
    dsimp only
    -- The last name leads nowhere new, or it was entered and so is there.
    by_cases hdots : name = "." ∨ name = ".."
    · rw [if_pos hdots]
      rfl
    · rw [if_neg hdots]
      rw [not_or] at hdots
      have hstay : ¬ staysInPlace name := by simp [staysInPlace, hdots.1, hne]
      rw [if_neg hstay, if_neg hdots.2] at henter
      split_ifs at henter with hlong hentry
      rw [if_neg hlong, hentry]
      rfl

end Disk

namespace Action

/-- The result leaves a tree that is in `relation` to the disk before; unless it is a failure,
`goal` holds of it. -/
def Respects {ε α : Type} (relation : Disk → Disk → Prop) (goal : Disk → Prop) (disk : Disk) :
    EStateM.Result ε Disk α → Prop
  | .ok _ next => next.IsTree ∧ relation disk next ∧ goal next
  | .error _ next => next.IsTree ∧ relation disk next

section

variable {ε α β : Type} {relation relation' : Disk → Disk → Prop} {goal goal' : Disk → Prop}
  {disk disk' : Disk}

theorem Respects.isTree {action : Action ε α} (h : Respects relation goal disk (action disk)) :
    (action.after disk).IsTree := by
  rw [after]
  revert h
  cases action disk with
  | ok a next => exact fun h => h.1
  | error e next => exact fun h => h.1

/-- A result respects whatever follows from what it respects. -/
theorem Respects.imp {result : EStateM.Result ε Disk α} (h : Respects relation goal disk result)
    (hrelation : ∀ {next}, relation disk next → relation' disk' next)
    (hgoal : ∀ {next}, next.IsTree → relation disk next → goal next → goal' next) :
    Respects relation' goal' disk' result := by
  cases result with
  | ok a next => exact ⟨h.1, hrelation h.2.1, hgoal h.1 h.2.1 h.2.2⟩
  | error e next => exact ⟨h.1, hrelation h.2⟩

/-- A sequence respects what its second action does from where the first leaves off. -/
theorem Respects.bind {first : Action ε α} {second : α → Action ε β}
    (h : Respects relation goal disk (first disk))
    (hfail : ∀ {next}, relation disk next → relation' disk' next)
    (hsecond : ∀ {a next}, next.IsTree → relation disk next → goal next →
      Respects relation' goal' disk' (second a next)) :
    Respects relation' goal' disk' ((first >>= second) disk) := by
  cases hfirst : first disk with
  | ok a next =>
    rw [hfirst] at h
    rw [bind_of_ok hfirst]
    exact hsecond h.1 h.2.1 h.2.2
  | error e next =>
    rw [hfirst] at h
    rw [bind_of_error hfirst]
    exact ⟨h.1, hfail h.2⟩

end

/-- Creates a directory that may be there already. -/
def ensureDirectory (path : Path) : Action IoFault Unit := fun disk =>
  match createDirectory path disk with
  | .ok _ next => .ok () next
  | .error fault next => if next.isDirectory path then .ok () next else .error fault next

/-- **One directory at a time**: it is created, or its parents are created first because one of them
is missing. -/
theorem createUnder_cases (parents : Action IoFault Unit) (path : Path) (disk : Disk) :
    createUnder parents path disk = ensureDirectory path disk ∨
      ∃ next, createDirectory path disk = .error .notFound next ∧
        createUnder parents path disk = (parents >>= fun _ => ensureDirectory path) next := by
  cases hcreate : createDirectory path disk with
  | ok a next =>
    left
    simp only [createUnder, ensureDirectory, hcreate]
  | error fault next =>
    by_cases hfault : fault = .notFound
    · subst hfault
      refine .inr ⟨next, rfl, ?_⟩
      cases hparents : parents next with
      | ok a middle =>
        have hafter : (parents >>= fun _ => ensureDirectory path) next =
            ensureDirectory path middle := bind_of_ok hparents
        cases hagain : createDirectory path middle <;>
          simp only [createUnder, ensureDirectory, hcreate, hparents, hafter, hagain]
      | error fault middle =>
        have hafter : (parents >>= fun _ => ensureDirectory path) next = .error fault middle :=
          bind_of_error hparents
        simp only [createUnder, hcreate, hparents, hafter]
    · left
      simp only [createUnder, ensureDirectory, hcreate]

/-- The path leads to a directory. -/
def Ready (path : Path) (disk : Disk) : Prop := ∃ location, disk.Opens path location

section

variable {relation : Disk → Disk → Prop} {disk : Disk} {path : Path}

/-- Where a directory is created, its path leads to it. -/
theorem createDirectory_respects (tree : disk.IsTree) (hrefl : relation disk disk)
    (hcreate : ∀ {location}, disk.vacancy path = .ok location →
      relation disk (disk.withDirectory location)) :
    Respects relation (Ready path) disk (createDirectory path disk) := by
  rw [createDirectory, changeAt]
  cases hvacancy : disk.vacancy path with
  | error fault => exact ⟨tree, hrefl⟩
  | ok location =>
    have hrelation := hcreate hvacancy
    obtain ⟨before, parent, name, hnames, rfl, hcheck, hfollow, hname, hlong, hnone⟩ :=
      tree.of_vacancy hvacancy
    have hedit : disk.Edit (parent ++ [name]) (some .directory)
        (disk.withDirectory (parent ++ [name])) :=
      tree.edit_withDirectory (by simp)
    have hgrown := Disk.Grown.of_edit hedit hnone
    have hparent := tree.get?_of_follow? (tree.get?_origin path) hfollow
    refine ⟨tree.of_edit hedit hparent hname nofun fun _ => rfl, hrelation, parent ++ [name],
      .inr hcheck, ?_⟩
    rw [hnames, Disk.follow?_append, hgrown.origin, hgrown.follow? hfollow, Option.bind_some,
      Disk.follow?_singleton]
    exact Disk.enter?_eq_some hname hlong (by rw [hedit.get?, if_pos rfl])

theorem ensureDirectory_respects
    (h : Respects relation (Ready path) disk (createDirectory path disk)) :
    Respects relation (Ready path) disk (ensureDirectory path disk) := by
  rw [ensureDirectory]
  cases hcreate : createDirectory path disk with
  | ok a next =>
    rw [hcreate] at h
    exact h
  | error fault next =>
    rw [hcreate] at h
    obtain ⟨tree, hrelation⟩ := h
    dsimp only
    split
    next hthere => exact ⟨tree, hrelation, tree.exists_opens_of_isDirectory hthere⟩
    next => exact ⟨tree, hrelation⟩

theorem createUnder_respects {parents : Action IoFault Unit} {goal : Disk → Prop}
    (hfirst : ∀ {disk : Disk}, disk.IsTree →
      Respects relation (Ready path) disk (createDirectory path disk))
    (hparents : ∀ {disk : Disk}, disk.IsTree → Respects relation goal disk (parents disk))
    (htrans : ∀ {disk middle next}, relation disk middle → relation middle next →
      relation disk next)
    (tree : disk.IsTree) :
    Respects relation (Ready path) disk (createUnder parents path disk) := by
  rcases createUnder_cases parents path disk with heq | ⟨next, hmissing, heq⟩
  · rw [heq]
    exact ensureDirectory_respects (hfirst tree)
  · have htried := hfirst tree
    rw [hmissing] at htried
    obtain ⟨tree, hnext⟩ := htried
    rw [heq]
    refine (hparents tree).bind (htrans hnext) fun tree hmiddle _ => ?_
    exact (ensureDirectory_respects (hfirst tree)).imp (htrans (htrans hnext hmiddle))
      fun _ _ hready => hready

end

/-- The paths under which directories are created for a path: its own, and those of its first
names. -/
inductive OnWay (path : Path) : Path → Prop where
  | self : OnWay path path
  | before {names : List String} (h : names <+: path.significantNames) :
      OnWay path (pathOf path.isAbsolute names)

section

variable {relation : Disk → Disk → Prop} {path : Path}

theorem createAncestors_respects (hrefl : ∀ disk, relation disk disk)
    (htrans : ∀ {disk middle next}, relation disk middle → relation middle next →
      relation disk next)
    (hcreate : ∀ {disk other location}, disk.IsTree → OnWay path other →
      disk.vacancy other = .ok location → relation disk (disk.withDirectory location))
    (names : List String) (hnames : names.reverse <+: path.significantNames) {disk : Disk}
    (tree : disk.IsTree) :
    Respects relation (fun _ => True) disk (createAncestors path.isAbsolute names disk) := by
  induction names generalizing disk with
  | nil => exact ⟨tree, hrefl disk, trivial⟩
  | cons name before ih =>
    have hbefore : before.reverse <+: path.significantNames := by
      rw [List.reverse_cons] at hnames
      exact (List.prefix_append _ _).trans hnames
    rw [createAncestors]
    have hcreated : ∀ {disk : Disk}, disk.IsTree → Respects relation (Ready _) disk
        (createDirectory (pathOf path.isAbsolute (name :: before).reverse) disk) :=
      fun tree => createDirectory_respects tree (hrefl _) (hcreate tree (.before hnames))
    exact (createUnder_respects hcreated (ih hbefore) htrans tree).imp id fun _ _ _ => trivial

/-- Directories are created one at a time, each on the way to the last, and then the path leads to
one. -/
theorem createDirectories_respects_of (relation : Disk → Disk → Prop)
    (hrefl : ∀ disk, relation disk disk)
    (htrans : ∀ {disk middle next}, relation disk middle → relation middle next →
      relation disk next)
    (hcreate : ∀ {disk other location}, disk.IsTree → OnWay path other →
      disk.vacancy other = .ok location → relation disk (disk.withDirectory location))
    {disk : Disk} (tree : disk.IsTree) :
    Respects relation (Ready path) disk (createDirectories path disk) := by
  rw [createDirectories]
  split
  next hempty =>
    refine ⟨tree, hrefl disk, disk.origin path, .inl hempty, ?_⟩
    rw [Path.names_of_text_eq_empty hempty, Disk.follow?_nil]
  next =>
    refine createUnder_respects
      (fun tree => createDirectory_respects tree (hrefl _) (hcreate tree .self))
      (createAncestors_respects hrefl htrans hcreate _ ?_) htrans tree
    rw [List.tail_reverse, List.reverse_reverse]
    exact List.dropLast_prefix _

end

/-- Directories are created without touching a file, and then the path leads to one. -/
theorem createDirectories_respects {disk : Disk} (tree : disk.IsTree) (path : Path) :
    Respects Disk.Grown (Ready path) disk (createDirectories path disk) := by
  refine createDirectories_respects_of Disk.Grown Disk.Grown.refl Disk.Grown.trans
    (fun {disk other location} tree _ hvacancy => ?_) tree
  obtain ⟨_, parent, name, -, rfl, -, -, -, -, hnone⟩ := tree.of_vacancy hvacancy
  exact .of_edit (tree.edit_withDirectory (by simp)) hnone

/-- No file is written where directories are created. -/
theorem createDirectories_written {disk : Disk} (tree : disk.IsTree) (path : Path) :
    Respects (fun disk next => next.written = disk.written) (Ready path) disk
      (createDirectories path disk) :=
  createDirectories_respects_of (fun disk next => next.written = disk.written) (fun _ => rfl)
    (fun h h' => h'.trans h) (fun _ _ _ => rfl) tree

/-- A directory that is there is left alone. -/
theorem createDirectories_of_opens {disk : Disk} (tree : disk.IsTree) {path : Path}
    {location : Location} (h : disk.Opens path location) :
    createDirectories path disk = .ok () disk := by
  rw [createDirectories]
  split
  next => rfl
  next hpath =>
    have hcreate : createDirectory path disk = .error .alreadyExists disk := by
      rw [createDirectory, changeAt, tree.vacancy_of_opens h hpath]
    rw [createUnder, hcreate]
    exact if_pos (tree.isDirectory_of_opens h hpath)

/-! ## §4 Entries of an open directory -/

section

variable {disk : Disk} {directory : Path} {location : Location} {name : String}

/-- What writing an entry does. -/
theorem write_child (tree : disk.IsTree) (h : disk.Opens directory location)
    (hname : Path.IsName name) (content : Content) :
    write (directory.child name) content disk =
      match Disk.checkChild directory name with
      | .error fault => .error fault disk
      | .ok _ =>
        if disk.get? (location ++ [name]) = some .directory then .error .isDirectory disk
        else .ok () (disk.withFile (location ++ [name]) content) := by
  rw [write, changeAt, tree.target_child h hname]
  cases Disk.checkChild directory name with
  | error fault => rfl
  | ok _ =>
    cases disk.get? (location ++ [name]) with
    | none => rfl
    | some entry => cases entry <;> rfl

/-- What removing an entry does. -/
theorem removeFile_child (tree : disk.IsTree) (h : disk.Opens directory location)
    (hname : Path.IsName name) :
    removeFile (directory.child name) disk =
      match Disk.checkChild directory name with
      | .error fault => .error fault disk
      | .ok _ =>
        match disk.get? (location ++ [name]) with
        | none => .error .notFound disk
        | some .directory => .error .isDirectory disk
        | some _ => .ok () (disk.without (location ++ [name])) := by
  rw [removeFile, changeAt, tree.ownLocation_child h hname]
  cases Disk.checkChild directory name with
  | error fault => rfl
  | ok _ =>
    cases disk.get? (location ++ [name]) with
    | none => rfl
    | some entry => cases entry <;> rfl

end

end Action

end TypedSettings

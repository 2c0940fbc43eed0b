import Mathlib
import TypedSettings.FileTree.Action
import TypedSettings.Proofs.FileTree.Path
import TypedSettings.Proofs.OrderedMap

/-!
# Trees

A disk without links is a tree: every entry lies in a directory, and a path that leads to a
directory leads to that one only. Once a directory is found, whatever is done to one of its entries
by path is done to the entry of that name, if the path is one that file systems take.

Main facts:
- `Disk.IsTree`: disks of files and directories
- `Disk.Opens`: which directory a path leads to
- `Disk.resolve_child`, `Disk.target_child`, `Disk.ownLocation_child`: the location of an entry that
  is read, written or removed
-/

namespace TypedSettings

/-- A sequence that gives a result has given one half way. -/
theorem exists_of_bind_eq_ok {ε α β : Type} {first : Except ε α} {second : α → Except ε β} {b : β}
    (h : first >>= second = .ok b) : ∃ a, first = .ok a ∧ second a = .ok b := by
  cases first with
  | error e => cases h
  | ok a => exact ⟨a, rfl, h⟩

namespace Disk

/-! ## §1 Trees -/

/-- A disk of files and directories that was started in a directory. -/
structure IsTree (disk : Disk) : Prop where
  nodup : (OrderedMap.keys disk.entries).Nodup
  noLink : ∀ location target, disk.get? location ≠ some (.link target)
  isName : ∀ {location name entry}, disk.get? (location ++ [name]) = some entry → Path.IsName name
  parent : ∀ {location name entry}, disk.get? (location ++ [name]) = some entry →
    disk.get? location = some .directory
  start : disk.get? disk.workingDirectory = some .directory

@[simp] theorem get?_root (disk : Disk) : disk.get? [] = some .directory := if_pos rfl

/-- Does an entry lie in a directory, under a name that entries can have, and is it no link? -/
def isPlaced (disk : Disk) : Location × Entry → Bool
  | ([], _) => true
  | (_, .link _) => false
  | (first :: rest, _) => Path.IsName ((first :: rest).getLast (by simp)) &&
      disk.get? (first :: rest).dropLast == some .directory

theorem isPlaced_concat {disk : Disk} {location : Location} {name : String} {entry : Entry} :
    disk.isPlaced (location ++ [name], entry) = true ↔
      (∀ target, entry ≠ .link target) ∧ Path.IsName name ∧
        disk.get? location = some .directory := by
  cases h : location ++ [name] with
  | nil => simp at h
  | cons first rest => cases entry <;> simp [isPlaced, ← h]

theorem get?_concat_eq_some_iff {disk : Disk} (h : (OrderedMap.keys disk.entries).Nodup)
    {location : Location} {name : String} {entry : Entry} :
    disk.get? (location ++ [name]) = some entry ↔ (location ++ [name], entry) ∈ disk.entries := by
  rw [get?, if_neg (by simp), OrderedMap.find?_eq_some_iff h]

/-- Whether a disk is a tree can be told by looking at every entry. -/
theorem isTree_iff {disk : Disk} : disk.IsTree ↔
    (OrderedMap.keys disk.entries).Nodup ∧ (∀ item ∈ disk.entries, disk.isPlaced item = true) ∧
      disk.get? disk.workingDirectory = some .directory := by
  constructor
  · intro tree
    refine ⟨tree.nodup, fun ⟨location, entry⟩ hmem => ?_, tree.start⟩
    rcases location.eq_nil_or_concat with rfl | ⟨before, name, rfl⟩
    · rfl
    · rw [List.concat_eq_append] at hmem ⊢
      have hentry := (get?_concat_eq_some_iff tree.nodup).mpr hmem
      exact isPlaced_concat.mpr
        ⟨fun target heq => tree.noLink _ target (heq ▸ hentry), tree.isName hentry,
          tree.parent hentry⟩
  · rintro ⟨hnodup, hplaced, hstart⟩
    have hentry : ∀ {location name entry}, disk.get? (location ++ [name]) = some entry →
        (∀ target, entry ≠ .link target) ∧ Path.IsName name ∧
          disk.get? location = some .directory :=
      fun h => isPlaced_concat.mp (hplaced _ ((get?_concat_eq_some_iff hnodup).mp h))
    refine ⟨hnodup, fun location target => ?_, fun h => (hentry h).2.1, fun h => (hentry h).2.2,
      hstart⟩
    rcases location.eq_nil_or_concat with rfl | ⟨before, name, rfl⟩
    · simp
    · rw [List.concat_eq_append]
      exact fun h => (hentry h).1 target rfl

instance (disk : Disk) : Decidable disk.IsTree := decidable_of_iff _ isTree_iff.symm

/-- Where every entry lies in a directory, so does a directory. -/
theorem get?_dropLast_of_parent {disk : Disk}
    (hparent : ∀ {location name entry}, disk.get? (location ++ [name]) = some entry →
      disk.get? location = some .directory)
    {location : Location} (h : disk.get? location = some .directory) :
    disk.get? location.dropLast = some .directory := by
  rcases location.eq_nil_or_concat with rfl | ⟨before, name, rfl⟩
  · exact get?_root disk
  · rw [List.concat_eq_append] at h ⊢
    rw [List.dropLast_concat]
    exact hparent h

theorem IsTree.get?_dropLast {disk : Disk} (tree : disk.IsTree) {location : Location}
    (h : disk.get? location = some .directory) : disk.get? location.dropLast = some .directory :=
  get?_dropLast_of_parent tree.parent h

theorem IsTree.get?_origin {disk : Disk} (tree : disk.IsTree) (path : Path) :
    disk.get? (disk.origin path) = some .directory := by
  rw [origin]
  split
  · exact get?_root disk
  · exact tree.start

/-! ## §2 Following names -/

theorem not_staysInPlace {name : String} (h : Path.IsName name) : ¬ staysInPlace name := by
  simp [staysInPlace, h.ne_dot, h.ne_empty]

/-- The directory that one name leads to. -/
def enter? (disk : Disk) (origin : Location) (name : String) : Option Location :=
  if staysInPlace name then some origin
  else if name = ".." then some origin.dropLast
  else if isOverlong name then none
  else if disk.get? (origin ++ [name]) = some .directory then some (origin ++ [name])
  else none

/-- The directory that names lead to, one after the other. -/
def follow? (disk : Disk) (origin : Location) (names : List String) : Option Location :=
  names.foldlM disk.enter? origin

section

variable {disk : Disk} {origin location : Location} {name : String} {names rest : List String}

theorem enter?_eq_some (hname : Path.IsName name) (hlong : ¬ isOverlong name)
    (hentry : disk.get? (origin ++ [name]) = some .directory) :
    disk.enter? origin name = some (origin ++ [name]) := by
  rw [enter?, if_neg (not_staysInPlace hname), if_neg hname.ne_dots, if_neg hlong, if_pos hentry]

theorem follow?_nil : disk.follow? origin [] = some origin := rfl

theorem follow?_cons :
    disk.follow? origin (name :: rest) = (disk.enter? origin name).bind (disk.follow? · rest) := rfl

theorem follow?_append :
    disk.follow? origin (names ++ rest) = (disk.follow? origin names).bind (disk.follow? · rest) :=
  List.foldlM_append

theorem follow?_singleton : disk.follow? origin [name] = disk.enter? origin name := by
  rw [follow?_cons]
  cases disk.enter? origin name <;> rfl

theorem IsTree.get?_of_enter? (tree : disk.IsTree) (horigin : disk.get? origin = some .directory)
    (h : disk.enter? origin name = some location) : disk.get? location = some .directory := by
  rw [enter?] at h
  split_ifs at h with _ _ _ hentry
  · exact Option.some.inj h ▸ horigin
  · exact Option.some.inj h ▸ tree.get?_dropLast horigin
  · exact Option.some.inj h ▸ hentry

/-- Names lead from a directory to a directory. -/
theorem IsTree.get?_of_follow? (tree : disk.IsTree) (horigin : disk.get? origin = some .directory)
    (h : disk.follow? origin names = some location) : disk.get? location = some .directory := by
  induction names generalizing origin with
  | nil => exact Option.some.inj h ▸ horigin
  | cons name rest ih =>
    rw [follow?_cons, Option.bind_eq_some_iff] at h
    obtain ⟨next, henter, hrest⟩ := h
    exact ih (tree.get?_of_enter? horigin henter) hrest

/-- A name that is looked up: it leads down, fits, and no slash behind it asks for a directory where
a file is to be created. -/
structure IsLookedUp (creating : Bool) (name : String) (rest : List String) : Prop where
  down : ¬ staysInPlace name ∧ name ≠ ".."
  file : ¬ (creating = true ∧ rest = [""])
  fits : ¬ isOverlong name

instance (creating : Bool) (name : String) (rest : List String) :
    Decidable (IsLookedUp creating name rest) :=
  decidable_of_iff ((¬ staysInPlace name ∧ name ≠ "..") ∧
      ¬ (creating = true ∧ rest = [""]) ∧ ¬ isOverlong name)
    ⟨fun h => ⟨h.1, h.2.1, h.2.2⟩, fun h => ⟨h.down, h.file, h.fits⟩⟩

/-- A walk along a name that is looked up. -/
theorem walk_cons_of_isLookedUp {creating : Bool} {links : Nat}
    (h : IsLookedUp creating name rest) :
    disk.walk creating links origin (name :: rest) =
      match disk.get? (origin ++ [name]) with
      | none => if rest.isEmpty then .ok (origin ++ [name]) else .error .notFound
      | some .directory => walk disk creating links (origin ++ [name]) rest
      | some (.file _) => if rest.isEmpty then .ok (origin ++ [name]) else .error .notDirectory
      | some (.link target) =>
        match links with
        | 0 => .error .tooManyLinks
        | links + 1 =>
          walk disk creating links (if target.isAbsolute then [] else origin)
            (target.steps ++ rest) := by
  have hwalk := walk.eq_2 disk creating links origin name rest
  rw [if_neg h.down.1, if_neg h.down.2, if_neg h.file, if_neg h.fits] at hwalk
  exact hwalk

/-- A walk goes on from the directory that its first names lead to. A file is to be created only
where no empty name asks for a directory. -/
theorem walk_append {creating : Bool} {links : Nat} (h : disk.follow? origin names = some location)
    (hcreating : creating = true → "" ∉ names ++ rest) :
    disk.walk creating links origin (names ++ rest) = disk.walk creating links location rest := by
  induction names generalizing origin with
  | nil => rw [Option.some.inj h, List.nil_append]
  | cons name names ih =>
    rw [follow?_cons, Option.bind_eq_some_iff] at h
    obtain ⟨next, henter, hnames⟩ := h
    have hmore : creating = true → "" ∉ names ++ rest :=
      fun hc hmem => hcreating hc (List.mem_cons_of_mem _ hmem)
    have hfile : ¬ (creating = true ∧ names ++ rest = [""]) :=
      fun ⟨hc, heq⟩ => hmore hc (heq ▸ List.mem_cons_self)
    rw [List.cons_append, ← ih hnames hmore]
    rw [enter?] at henter
    split_ifs at henter with hstay hup hlong hentry <;> obtain rfl := Option.some.inj henter
    · rw [walk, if_pos hstay]
    · rw [walk, if_neg hstay, if_pos hup]
    · rw [walk_cons_of_isLookedUp ⟨⟨hstay, hup⟩, hfile, hlong⟩, hentry]

theorem walk_eq_ok_of_follow? {links : Nat} (h : disk.follow? origin names = some location) :
    disk.walk false links origin names = .ok location := by
  rw [← List.append_nil names, walk_append h (by simp), walk]

/-- A walk that ends at a directory follows names. -/
theorem IsTree.follow?_of_walk (tree : disk.IsTree) {links : Nat}
    (h : disk.walk false links origin names = .ok location)
    (hdirectory : disk.get? location = some .directory) :
    disk.follow? origin names = some location := by
  induction names generalizing origin with
  | nil =>
    rw [walk] at h
    cases h
    rfl
  | cons name rest ih =>
    have hnext : ∀ next, disk.enter? origin name = some next →
        disk.walk false links next rest = .ok location →
        disk.follow? origin (name :: rest) = some location :=
      fun next henter hwalk => by rw [follow?_cons, henter, Option.bind_some, ih hwalk]
    -- A walk may end at a missing entry or at a file, but not at a directory that it did not enter.
    have hend : disk.get? (origin ++ [name]) ≠ some .directory → ∀ fault : IoFault,
        (if rest.isEmpty then .ok (origin ++ [name]) else .error fault) ≠ Except.ok location := by
      intro hentry fault hend
      split at hend
      · exact hentry (Except.ok.inj hend ▸ hdirectory)
      · cases hend
    by_cases hstay : staysInPlace name
    · rw [walk, if_pos hstay] at h
      exact hnext origin (if_pos hstay) h
    by_cases hup : name = ".."
    · rw [walk, if_neg hstay, if_pos hup] at h
      exact hnext origin.dropLast (by rw [enter?, if_neg hstay, if_pos hup]) h
    by_cases hlong : isOverlong name
    · rw [walk, if_neg hstay, if_neg hup, if_neg (by simp), if_pos hlong] at h
      cases h
    rw [walk_cons_of_isLookedUp ⟨⟨hstay, hup⟩, by simp, hlong⟩] at h
    cases hentry : disk.get? (origin ++ [name]) with
    | none =>
      rw [hentry] at h
      exact absurd h (hend (by simp [hentry]) _)
    | some entry =>
      rw [hentry] at h
      cases entry with
      | directory =>
        refine hnext (origin ++ [name]) ?_ h
        rw [enter?, if_neg hstay, if_neg hup, if_neg hlong, if_pos hentry]
      | file content => exact absurd h (hend (by simp [hentry]) _)
      | link target => exact absurd hentry (tree.noLink _ _)

/-- The last name of a walk need not lead anywhere. -/
theorem IsTree.walk_singleton (tree : disk.IsTree) {creating : Bool} {links : Nat}
    (hname : Path.IsName name) : disk.walk creating links origin [name] =
      if isOverlong name then .error .nameTooLong else .ok (origin ++ [name]) := by
  have hstay := not_staysInPlace hname
  by_cases hlong : isOverlong name
  · rw [walk, if_neg hstay, if_neg hname.ne_dots, if_neg (by simp), if_pos hlong, if_pos hlong]
  · rw [walk_cons_of_isLookedUp ⟨⟨hstay, hname.ne_dots⟩, by simp, hlong⟩, if_neg hlong]
    cases hentry : disk.get? (origin ++ [name]) with
    | none => rfl
    | some entry =>
      cases entry with
      | directory => exact walk.eq_1 ..
      | file content => rfl
      | link target => exact absurd hentry (tree.noLink _ _)

end

/-! ## §3 Directories of paths -/

/-- The path leads to the directory at `location`; the empty path to the working directory. -/
structure Opens (disk : Disk) (path : Path) (location : Location) : Prop where
  valid : path.text = "" ∨ checkPath path = .ok ()
  follow : disk.follow? (disk.origin path) path.names = some location

section

variable {disk : Disk} {path : Path} {location : Location}

theorem IsTree.get?_of_opens (tree : disk.IsTree) (h : disk.Opens path location) :
    disk.get? location = some .directory :=
  tree.get?_of_follow? (tree.get?_origin path) h.follow

theorem Opens.unique {other : Location} (h : disk.Opens path location)
    (h' : disk.Opens path other) : location = other :=
  Option.some.inj (h.follow.symm.trans h'.follow)

/-- A slash at the end of a path stays in place. -/
theorem follow?_steps : disk.follow? (disk.origin path) path.steps =
    disk.follow? (disk.origin path) path.names := by
  rw [Path.steps]
  split_ifs
  · rw [follow?_append]
    cases disk.follow? (disk.origin path) path.names <;> rfl
  · rw [List.append_nil]

theorem checkPath_eq_ok_iff : checkPath path = .ok () ↔
    '\x00' ∉ path.text.toList ∧ path.text ≠ "" ∧ path.text.utf8ByteSize ≤ pathLimit := by
  have hzero : path.text.contains '\x00' = true ↔ '\x00' ∈ path.text.toList := by simp
  simp only [checkPath, checkText, hzero]
  by_cases hchar : '\x00' ∈ path.text.toList
  · simp [hchar, bind, Except.bind]
  by_cases hempty : path.text = ""
  · simp [hempty, bind, Except.bind]
  by_cases hlong : pathLimit < path.text.utf8ByteSize
  · simp [hchar, hempty, hlong, bind, Except.bind, throw, throwThe, MonadExceptOf.throw]
  · simp [hchar, hempty, hlong, bind, Except.bind, pure, Except.pure, not_lt.mp hlong]

instance (path : Path) : Decidable (checkPath path = .ok ()) :=
  decidable_of_iff _ checkPath_eq_ok_iff.symm

instance (disk : Disk) (path : Path) (location : Location) : Decidable (disk.Opens path location) :=
  decidable_of_iff ((path.text = "" ∨ checkPath path = .ok ()) ∧
      disk.follow? (disk.origin path) path.names = some location)
    ⟨fun h => ⟨h.1, h.2⟩, fun h => ⟨h.valid, h.follow⟩⟩

theorem checkPath_of_resolve (h : disk.resolve path = .ok location) : checkPath path = .ok () := by
  obtain ⟨_, hcheck, -⟩ := exists_of_bind_eq_ok h
  exact hcheck

theorem resolve_of_checkPath (h : checkPath path = .ok ()) :
    disk.resolve path = disk.walk false linkLimit (disk.origin path) path.steps := by
  rw [resolve, h]
  rfl

theorem IsTree.opens_of_resolve (tree : disk.IsTree) (h : disk.resolve path = .ok location)
    (hdirectory : disk.get? location = some .directory) : disk.Opens path location := by
  have hcheck := checkPath_of_resolve h
  rw [resolve_of_checkPath hcheck] at h
  exact ⟨.inr hcheck, follow?_steps ▸ tree.follow?_of_walk h hdirectory⟩

theorem Opens.resolve_eq (h : disk.Opens path location) (hpath : path.text ≠ "") :
    disk.resolve path = .ok location := by
  rw [resolve_of_checkPath (h.valid.resolve_left hpath)]
  exact walk_eq_ok_of_follow? (follow?_steps.trans h.follow)

/-- What a path leads to is the entry at its location. -/
theorem find?_eq_some_iff {entry : Entry} :
    disk.find? path = some entry ↔
      ∃ location, disk.resolve path = .ok location ∧ disk.get? location = some entry := by
  rw [find?]
  cases disk.resolve path with
  | error fault => simp
  | ok location => simp

theorem IsTree.resolveDirectory_eq_ok_iff (tree : disk.IsTree) {names : List String} :
    disk.resolveDirectory path names = .ok location ↔
      disk.follow? (disk.origin path) names = some location := by
  constructor
  · intro h
    obtain ⟨found, hwalk, h⟩ := exists_of_bind_eq_ok h
    split at h
    next hdirectory =>
      cases h
      exact tree.follow?_of_walk hwalk hdirectory
    all_goals cases h
  · intro h
    rw [resolveDirectory, walk_eq_ok_of_follow? h]
    simp [tree.get?_of_follow? (tree.get?_origin path) h, bind, Except.bind, pure, Except.pure]

theorem IsTree.isDirectory_of_opens (tree : disk.IsTree) (h : disk.Opens path location)
    (hpath : path.text ≠ "") : disk.isDirectory path = true := by
  rw [isDirectory, find?, h.resolve_eq hpath]
  simp [tree.get?_of_opens h]

theorem IsTree.exists_opens_of_isDirectory (tree : disk.IsTree)
    (h : disk.isDirectory path = true) : ∃ location, disk.Opens path location := by
  rw [isDirectory, beq_iff_eq] at h
  obtain ⟨location, hresolve, hdirectory⟩ := find?_eq_some_iff.mp h
  exact ⟨location, tree.opens_of_resolve hresolve hdirectory⟩

end

/-! ## §4 Entries of an open directory -/

/-- Refuses names that no entry has and paths that no file system takes. -/
def checkChild (directory : Path) (name : String) : Except IoFault Unit := do
  checkPath (directory.child name)
  if isOverlong name then throw .nameTooLong

section

variable {disk : Disk} {directory : Path} {location : Location} {name : String}

theorem checkChild_of_checkPath (hcheck : checkPath (directory.child name) = .ok ())
    (hlong : ¬ isOverlong name) : checkChild directory name = .ok () := by
  rw [checkChild, hcheck, if_neg hlong]
  rfl

theorem checkChild_eq_ok_iff : checkChild directory name = .ok () ↔
    checkPath (directory.child name) = .ok () ∧ ¬ isOverlong name := by
  constructor
  · intro h
    obtain ⟨_, hcheck, h⟩ := exists_of_bind_eq_ok h
    refine ⟨hcheck, fun hlong => ?_⟩
    rw [if_pos hlong] at h
    cases h
  · rintro ⟨hcheck, hlong⟩
    exact checkChild_of_checkPath hcheck hlong

instance (directory : Path) (name : String) : Decidable (checkChild directory name = .ok ()) :=
  decidable_of_iff _ checkChild_eq_ok_iff.symm

theorem checkChild_eq_ok (hname : Path.IsName name)
    (hchar : '\x00' ∉ name.toList) (hlong : ¬ isOverlong name)
    (hdirectory : '\x00' ∉ directory.text.toList)
    (hfits : (directory.child name).text.utf8ByteSize ≤ pathLimit) :
    checkChild directory name = .ok () := by
  have hcheck : checkPath (directory.child name) = .ok () := by
    refine checkPath_eq_ok_iff.mpr ⟨?_, Path.text_child_ne_empty hname, hfits⟩
    rw [Path.text_child hname]
    split_ifs <;> simp [hchar, hdirectory]
  exact checkChild_of_checkPath hcheck hlong

/-- The origin of the path of an entry is that of its directory. -/
theorem origin_child (hname : Path.IsName name) :
    disk.origin (directory.child name) = disk.origin directory := by
  rw [origin, origin, Path.isAbsolute_child hname]

theorem IsTree.walk_child (tree : disk.IsTree) (h : disk.Opens directory location)
    (hname : Path.IsName name) {creating : Bool} {links : Nat} :
    disk.walk creating links (disk.origin (directory.child name)) (directory.child name).steps =
      if isOverlong name then .error .nameTooLong else .ok (location ++ [name]) := by
  have hempty : "" ∉ directory.names ++ [name] := by
    rw [← Path.names_child hname]
    exact fun hmem => (Path.of_mem_names hmem).1 rfl
  rw [Path.steps_child hname, origin_child hname, walk_append h.follow fun _ => hempty,
    tree.walk_singleton hname]

/-- Where an entry is read. -/
theorem IsTree.resolve_child (tree : disk.IsTree) (h : disk.Opens directory location)
    (hname : Path.IsName name) :
    disk.resolve (directory.child name) = (do
      checkChild directory name
      return location ++ [name]) := by
  rw [resolve, tree.walk_child h hname, checkChild]
  cases checkPath (directory.child name) with
  | error fault => rfl
  | ok _ => by_cases hlong : isOverlong name <;> simp only [hlong] <;> rfl

/-- Where an entry is written. -/
theorem IsTree.target_child (tree : disk.IsTree) (h : disk.Opens directory location)
    (hname : Path.IsName name) :
    disk.target (directory.child name) = (do
      checkChild directory name
      match disk.get? (location ++ [name]) with
      | some .directory => throw .isDirectory
      | _ => return location ++ [name]) := by
  rw [target, resolveToCreate, tree.walk_child h hname, checkChild]
  cases checkPath (directory.child name) with
  | error fault => rfl
  | ok _ => by_cases hlong : isOverlong name <;> simp only [hlong] <;> rfl

/-- Where an entry is removed. -/
theorem IsTree.ownLocation_child (tree : disk.IsTree) (h : disk.Opens directory location)
    (hname : Path.IsName name) :
    disk.ownLocation (directory.child name) = (do
      checkChild directory name
      match disk.get? (location ++ [name]) with
      | none => throw .notFound
      | some .directory => throw .isDirectory
      | some _ => return location ++ [name]) := by
  have hdirectory : disk.resolveDirectory (directory.child name) directory.names = .ok location :=
    tree.resolveDirectory_eq_ok_iff.mpr (by rw [origin_child hname, h.follow])
  have hstay : ¬ (staysInPlace name ∨ name = "..") :=
    not_or.mpr ⟨not_staysInPlace hname, hname.ne_dots⟩
  rw [ownLocation, Path.steps_child hname, List.getLast?_concat, List.dropLast_concat, hdirectory,
    checkChild]
  cases checkPath (directory.child name) with
  | error fault => rfl
  | ok _ =>
    simp only [bind, Except.bind, if_neg hstay]
    by_cases hlong : isOverlong name <;> simp only [hlong] <;> rfl

/-- What is seen of an entry. -/
theorem IsTree.find?_child (tree : disk.IsTree) (h : disk.Opens directory location)
    (hname : Path.IsName name) :
    disk.find? (directory.child name) =
      match checkChild directory name with
      | .error _ => none
      | .ok _ => disk.get? (location ++ [name]) := by
  rw [find?, tree.resolve_child h hname]
  cases checkChild directory name <;> rfl

/-- A file is seen where it is, if file systems take its path. -/
theorem IsTree.isFile_child_iff (tree : disk.IsTree) (h : disk.Opens directory location)
    (hname : Path.IsName name) :
    disk.isFile (directory.child name) = true ↔
      (∃ content, disk.get? (location ++ [name]) = some (.file content)) ∧
        checkChild directory name = .ok () := by
  rw [isFile, tree.find?_child h hname]
  cases checkChild directory name with
  | error fault => simp
  | ok _ =>
    cases hentry : disk.get? (location ++ [name]) with
    | none => simp
    | some entry => cases entry <;> simp

/-- A text is read where a file is seen to hold it. -/
theorem readText_eq_ok_iff {path : Path} {text : String} :
    disk.readText path = .ok text ↔ disk.find? path = some (.file (.text text)) := by
  rw [find?_eq_some_iff]
  constructor
  · intro h
    obtain ⟨location, hresolve, h⟩ := exists_of_bind_eq_ok h
    split at h
    next hentry =>
      cases h
      exact ⟨location, hresolve, hentry⟩
    all_goals cases h
  · rintro ⟨location, hresolve, hentry⟩
    rw [readText, hresolve]
    simp [bind, Except.bind, hentry, pure, Except.pure]

/-- What is read of an entry. -/
theorem IsTree.readText_child (tree : disk.IsTree) (h : disk.Opens directory location)
    (hname : Path.IsName name) :
    disk.readText (directory.child name) = (do
      checkChild directory name
      match disk.get? (location ++ [name]) with
      | some (.file (.text text)) => return text
      | some (.file (.binary _)) => throw .notText
      | some .directory => throw .isDirectory
      | _ => throw .notFound) := by
  rw [readText, tree.resolve_child h hname]
  cases checkChild directory name <;> rfl

end

end Disk

end TypedSettings

import Mathlib
import TypedSettings.Proofs.FileTree.Change

/-!
# Paths that lead down

A path without `..` leads straight down: each of its names, apart from those that stay in place, is
an entry below the one before. When such a directory is created, directories appear on the way to it
and nowhere else, so whatever can be found in it afterwards was there before.

Main facts:
- `Disk.way`, `Disk.follow?_of_descends`: where a path without `..` leads
- `Action.createDirectories_confined`: only directories on the way are created
- `Disk.status`, `Disk.IsFree`: paths of files, and paths at which nothing is found
- `Disk.IsTree.get?_ne_directory`: what can be written before a directory is created can be written
  afterwards
-/

namespace TypedSettings

/-! ## §1 The paths of ancestors -/

namespace Path

theorem mem_names_of_mem_significantNames {path : Path} {name : String}
    (h : name ∈ path.significantNames) : name ∈ path.names := by
  rw [significantNames] at h
  split at h
  next => cases h
  next first rest hnames =>
    rw [hnames]
    dsimp only at h
    split at h
    · exact List.mem_cons_of_mem _ (List.mem_of_mem_filter h)
    · rcases List.mem_cons.mp h with rfl | hmem
      · exact List.mem_cons_self
      · exact List.mem_cons_of_mem _ (List.mem_of_mem_filter hmem)

/-- The significant names lead down to where all names do. -/
theorem filter_significantNames (path : Path) :
    path.significantNames.filter (!Disk.staysInPlace ·) =
      path.names.filter (!Disk.staysInPlace ·) := by
  have hrest (rest : List String) : (rest.filter (· ≠ ".")).filter (!Disk.staysInPlace ·) =
      rest.filter (!Disk.staysInPlace ·) := by
    rw [List.filter_filter]
    refine List.filter_congr fun name _ => ?_
    by_cases hdot : name = "." <;> simp [hdot, Disk.staysInPlace]
  rw [significantNames]
  split
  next hnames => rw [hnames]
  next first rest hnames =>
    rw [hnames]
    dsimp only
    split
    next hfirst =>
      have hstays : Disk.staysInPlace first := by simp [hfirst.1, Disk.staysInPlace]
      rw [hrest, List.filter_cons_of_neg (by simp [hstays])]
    next => rw [List.filter_cons, List.filter_cons, hrest]

end Path

namespace Action

variable {absolute : Bool} {names : List String}

theorem toList_pathOf : (pathOf absolute names).text.toList =
    (if absolute then ['/'] else []) ++ ("/".intercalate names).toList := by
  rw [pathOf, String.toList_append]
  cases absolute <;> rfl

/-- Names are joined and cut apart again. -/
theorem names_pathOf (h : ∀ name ∈ names, name ≠ "" ∧ '/' ∉ name.toList) :
    (pathOf absolute names).names = names := by
  have hjoined : ((Path.splitSlashes ("/".intercalate names).toList).filter (!·.isEmpty)).map
      String.ofList = names := by
    induction names with
    | nil => rfl
    | cons name rest ih =>
      obtain ⟨hne, hslash⟩ := h name List.mem_cons_self
      have hname := Path.pieces_of_slash_notMem hne hslash
      have hrest := ih fun other hother => h other (List.mem_cons_of_mem _ hother)
      cases rest with
      | nil => rw [String.intercalate_singleton, hname]
      | cons next rest =>
        have hseparator : "/".toList = ['/'] := rfl
        rw [String.intercalate_cons_cons, String.toList_append, String.toList_append,
          List.append_assoc, hseparator, List.singleton_append, Path.splitSlashes_append,
          List.filter_append, List.map_append, hname, hrest, List.singleton_append]
  rw [Path.names, toList_pathOf]
  cases absolute with
  | false => exact hjoined
  -- The piece before the first slash is empty and no name.
  | true => simpa [Path.splitSlashes] using hjoined

theorem isAbsolute_pathOf (h : ∀ name ∈ names, name ≠ "" ∧ '/' ∉ name.toList) :
    (pathOf absolute names).isAbsolute = absolute := by
  rw [Path.isAbsolute, toList_pathOf]
  cases absolute with
  | true => simp
  | false =>
    cases names with
    | nil => rfl
    | cons name rest =>
      obtain ⟨hne, hslash⟩ := h name List.mem_cons_self
      have hhead : name.toList.head? ≠ some '/' :=
        fun hhead => hslash (List.mem_of_mem_head? hhead)
      rw [Ne, ← String.toList_eq_nil_iff] at hne
      cases rest <;>
        simp [String.intercalate_cons_cons, List.head?_append_of_ne_nil _ hne, hhead]

end Action

/-! ## §2 The way down -/

namespace Disk

/-- Where a path without `..` leads: to its names, one below the other, from where it starts. -/
def way (disk : Disk) (path : Path) : Location :=
  disk.origin path ++ path.names.filter (!staysInPlace ·)

section

variable {disk next : Disk} {origin location : Location} {names : List String} {path : Path}

/-- Names that do not lead back lead to the last of them. -/
theorem follow?_of_descends (h : disk.follow? origin names = some location)
    (hdown : ".." ∉ names) : location = origin ++ names.filter (!staysInPlace ·) := by
  induction names generalizing origin with
  | nil => simpa using (Option.some.inj h).symm
  | cons name rest ih =>
    rw [List.mem_cons, not_or] at hdown
    rw [follow?_cons, Option.bind_eq_some_iff] at h
    obtain ⟨middle, henter, hrest⟩ := h
    rw [enter?] at henter
    split_ifs at henter with hstay hup hlong hentry
    · obtain rfl := Option.some.inj henter
      rw [ih hrest hdown.2, List.filter_cons_of_neg (by simp [hstay])]
    · exact absurd hup.symm hdown.1
    · obtain rfl := Option.some.inj henter
      rw [ih hrest hdown.2, List.filter_cons_of_pos (by simp [hstay]), List.append_assoc,
        List.singleton_append]

theorem Opens.eq_way (h : disk.Opens path location) (hdown : ".." ∉ path.names) :
    location = disk.way path := follow?_of_descends h.follow hdown

/-- Everything above a directory is a directory. -/
theorem IsTree.get?_above {above : Location} (tree : disk.IsTree)
    (h : disk.get? location = some .directory) (habove : above <+: location) :
    disk.get? above = some .directory := by
  obtain ⟨below, rfl⟩ := habove
  induction below using List.reverseRecOn with
  | nil => simpa using h
  | append_singleton below name ih =>
    rw [← List.append_assoc] at h
    exact ih (tree.parent h)

/-- Names that lead down to a directory of another disk lead to it wherever it is there. -/
theorem IsTree.follow?_of_follow? (tree : disk.IsTree)
    (h : next.follow? origin names = some location) (hdown : ".." ∉ names)
    (hentry : disk.get? location = some .directory) :
    disk.follow? origin names = some location := by
  induction names generalizing origin with
  | nil => exact h
  | cons name rest ih =>
    rw [List.mem_cons, not_or] at hdown
    rw [follow?_cons, Option.bind_eq_some_iff] at h ⊢
    obtain ⟨middle, henter, hrest⟩ := h
    refine ⟨middle, ?_, ih hrest hdown.2⟩
    -- A directory lies in directories only, so the way to it is there as well.
    have hmiddle : disk.get? middle = some .directory := by
      refine tree.get?_above hentry ?_
      rw [follow?_of_descends hrest hdown.2]
      exact List.prefix_append _ _
    rw [enter?] at henter ⊢
    split_ifs at henter with hstay hup hlong
    · rw [if_pos hstay, henter]
    · exact absurd hup.symm hdown.1
    · obtain rfl := Option.some.inj henter
      rw [if_neg hstay, if_neg hup, if_neg hlong, if_pos hmiddle]

theorem Extends.way (h : Extends disk next) (path : Path) : next.way path = disk.way path := by
  rw [Disk.way, Disk.way, h.origin]

end

end Disk

namespace Action

theorem plain_of_significant {path : Path} {names : List String}
    (h : names <+: path.significantNames) :
    ∀ name ∈ names, name ≠ "" ∧ '/' ∉ name.toList := fun _ hmem =>
  Path.of_mem_names (Path.mem_names_of_mem_significantNames (h.subset hmem))

/-- A directory is created on the way of the path that it is created for. -/
theorem way_prefix_of_onWay {path other : Path} (h : OnWay path other) (disk : Disk) :
    disk.way other <+: disk.way path := by
  cases h with
  | self => exact List.prefix_rfl
  | @before names hnames =>
    have hplain := plain_of_significant hnames
    rw [Disk.way, Disk.way, Disk.origin, Disk.origin, isAbsolute_pathOf hplain,
      names_pathOf hplain, ← path.filter_significantNames, List.prefix_append_right_inj]
    exact hnames.filter _

theorem descends_of_onWay {path other : Path} (h : OnWay path other) (hdown : ".." ∉ path.names) :
    ".." ∉ other.names := by
  cases h with
  | self => exact hdown
  | @before names hnames =>
    rw [names_pathOf (plain_of_significant hnames)]
    exact fun hmem => hdown (Path.mem_names_of_mem_significantNames (hnames.subset hmem))

/-- For a path that leads down, directories are created on its way only. -/
theorem createDirectories_confined {disk : Disk} (tree : disk.IsTree) {path : Path}
    (hdown : ".." ∉ path.names) :
    Respects (fun disk => Disk.Confined (· <+: disk.way path) disk) (Ready path) disk
      (createDirectories path disk) := by
  refine createDirectories_respects_of (fun disk => Disk.Confined (· <+: disk.way path) disk)
    (fun disk => .refl _ disk) (fun {disk middle next} h h' => h.trans ?_)
    (fun {disk other location} tree hway hvacancy => ?_) tree
  · rw [h.way] at h'
    exact h'
  · obtain ⟨before, parent, name, hnames, rfl, -, hfollow, hname, -⟩ := tree.of_vacancy hvacancy
    have hedit : disk.Edit (parent ++ [name]) (some .directory)
        (disk.withDirectory (parent ++ [name])) :=
      tree.edit_withDirectory (by simp)
    refine (Disk.Confined.of_edit hedit fun _ => rfl).mono ?_
    rintro _ rfl
    have hother := descends_of_onWay hway hdown
    have hlocation : parent ++ [name] = disk.way other := by
      rw [hnames, List.mem_append, not_or] at hother
      rw [Disk.follow?_of_descends hfollow hother.1, Disk.way, hnames, List.filter_append,
        List.append_assoc, List.filter_cons_of_pos (by simp [Disk.not_staysInPlace hname]),
        List.filter_nil]
    -- The new directory is where its own path leads, which is on the way of the other.
    rw [hlocation]
    exact way_prefix_of_onWay hway disk

end Action

/-! ## §3 Paths that can be written -/

namespace Disk

/-- What a path leads to, or why it leads nowhere. -/
def status (disk : Disk) (path : Path) : Except IoFault Entry := do
  let location ← disk.resolve path
  match disk.get? location with
  | some entry => return entry
  | none => throw .notFound

/-- Nothing is found at a path, or a file. -/
def IsFree (disk : Disk) (path : Path) : Prop :=
  disk.status path = .error .notFound ∨ ∃ content, disk.status path = .ok (.file content)

section

variable {disk middle : Disk} {directory path : Path} {location : Location} {name : String}

theorem status_of_resolve (h : disk.resolve path = .ok location) :
    disk.status path = match disk.get? location with
      | some entry => .ok entry
      | none => .error .notFound := by
  rw [status, h]
  dsimp only [bind, Except.bind]
  cases disk.get? location <;> rfl

/-- Nothing is said to be missing at a path that no file system takes. -/
theorem IsFree.checkPath_eq_ok (h : disk.IsFree path) (hpath : path.text ≠ "") :
    checkPath path = .ok () := by
  have hstatus {fault : IoFault} (hcheck : checkPath path = .error fault) :
      disk.status path = .error fault := by
    rw [status, resolve, hcheck]
    rfl
  have hfault : checkPath path ≠ .error .notFound := by
    rw [checkPath, checkText, if_neg hpath]
    intro hcheck
    split_ifs at hcheck <;> cases hcheck
  cases hcheck : checkPath path with
  | ok _ => rfl
  | error fault =>
    rw [IsFree, hstatus hcheck] at h
    obtain heq | ⟨content, heq⟩ := h
    · cases heq
      exact absurd hcheck hfault
    · cases heq

/-- Nothing is found below a missing entry. -/
theorem walk_of_missing {links : Nat} {origin : Location} {names rest : List String}
    (h : disk.follow? origin names = some location) (hname : Path.IsName name)
    (hlong : ¬ isOverlong name) (hentry : disk.get? (location ++ [name]) = none) :
    disk.walk false links origin (names ++ name :: rest) =
      if rest.isEmpty then .ok (location ++ [name]) else .error .notFound := by
  rw [walk_append h (by simp),
    walk_cons_of_isLookedUp ⟨⟨not_staysInPlace hname, hname.ne_dots⟩, by simp, hlong⟩, hentry]

theorem resolveDirectory_of_missing {names rest : List String}
    (h : disk.follow? (disk.origin path) names = some location) (hname : Path.IsName name)
    (hlong : ¬ isOverlong name) (hentry : disk.get? (location ++ [name]) = none) :
    disk.resolveDirectory path (names ++ name :: rest) = .error .notFound := by
  rw [resolveDirectory, walk_of_missing h hname hlong hentry]
  cases rest with
  | nil => simp [bind, Except.bind, hentry, throw, throwThe, MonadExceptOf.throw]
  | cons next rest => rfl

/-- An entry of an open directory can be written if it is no directory. -/
theorem IsTree.isFree_child_iff (tree : disk.IsTree) (h : disk.Opens directory location)
    (hname : Path.IsName name) (hlong : ¬ isOverlong name) : disk.IsFree (directory.child name) ↔
      checkPath (directory.child name) = .ok () ∧
        disk.get? (location ++ [name]) ≠ some .directory := by
  have hiff (hcheck : checkPath (directory.child name) = .ok ()) :
      disk.IsFree (directory.child name) ↔ disk.get? (location ++ [name]) ≠ some .directory := by
    have hresolve : disk.resolve (directory.child name) = .ok (location ++ [name]) := by
      rw [tree.resolve_child h hname, checkChild_of_checkPath hcheck hlong]
      rfl
    rw [IsFree, status_of_resolve hresolve]
    cases hentry : disk.get? (location ++ [name]) with
    | none => simp
    | some entry =>
      cases entry with
      | directory => simp
      | file content => simp
      | link target => exact absurd hentry (tree.noLink _ _)
  constructor
  · intro hfree
    have hcheck := hfree.checkPath_eq_ok (Path.text_child_ne_empty hname)
    exact ⟨hcheck, (hiff hcheck).mp hfree⟩
  · rintro ⟨hcheck, hentry⟩
    exact (hiff hcheck).mpr hentry

/-- Where a path leads down to a directory, what can be written in it before it is created can be
written afterwards. -/
theorem IsFree.of_createDirectories (h : disk.IsFree (directory.child name)) (tree : disk.IsTree)
    (hcreate : Action.createDirectories directory disk = .ok () middle)
    (hdown : ".." ∉ directory.names) (hname : Path.IsName name) (hlong : ¬ isOverlong name) :
    middle.IsFree (directory.child name) := by
  have hconfined := Action.createDirectories_confined tree hdown
  rw [hcreate] at hconfined
  obtain ⟨htree, hconfined, location, hopens⟩ := hconfined
  obtain rfl := hopens.eq_way hdown
  rw [hconfined.way] at hopens
  -- The entry lies below the way, so it was there before.
  have hentry : middle.get? (disk.way directory ++ [name]) =
      disk.get? (disk.way directory ++ [name]) := by
    refine hconfined.frame fun hprefix => ?_
    simpa using hprefix.length_le
  have hcheck := h.checkPath_eq_ok (Path.text_child_ne_empty hname)
  refine (htree.isFree_child_iff hopens hname hlong).mpr ⟨hcheck, fun hdirectory => ?_⟩
  rw [hentry] at hdirectory
  -- In that case the path led to the same directory before it was created.
  have hbefore : disk.Opens directory (disk.way directory) := by
    have hfollow := hopens.follow
    rw [hconfined.origin] at hfollow
    exact ⟨hopens.valid, tree.follow?_of_follow? hfollow hdown (tree.parent hdirectory)⟩
  exact ((tree.isFree_child_iff hbefore hname hlong).mp h).2 hdirectory

end

end Disk

end TypedSettings

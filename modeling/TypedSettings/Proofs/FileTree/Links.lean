import Mathlib
import TypedSettings.FileTree.Action
import TypedSettings.Proofs.FileTree.Change

/-!
# Disks with links

On any disk a path leads where the links on its way send it, and different paths can lead to one
file. A walk passes directories and links, and looks at nothing else before its end, so it goes on
leading to the same location while files are written and removed.

Main facts:
- `Disk.IsSound`: disks on which every entry lies in a directory
- `Disk.SamePassage`, `Disk.SamePassage.resolve_eq_ok_iff`: disks on which paths lead alike
- `Disk.IsSound.of_target`: where a file is written
- `Disk.resolve_of_ownLocation`: where a file is removed
-/

namespace TypedSettings

namespace Disk

/-! ## §1 Sound disks -/

/-- Every entry lies in a directory, and the disk was started in one. -/
structure IsSound (disk : Disk) : Prop where
  parent : ∀ {location name entry}, disk.get? (location ++ [name]) = some entry →
    disk.get? location = some .directory
  start : disk.get? disk.workingDirectory = some .directory

theorem IsTree.isSound {disk : Disk} (tree : disk.IsTree) : disk.IsSound :=
  ⟨tree.parent, tree.start⟩

/-- Whether a disk is sound can be told by looking at every entry. -/
theorem isSound_of_entries {disk : Disk}
    (hentries : ∀ item ∈ disk.entries, disk.get? item.1.dropLast = some .directory)
    (hstart : disk.get? disk.workingDirectory = some .directory) : disk.IsSound := by
  refine ⟨fun {location name entry} h => ?_, hstart⟩
  rw [get?, if_neg (by simp)] at h
  have hparent := hentries _ (OrderedMap.mem_of_find? h)
  rwa [List.dropLast_concat] at hparent

/-- Where a walk can end: at a directory, or below one at a file or nothing. -/
inductive Reachable (disk : Disk) : Location → Prop where
  | directory {location : Location} (entry : disk.get? location = some .directory) :
      Reachable disk location
  | file {parent : Location} {name : String} {content : Content}
      (parent_entry : disk.get? parent = some .directory)
      (entry : disk.get? (parent ++ [name]) = some (.file content)) :
      Reachable disk (parent ++ [name])
  | vacant {parent : Location} {name : String}
      (parent_entry : disk.get? parent = some .directory)
      (entry : disk.get? (parent ++ [name]) = none) : Reachable disk (parent ++ [name])

theorem IsSound.get?_dropLast {disk : Disk} (sound : disk.IsSound) {location : Location}
    (h : disk.get? location = some .directory) : disk.get? location.dropLast = some .directory :=
  get?_dropLast_of_parent sound.parent h

theorem IsSound.get?_origin {disk : Disk} (sound : disk.IsSound) (path : Path) :
    disk.get? (disk.origin path) = some .directory := by
  rw [origin]
  split
  · exact get?_root disk
  · exact sound.start

/-! ## §2 Walks that lead somewhere -/

/-- `Walks disk creating links origin names location`: the names lead to the location, and at most
`links` links are followed. -/
inductive Walks (disk : Disk) (creating : Bool) :
    Nat → Location → List String → Location → Prop where
  | done {links : Nat} {origin : Location} : Walks disk creating links origin [] origin
  | stay {links : Nat} {origin location : Location} {name : String} {rest : List String}
      (name_stays : staysInPlace name) (h : Walks disk creating links origin rest location) :
      Walks disk creating links origin (name :: rest) location
  | up {links : Nat} {origin location : Location} {rest : List String}
      (h : Walks disk creating links origin.dropLast rest location) :
      Walks disk creating links origin (".." :: rest) location
  | vacant {links : Nat} {origin : Location} {name : String}
      (name_looked_up : IsLookedUp creating name []) (entry : disk.get? (origin ++ [name]) = none) :
      Walks disk creating links origin [name] (origin ++ [name])
  | file {links : Nat} {origin : Location} {name : String} {content : Content}
      (name_looked_up : IsLookedUp creating name [])
      (entry : disk.get? (origin ++ [name]) = some (.file content)) :
      Walks disk creating links origin [name] (origin ++ [name])
  | enter {links : Nat} {origin location : Location} {name : String} {rest : List String}
      (name_looked_up : IsLookedUp creating name rest)
      (entry : disk.get? (origin ++ [name]) = some .directory)
      (h : Walks disk creating links (origin ++ [name]) rest location) :
      Walks disk creating links origin (name :: rest) location
  | follow {links : Nat} {origin location : Location} {name : String} {rest : List String}
      {target : Path} (name_looked_up : IsLookedUp creating name rest)
      (entry : disk.get? (origin ++ [name]) = some (.link target))
      (h : Walks disk creating links (if target.isAbsolute then [] else origin)
        (target.steps ++ rest) location) :
      Walks disk creating (links + 1) origin (name :: rest) location

section

variable {disk next : Disk} {creating : Bool} {links : Nat} {origin location : Location}
  {names rest : List String}

theorem walks_of_walk (h : disk.walk creating links origin names = .ok location) :
    Walks disk creating links origin names location := by
  fun_induction Disk.walk disk creating links origin names with
  | case1 => exact Except.ok.inj h ▸ .done
  | case2 _ _ _ _ hstay ih => exact .stay hstay (ih h)
  | case3 _ _ _ _ ih => exact .up (ih h)
  | case6 _ _ _ _ hstay hup hfile hlong hentry hrest =>
    rw [List.isEmpty_iff] at hrest
    subst hrest
    exact Except.ok.inj h ▸ .vacant ⟨⟨hstay, hup⟩, hfile, hlong⟩ hentry
  | case8 _ _ _ _ hstay hup hfile hlong hentry ih =>
    exact .enter ⟨⟨hstay, hup⟩, hfile, hlong⟩ hentry (ih h)
  | case9 _ _ _ _ hstay hup hfile hlong _ hentry hrest =>
    rw [List.isEmpty_iff] at hrest
    subst hrest
    exact Except.ok.inj h ▸ .file ⟨⟨hstay, hup⟩, hfile, hlong⟩ hentry
  | case12 _ _ _ hstay hup hfile hlong _ hentry _ ih =>
    exact .follow ⟨⟨hstay, hup⟩, hfile, hlong⟩ hentry (ih h)
  -- All other walks fail.
  | _ => cases h

theorem walk_of_walks (h : Walks disk creating links origin names location) :
    disk.walk creating links origin names = .ok location := by
  induction h with
  | done => rw [walk]
  | stay hstay _ ih => rw [walk, if_pos hstay, ih]
  | up _ ih => rw [walk, if_neg (by decide), if_pos rfl, ih]
  | vacant hname hentry => rw [walk_cons_of_isLookedUp hname, hentry]; rfl
  | file hname hentry => rw [walk_cons_of_isLookedUp hname, hentry]; rfl
  | enter hname hentry _ ih => rw [walk_cons_of_isLookedUp hname, hentry, ← ih]
  | follow hname hentry _ ih => rw [walk_cons_of_isLookedUp hname, hentry, ← ih]

theorem walk_eq_ok_iff : disk.walk creating links origin names = .ok location ↔
    Walks disk creating links origin names location := ⟨walks_of_walk, walk_of_walks⟩

/-- A walk on a sound disk goes through directories. -/
theorem IsSound.reachable_of_walks (sound : disk.IsSound)
    (horigin : disk.get? origin = some .directory)
    (h : Walks disk creating links origin names location) : disk.Reachable location := by
  induction h with
  | done => exact .directory horigin
  | stay _ _ ih => exact ih horigin
  | up _ ih => exact ih (sound.get?_dropLast horigin)
  | vacant _ hentry => exact .vacant horigin hentry
  | file _ hentry => exact .file horigin hentry
  | enter _ hentry _ ih => exact ih hentry
  | @follow _ _ _ _ _ target _ _ _ ih =>
    apply ih
    split
    · exact get?_root disk
    · exact horigin

/-- Where a file could be created, it can be read. -/
theorem Walks.reading (h : Walks disk creating links origin names location) :
    Walks disk false links origin names location := by
  have hname {name : String} {rest : List String} (h : IsLookedUp creating name rest) :
      IsLookedUp false name rest := ⟨h.down, by simp, h.fits⟩
  induction h with
  | done => exact .done
  | stay hstay _ ih => exact .stay hstay ih
  | up _ ih => exact .up ih
  | vacant h hentry => exact .vacant (hname h) hentry
  | file h hentry => exact .file (hname h) hentry
  | enter h hentry _ ih => exact .enter (hname h) hentry ih
  | follow h hentry _ ih => exact .follow (hname h) hentry ih

/-- A walk to a directory goes on from there. -/
theorem Walks.append {middle : Location} (h : Walks disk false links origin names middle)
    (hmiddle : disk.get? middle = some .directory)
    (hrest : ∀ links, Walks disk false links middle rest location) :
    Walks disk false links origin (names ++ rest) location := by
  have hname {name : String} {names : List String} (h : IsLookedUp false name names) :
      IsLookedUp false name (names ++ rest) := ⟨h.down, by simp, h.fits⟩
  induction h with
  | done => exact hrest _
  | stay hstay _ ih => exact .stay hstay (ih hmiddle hrest)
  | up _ ih => exact .up (ih hmiddle hrest)
  | vacant _ hentry => simp [hentry] at hmiddle
  | file _ hentry => simp [hentry] at hmiddle
  | enter h hentry _ ih => exact .enter (hname h) hentry (ih hmiddle hrest)
  | follow h hentry _ ih =>
    have hbehind := ih hmiddle hrest
    rw [List.append_assoc] at hbehind
    exact .follow (hname h) hentry hbehind

/-! ## §3 Disks on which paths lead alike -/

/-- The disks have the same directories and links. -/
structure SamePassage (disk next : Disk) : Prop where
  workingDirectory : next.workingDirectory = disk.workingDirectory
  directory : ∀ {location},
    next.get? location = some .directory ↔ disk.get? location = some .directory
  link : ∀ {location target},
    next.get? location = some (.link target) ↔ disk.get? location = some (.link target)

namespace SamePassage

theorem refl (disk : Disk) : SamePassage disk disk := ⟨rfl, Iff.rfl, Iff.rfl⟩

theorem symm (h : SamePassage disk next) : SamePassage next disk :=
  ⟨h.workingDirectory.symm, h.directory.symm, h.link.symm⟩

theorem origin_eq (h : SamePassage disk next) (path : Path) :
    next.origin path = disk.origin path := by
  rw [Disk.origin, Disk.origin, h.workingDirectory]

/-- Where the one disk ends a walk, the other does. -/
theorem walks (h : SamePassage disk next)
    (hwalks : Walks disk creating links origin names location) :
    Walks next creating links origin names location := by
  -- A name that leads to no directory and no link ends a walk on either disk.
  have hend {links : Nat} {origin : Location} {name : String} (hname : IsLookedUp creating name [])
      (hdirectory : disk.get? (origin ++ [name]) ≠ some .directory)
      (hlink : ∀ target, disk.get? (origin ++ [name]) ≠ some (.link target)) :
      Walks next creating links origin [name] (origin ++ [name]) := by
    cases hentry : next.get? (origin ++ [name]) with
    | none => exact .vacant hname hentry
    | some entry =>
      cases entry with
      | directory => exact absurd (h.directory.mp hentry) hdirectory
      | file content => exact .file hname hentry
      | link target => exact absurd (h.link.mp hentry) (hlink target)
  induction hwalks with
  | done => exact .done
  | stay hstay _ ih => exact .stay hstay ih
  | up _ ih => exact .up ih
  | vacant hname hentry => exact hend hname (by simp [hentry]) (by simp [hentry])
  | file hname hentry => exact hend hname (by simp [hentry]) (by simp [hentry])
  | enter hname hentry _ ih => exact .enter hname (h.directory.mpr hentry) ih
  | follow hname hentry _ ih => exact .follow hname (h.link.mpr hentry) ih

theorem walk_eq_ok_iff (h : SamePassage disk next) :
    next.walk creating links origin names = .ok location ↔
      disk.walk creating links origin names = .ok location := by
  rw [Disk.walk_eq_ok_iff, Disk.walk_eq_ok_iff]
  exact ⟨h.symm.walks, h.walks⟩

end SamePassage

end

/-! ## §4 Locations of paths -/

section

variable {disk next : Disk} {path : Path} {location : Location}

theorem resolve_eq_ok_iff : disk.resolve path = .ok location ↔
    checkPath path = .ok () ∧
      Walks disk false linkLimit (disk.origin path) path.steps location := by
  rw [resolve, ← walk_eq_ok_iff]
  cases checkPath path with
  | error fault => simp [bind, Except.bind]
  | ok _ => simp [bind, Except.bind]

theorem SamePassage.resolve_eq_ok_iff (h : SamePassage disk next) :
    next.resolve path = .ok location ↔ disk.resolve path = .ok location := by
  rw [Disk.resolve_eq_ok_iff, Disk.resolve_eq_ok_iff, h.origin_eq]
  exact and_congr_right fun _ => ⟨h.symm.walks, h.walks⟩

/-- A path is seen as before if the entry is the same that it leads to. -/
theorem SamePassage.find?_eq (h : SamePassage disk next)
    (hentry : ∀ location, disk.resolve path = .ok location →
      next.get? location = disk.get? location) : next.find? path = disk.find? path := by
  rw [find?, find?]
  cases hresolve : disk.resolve path with
  | ok location =>
    rw [h.resolve_eq_ok_iff.mpr hresolve]
    exact hentry location hresolve
  | error fault =>
    cases hnext : next.resolve path with
    | ok location =>
      rw [h.resolve_eq_ok_iff.mp hnext] at hresolve
      cases hresolve
    | error fault' => rfl

/-- Where a file is written: at a file or at a vacant place in a directory. -/
inductive Writable (disk : Disk) : Location → Prop where
  | mk {parent : Location} {name : String} (parent_entry : disk.get? parent = some .directory)
      (entry : ∀ found, disk.get? (parent ++ [name]) = some found →
        ∃ content, found = .file content) :
      Writable disk (parent ++ [name])

/-- A file is written where its path leads. -/
theorem IsSound.of_target (sound : disk.IsSound) (h : disk.target path = .ok location) :
    disk.resolve path = .ok location ∧ disk.Writable location := by
  obtain ⟨found, hfound, h⟩ := exists_of_bind_eq_ok h
  obtain ⟨_, hcheck, hwalk⟩ := exists_of_bind_eq_ok hfound
  have hwalks := walks_of_walk hwalk
  have hresolve : disk.resolve path = .ok found :=
    Disk.resolve_eq_ok_iff.mpr ⟨hcheck, hwalks.reading⟩
  cases sound.reachable_of_walks (sound.get?_origin path) hwalks with
  | directory hentry =>
    rw [hentry] at h
    cases h
  | file hparent hentry =>
    rw [hentry] at h
    cases h
    exact ⟨hresolve, .mk hparent (by simp [hentry])⟩
  | vacant hparent hentry =>
    rw [hentry] at h
    cases h
    exact ⟨hresolve, .mk hparent (by simp [hentry])⟩

theorem target_eq_ok (hcheck : checkPath path = .ok ())
    (h : Walks disk true linkLimit (disk.origin path) path.steps location)
    (hentry : disk.get? location ≠ some .directory) : disk.target path = .ok location := by
  rw [target, resolveToCreate, hcheck, walk_of_walks h]
  cases hfound : disk.get? location with
  | none => simp [hfound, bind, Except.bind, pure, Except.pure]
  | some found =>
    cases found with
    | directory => exact absurd hfound hentry
    | file content => simp [hfound, bind, Except.bind, pure, Except.pure]
    | link target => simp [hfound, bind, Except.bind, pure, Except.pure]

theorem resolveDirectory_eq_ok_iff {names : List String} :
    disk.resolveDirectory path names = .ok location ↔
      Walks disk false linkLimit (disk.origin path) names location ∧
        disk.get? location = some .directory := by
  constructor
  · intro h
    obtain ⟨found, hwalk, h⟩ := exists_of_bind_eq_ok h
    split at h
    next hentry =>
      cases h
      exact ⟨walks_of_walk hwalk, hentry⟩
    next => cases h
    next => cases h
  · rintro ⟨hwalks, hentry⟩
    rw [resolveDirectory, walk_of_walks hwalks]
    simp [hentry, bind, Except.bind, pure, Except.pure]

/-- Where a file or link is removed: at the last name of the path, which is not followed. -/
theorem exists_of_ownLocation (h : disk.ownLocation path = .ok location) :
    ∃ before parent name, path.steps = before ++ [name] ∧ location = parent ++ [name] ∧
      checkPath path = .ok () ∧ Walks disk false linkLimit (disk.origin path) before parent ∧
      disk.get? parent = some .directory ∧ IsLookedUp false name [] ∧
      ∃ found, disk.get? location = some found ∧ found ≠ .directory := by
  obtain ⟨_, hcheck, h⟩ := exists_of_bind_eq_ok h
  cases hlast : path.steps.getLast? with
  | none =>
    rw [hlast] at h
    cases h
  | some name =>
    obtain ⟨before, hsteps⟩ := List.getLast?_eq_some_iff.mp hlast
    rw [hlast, hsteps, List.dropLast_concat] at h
    obtain ⟨parent, hparent, h⟩ := exists_of_bind_eq_ok h
    obtain ⟨hwalks, hentry⟩ := resolveDirectory_eq_ok_iff.mp hparent
    split_ifs at h with hdown hlong
    rw [not_or] at hdown
    split at h
    next => cases h
    next => cases h
    next found hne hfound =>
      cases h
      exact ⟨before, parent, name, hsteps, rfl, hcheck, hwalks, hentry,
        ⟨hdown, by simp, hlong⟩, _, hfound, hne⟩

theorem ownLocation_eq_ok {before : List String} {parent : Location} {name : String} {found : Entry}
    (hsteps : path.steps = before ++ [name]) (hcheck : checkPath path = .ok ())
    (hwalks : Walks disk false linkLimit (disk.origin path) before parent)
    (hparent : disk.get? parent = some .directory) (hname : IsLookedUp false name [])
    (hfound : disk.get? (parent ++ [name]) = some found) (hne : found ≠ .directory) :
    disk.ownLocation path = .ok (parent ++ [name]) := by
  have hdirectory : disk.resolveDirectory path before = .ok parent :=
    resolveDirectory_eq_ok_iff.mpr ⟨hwalks, hparent⟩
  rw [ownLocation, hcheck, hsteps, List.getLast?_concat, List.dropLast_concat, hdirectory]
  simp only [bind, Except.bind, if_neg (not_or.mpr hname.down), if_neg hname.fits, hfound]
  cases found with
  | directory => exact absurd rfl hne
  | file content => rfl
  | link target => rfl

/-- Where a directory is created: in a directory, where nothing is. -/
theorem exists_of_vacancy (h : disk.vacancy path = .ok location) :
    ∃ parent name, location = parent ++ [name] ∧ disk.get? parent = some .directory ∧
      disk.get? location = none := by
  obtain ⟨_, hcheck, h⟩ := exists_of_bind_eq_ok h
  split at h
  next => cases h
  next name _ =>
    obtain ⟨parent, hparent, h⟩ := exists_of_bind_eq_ok h
    split_ifs at h with hdots hlong hentry
    cases h
    exact ⟨parent, name, rfl, (resolveDirectory_eq_ok_iff.mp hparent).2, by simpa using hentry⟩

/-- A path leads to the file that is removed under it. -/
theorem resolve_of_ownLocation {content : Content} (h : disk.ownLocation path = .ok location)
    (hfile : disk.get? location = some (.file content)) : disk.resolve path = .ok location := by
  obtain ⟨before, parent, name, hsteps, rfl, hcheck, hwalks, hparent, hname, -⟩ :=
    exists_of_ownLocation h
  refine Disk.resolve_eq_ok_iff.mpr ⟨hcheck, ?_⟩
  rw [hsteps]
  exact hwalks.append hparent fun links => .file hname hfile

end

/-! ## §5 Changes of sound disks -/

namespace IsSound

variable {disk next : Disk} {parent location : Location} {name : String}

/-- A sound disk stays one if an entry of a directory changes, as long as no directory goes. -/
theorem of_get? {left : Option Entry} (sound : disk.IsSound)
    (hparent : disk.get? parent = some .directory)
    (hstart : next.workingDirectory = disk.workingDirectory)
    (hget : ∀ other, next.get? other = if parent ++ [name] = other then left else disk.get? other)
    (hkeeps : disk.get? (parent ++ [name]) = some .directory → left = some .directory) :
    next.IsSound := by
  have hdirectory : ∀ {other}, disk.get? other = some .directory →
      next.get? other = some .directory := by
    intro other hother
    rw [hget]
    split
    next heq => exact hkeeps (heq ▸ hother)
    next => exact hother
  refine ⟨fun {other last entry} hentry => ?parent, ?start⟩
  case parent =>
    rw [hget] at hentry
    split at hentry
    next heq =>
      obtain ⟨rfl, rfl⟩ := List.concat_inj.mp (by simpa using heq)
      exact hdirectory hparent
    next => exact hdirectory (sound.parent hentry)
  case start =>
    rw [hstart]
    exact hdirectory sound.start

theorem withDirectory (sound : disk.IsSound) (hparent : disk.get? parent = some .directory) :
    (disk.withDirectory (parent ++ [name])).IsSound :=
  sound.of_get? hparent rfl (fun _ => disk.get?_withDirectory (by simp)) fun _ => rfl

theorem withFile (sound : disk.IsSound) (h : disk.Writable location) (content : Content) :
    (disk.withFile location content).IsSound := by
  cases h with
  | mk hparent hentry =>
    refine sound.of_get? hparent rfl (fun _ => disk.get?_withFile content (by simp)) fun h => ?_
    obtain ⟨content, hfile⟩ := hentry _ h
    cases hfile

theorem without (sound : disk.IsSound) {found : Entry}
    (hentry : disk.get? (parent ++ [name]) = some found) (hfound : found ≠ .directory) :
    (disk.without (parent ++ [name])).IsSound :=
  sound.of_get? (sound.parent hentry) rfl (fun _ => disk.get?_without (by simp)) fun h =>
    absurd (Option.some.inj (hentry.symm.trans h)) hfound

end IsSound

section

variable {disk next : Disk} {location : Location}

theorem Writable.ne_nil (h : disk.Writable location) : location ≠ [] := by
  cases h
  simp

/-- Nothing passes a file that is written. -/
theorem Writable.samePassage (h : disk.Writable location) (content : Content) :
    SamePassage disk (disk.withFile location content) := by
  have hget : ∀ other, (disk.withFile location content).get? other =
      if location = other then some (.file content) else disk.get? other :=
    fun _ => disk.get?_withFile content h.ne_nil
  have hother : disk.get? location ≠ some .directory ∧
      ∀ target, disk.get? location ≠ some (.link target) := by
    cases h with
    | mk _ hentry =>
      constructor
      · intro hfound
        obtain ⟨content, hfile⟩ := hentry _ hfound
        cases hfile
      · intro target hfound
        obtain ⟨content, hfile⟩ := hentry _ hfound
        cases hfile
  refine ⟨rfl, fun {other} => ?_, fun {other target} => ?_⟩
  · rw [hget]
    split
    next heq => simpa [← heq] using hother.1
    next => rfl
  · rw [hget]
    split
    next heq => simpa [← heq] using hother.2 target
    next => rfl

/-- Nothing passes a file that is removed. -/
theorem samePassage_without {content : Content} (hne : location ≠ [])
    (h : disk.get? location = some (.file content)) :
    SamePassage disk (disk.without location) := by
  have hget : ∀ other, (disk.without location).get? other =
      if location = other then none else disk.get? other := fun _ => disk.get?_without hne
  refine ⟨rfl, fun {other} => ?_, fun {other target} => ?_⟩
  · rw [hget]
    split
    next heq => simp [← heq, h]
    next => rfl
  · rw [hget]
    split
    next heq => simp [← heq, h]
    next => rfl

end

end Disk

namespace Action

/-- The action leaves sound disks sound, whether it fails or not. -/
def KeepsSound {ε α : Type} (action : Action ε α) : Prop :=
  ∀ {disk : Disk}, disk.IsSound → (action.after disk).IsSound

theorem after_eq_of_ok {ε α : Type} {action : Action ε α} {a : α} {disk next : Disk}
    (h : action disk = .ok a next) : action.after disk = next := by
  rw [after, h]

theorem after_eq_of_error {ε α : Type} {action : Action ε α} {e : ε} {disk next : Disk}
    (h : action disk = .error e next) : action.after disk = next := by
  rw [after, h]

theorem KeepsSound.bind {ε α β : Type} {first : Action ε α} {second : α → Action ε β}
    (hfirst : KeepsSound first) (hsecond : ∀ a, KeepsSound (second a)) :
    KeepsSound (first >>= second) := by
  intro disk sound
  have hmiddle := hfirst sound
  cases hresult : first disk with
  | ok a middle =>
    rw [after_eq_of_ok hresult] at hmiddle
    rw [after, bind_of_ok hresult]
    exact hsecond a hmiddle
  | error e middle =>
    rw [after_eq_of_error hresult] at hmiddle
    rwa [after_eq_of_error (bind_of_error hresult)]

theorem changeAt_keepsSound {locate : Disk → Except IoFault Location}
    {change : Disk → Location → Disk}
    (h : ∀ {disk location}, disk.IsSound → locate disk = .ok location →
      (change disk location).IsSound) : KeepsSound (changeAt locate change) := by
  intro disk sound
  rw [after, changeAt]
  cases hlocate : locate disk with
  | error fault => exact sound
  | ok location => exact h sound hlocate

theorem createDirectory_keepsSound (path : Path) : KeepsSound (createDirectory path) := by
  apply changeAt_keepsSound
  intro disk location sound h
  obtain ⟨parent, name, rfl, hparent, -⟩ := Disk.exists_of_vacancy h
  exact sound.withDirectory hparent

theorem write_keepsSound (path : Path) (content : Content) : KeepsSound (write path content) := by
  apply changeAt_keepsSound
  intro disk location sound h
  exact sound.withFile (sound.of_target h).2 content

theorem removeFile_keepsSound (path : Path) : KeepsSound (removeFile path) := by
  apply changeAt_keepsSound
  intro disk location sound h
  obtain ⟨-, parent, name, -, rfl, -, -, -, -, found, hfound, hne⟩ := Disk.exists_of_ownLocation h
  exact sound.without hfound hne

theorem ensureDirectory_keepsSound (path : Path) : KeepsSound (ensureDirectory path) := by
  intro disk sound
  have htried := createDirectory_keepsSound path sound
  rw [after] at htried ⊢
  rw [ensureDirectory]
  cases hcreate : createDirectory path disk with
  | ok a next =>
    rw [hcreate] at htried
    exact htried
  | error fault next =>
    rw [hcreate] at htried
    by_cases hthere : next.isDirectory path <;> simpa [hthere] using htried

theorem createUnder_keepsSound {parents : Action IoFault Unit} (hparents : KeepsSound parents)
    (path : Path) : KeepsSound (createUnder parents path) := by
  intro disk sound
  rcases createUnder_cases parents path disk with heq | ⟨next, hmissing, heq⟩
  · rw [after, heq]
    exact ensureDirectory_keepsSound path sound
  · have htried := createDirectory_keepsSound path sound
    rw [after_eq_of_error hmissing] at htried
    rw [after, heq]
    exact (hparents.bind fun _ => ensureDirectory_keepsSound path) htried

theorem createAncestors_keepsSound (absolute : Bool) (names : List String) :
    KeepsSound (createAncestors absolute names) := by
  induction names with
  | nil => exact id
  | cons name before ih =>
    rw [createAncestors]
    exact createUnder_keepsSound ih _

theorem createDirectories_keepsSound (path : Path) : KeepsSound (createDirectories path) := by
  rw [createDirectories]
  split_ifs
  · exact id
  · exact createUnder_keepsSound (createAncestors_keepsSound _ _) path

end Action

end TypedSettings

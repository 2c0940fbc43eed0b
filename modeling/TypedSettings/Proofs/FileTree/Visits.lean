import Mathlib
import TypedSettings.Proofs.FileTree.Links

/-!
# What is looked up on the way of a path

Where a path leads depends on the entries that are looked up on its way, and on no others. A file is
removed by the name it has, so where a path is that of a link, the link goes. A path that does not
visit it leads where it did, and the path of the link itself ends at the place where it was.

Main facts:
- `Disk.visits`: the locations that are looked up on the way of a path
- `Disk.resolve_congr`: paths depend on what they visit
- `Disk.RemovesLink.find?_eq`, `Disk.RemovesLink.resolve_self`: what is seen when a link goes
- `Disk.Covers.visits_prefix`: with fewer links, a path visits no more than before
-/

namespace TypedSettings.Disk

/-! ## §1 Visits -/

/-- The locations that are looked up when names are followed from a directory. -/
def visitsFrom (disk : Disk) (links : Nat) (origin : Location) : List String → List Location
  | [] => []
  | name :: rest =>
    if staysInPlace name then visitsFrom disk links origin rest
    else if name = ".." then visitsFrom disk links origin.dropLast rest
    else if isOverlong name then []
    else (origin ++ [name]) :: match disk.get? (origin ++ [name]) with
      | some .directory => visitsFrom disk links (origin ++ [name]) rest
      | some (.link target) =>
        match links with
        | 0 => []
        | links + 1 =>
          visitsFrom disk links (if target.isAbsolute then [] else origin) (target.steps ++ rest)
      | _ => []
termination_by names => (links, names.length)

/-- The locations that are looked up on the way of a path. -/
def visits (disk : Disk) (path : Path) : List Location :=
  disk.visitsFrom linkLimit (disk.origin path) path.steps

section

variable {disk next : Disk} {links : Nat} {origin location : Location} {name : String}
  {names rest : List String}

theorem visitsFrom_nil : disk.visitsFrom links origin [] = [] := by
  rw [visitsFrom]

theorem visitsFrom_of_stays (h : staysInPlace name) :
    disk.visitsFrom links origin (name :: rest) = disk.visitsFrom links origin rest := by
  rw [visitsFrom, if_pos h]

theorem visitsFrom_up :
    disk.visitsFrom links origin (".." :: rest) = disk.visitsFrom links origin.dropLast rest := by
  rw [visitsFrom, if_neg (by decide), if_pos rfl]

theorem visitsFrom_of_isOverlong (hdown : ¬ staysInPlace name ∧ name ≠ "..")
    (hlong : isOverlong name) : disk.visitsFrom links origin (name :: rest) = [] := by
  rw [visitsFrom, if_neg hdown.1, if_neg hdown.2, if_pos hlong]

theorem visitsFrom_of_isLookedUp (h : IsLookedUp false name rest) :
    disk.visitsFrom links origin (name :: rest) =
      (origin ++ [name]) :: match disk.get? (origin ++ [name]) with
        | some .directory => visitsFrom disk links (origin ++ [name]) rest
        | some (.link target) =>
          match links with
          | 0 => []
          | links + 1 =>
            visitsFrom disk links (if target.isAbsolute then [] else origin) (target.steps ++ rest)
        | _ => [] := by
  rw [visitsFrom.eq_2, if_neg h.down.1, if_neg h.down.2, if_neg h.fits]

/-! ## §2 Entries that are visited -/

/-- **Walks depend on what they visit.** -/
theorem walk_congr
    (h : ∀ other ∈ disk.visitsFrom links origin names, next.get? other = disk.get? other) :
    next.walk false links origin names = disk.walk false links origin names ∧
      next.visitsFrom links origin names = disk.visitsFrom links origin names := by
  induction links, origin, names using visitsFrom.induct with
  | case1 => exact ⟨by rw [walk, walk], by rw [visitsFrom_nil, visitsFrom_nil]⟩
  | case2 links origin name rest hstay ih =>
    rw [visitsFrom_of_stays hstay] at h ⊢
    rw [walk, if_pos hstay, walk, if_pos hstay, visitsFrom_of_stays hstay]
    exact ih h
  | case3 links origin rest _ ih =>
    rw [visitsFrom_up] at h ⊢
    rw [walk, if_neg (by decide), if_pos rfl, walk, if_neg (by decide), if_pos rfl, visitsFrom_up]
    exact ih h
  | case4 links origin name rest hstay hup hlong =>
    rw [visitsFrom_of_isOverlong ⟨hstay, hup⟩ hlong, visitsFrom_of_isOverlong ⟨hstay, hup⟩ hlong]
    rw [walk, if_neg hstay, if_neg hup, if_neg (by simp), if_pos hlong]
    rw [walk, if_neg hstay, if_neg hup, if_neg (by simp), if_pos hlong]
    exact ⟨rfl, rfl⟩
  | case5 links origin name rest hstay hup hlong ih ihlink =>
    have hname : IsLookedUp false name rest := ⟨⟨hstay, hup⟩, by simp, hlong⟩
    rw [visitsFrom_of_isLookedUp hname, List.forall_mem_cons] at h
    rw [visitsFrom_of_isLookedUp hname, visitsFrom_of_isLookedUp hname,
      walk_cons_of_isLookedUp hname, walk_cons_of_isLookedUp hname, h.1]
    cases hentry : disk.get? (origin ++ [name]) with
    | none => exact ⟨rfl, rfl⟩
    | some entry =>
      rw [hentry] at h
      cases entry with
      | file content => exact ⟨rfl, rfl⟩
      | directory =>
        obtain ⟨hwalk, hvisits⟩ := ih h.2
        exact ⟨hwalk, congrArg _ hvisits⟩
      | link target =>
        cases links with
        | zero => exact ⟨rfl, rfl⟩
        | succ links =>
          obtain ⟨hwalk, hvisits⟩ := ihlink target h.2
          exact ⟨hwalk, congrArg _ hvisits⟩

/-- A walk that visits a location without an entry ends there. -/
theorem eq_of_mem_visitsFrom {other : Location} (hmem : other ∈ disk.visitsFrom links origin names)
    (hentry : disk.get? other = none)
    (h : disk.walk false links origin names = .ok location) : location = other := by
  induction links, origin, names using visitsFrom.induct with
  | case1 =>
    rw [visitsFrom_nil] at hmem
    cases hmem
  | case2 links origin name rest hstay ih =>
    rw [visitsFrom_of_stays hstay] at hmem
    rw [walk, if_pos hstay] at h
    exact ih hmem h
  | case3 links origin rest _ ih =>
    rw [visitsFrom_up] at hmem
    rw [walk, if_neg (by decide), if_pos rfl] at h
    exact ih hmem h
  | case4 links origin name rest hstay hup hlong =>
    rw [visitsFrom_of_isOverlong ⟨hstay, hup⟩ hlong] at hmem
    cases hmem
  | case5 links origin name rest hstay hup hlong ih ihlink =>
    have hname : IsLookedUp false name rest := ⟨⟨hstay, hup⟩, by simp, hlong⟩
    rw [visitsFrom_of_isLookedUp hname] at hmem
    rw [walk_cons_of_isLookedUp hname] at h
    rcases List.mem_cons.mp hmem with rfl | hmem
    · -- Nothing can be looked up where nothing is.
      rw [hentry] at h
      dsimp only at h
      split at h
      next => exact (Except.ok.inj h).symm
      next => cases h
    · cases hfound : disk.get? (origin ++ [name]) with
      | none =>
        rw [hfound] at hmem
        cases hmem
      | some entry =>
        rw [hfound] at hmem h
        cases entry with
        | file content => cases hmem
        | directory => exact ih hmem h
        | link target =>
          cases links with
          | zero => cases hmem
          | succ links => exact ihlink target hmem h

/-- The last name of a path is looked up in the directory that the names before it lead to. -/
theorem Walks.mem_visitsFrom (h : Walks disk false links origin names location)
    (hlocation : disk.get? location = some .directory) (hname : IsLookedUp false name []) :
    location ++ [name] ∈ disk.visitsFrom links origin (names ++ [name]) := by
  have hmore {other : String} {names : List String} (h : IsLookedUp false other names) :
      IsLookedUp false other (names ++ [name]) := ⟨h.down, by simp, h.fits⟩
  induction h with
  | done =>
    rw [List.nil_append, visitsFrom_of_isLookedUp hname]
    exact List.mem_cons_self
  | stay hstay _ ih =>
    rw [List.cons_append, visitsFrom_of_stays hstay]
    exact ih hlocation
  | up _ ih =>
    rw [List.cons_append, visitsFrom_up]
    exact ih hlocation
  | vacant _ hentry => simp [hentry] at hlocation
  | file _ hentry => simp [hentry] at hlocation
  | enter h hentry _ ih =>
    rw [List.cons_append, visitsFrom_of_isLookedUp (hmore h), hentry]
    exact List.mem_cons_of_mem _ (ih hlocation)
  | follow h hentry _ ih =>
    rw [List.append_assoc] at ih
    rw [List.cons_append, visitsFrom_of_isLookedUp (hmore h), hentry]
    exact List.mem_cons_of_mem _ (ih hlocation)

end

/-! ## §3 Links that go -/

section

variable {disk next : Disk} {path : Path} {location : Location}

/-- Nothing leads to a link. -/
theorem IsSound.get?_resolve_ne_link (sound : disk.IsSound) (h : disk.resolve path = .ok location)
    (target : Path) : disk.get? location ≠ some (.link target) := by
  have hwalks := (resolve_eq_ok_iff.mp h).2
  cases sound.reachable_of_walks (sound.get?_origin path) hwalks with
  | directory hentry => simp [hentry]
  | file _ hentry => simp [hentry]
  | vacant _ hentry => simp [hentry]

/-- **Paths depend on what they visit.** -/
theorem resolve_congr (hstart : next.workingDirectory = disk.workingDirectory)
    (h : ∀ other ∈ disk.visits path, next.get? other = disk.get? other) :
    next.resolve path = disk.resolve path ∧ next.visits path = disk.visits path := by
  have horigin : next.origin path = disk.origin path := by
    rw [origin, origin, hstart]
  obtain ⟨hwalk, hvisits⟩ := walk_congr h
  refine ⟨?_, by rw [visits, horigin, hvisits, visits]⟩
  rw [resolve, resolve, horigin]
  exact congrArg _ (funext fun _ => hwalk)

theorem get?_without_of_mem (hne : location ≠ []) {visited : List Location}
    (hvisits : location ∉ visited) :
    ∀ other ∈ visited, (disk.without location).get? other = disk.get? other := by
  intro other hother
  rw [disk.get?_without hne, if_neg]
  rintro rfl
  exact hvisits hother

/-- What would be removed in place of the file that a path leads to: the link that has its name. -/
structure RemovesLink (disk : Disk) (path : Path) (location : Location) : Prop where
  present : disk.pathExists path
  own : disk.ownLocation path = .ok location
  isLink : ∃ target, disk.get? location = some (.link target)

theorem RemovesLink.ne_nil (h : disk.RemovesLink path location) : location ≠ [] := by
  obtain ⟨before, parent, name, -, rfl, -⟩ := exists_of_ownLocation h.own
  simp

/-- A path that does not visit the link leads where it did when that is gone. -/
theorem RemovesLink.resolve_eq {gone : Path} (h : disk.RemovesLink gone location)
    (hvisits : location ∉ disk.visits path) :
    (disk.without location).resolve path = disk.resolve path := by
  have hstart : (disk.without location).workingDirectory = disk.workingDirectory := rfl
  exact (resolve_congr hstart (get?_without_of_mem h.ne_nil hvisits)).1

/-- And it is seen as before. -/
theorem RemovesLink.find?_eq {gone : Path} (h : disk.RemovesLink gone location)
    (sound : disk.IsSound) (hvisits : location ∉ disk.visits path) :
    (disk.without location).find? path = disk.find? path := by
  obtain ⟨target, htarget⟩ := h.isLink
  rw [find?, find?, h.resolve_eq hvisits]
  cases hresolve : disk.resolve path with
  | error fault => rfl
  | ok found =>
    have hne : location ≠ found := by
      rintro rfl
      exact sound.get?_resolve_ne_link hresolve target htarget
    exact (disk.get?_without h.ne_nil).trans (if_neg hne)

/-- Without the link, its own path leads no further than to the place where it was. -/
theorem RemovesLink.resolve_self (h : disk.RemovesLink path location) {found : Location}
    (hresolve : (disk.without location).resolve path = .ok found) : found = location := by
  obtain ⟨before, parent, name, hsteps, rfl, -, hwalks, hparent, hname, -⟩ :=
    exists_of_ownLocation h.own
  have hget : (disk.without (parent ++ [name])).get? (parent ++ [name]) = none :=
    (disk.get?_without h.ne_nil).trans (if_pos rfl)
  have hvisits : parent ++ [name] ∈ (disk.without (parent ++ [name])).visits path := by
    by_contra hvisits
    have hbefore : parent ++ [name] ∈ disk.visits path := by
      rw [visits, hsteps]
      exact hwalks.mem_visitsFrom hparent hname
    have hstart : disk.workingDirectory = (disk.without (parent ++ [name])).workingDirectory := rfl
    have hsame := (resolve_congr hstart fun other hother =>
      (get?_without_of_mem h.ne_nil hvisits other hother).symm).2
    exact hvisits (hsame ▸ hbefore)
  exact eq_of_mem_visitsFrom hvisits hget (walk_of_walks (resolve_eq_ok_iff.mp hresolve).2)

end

/-! ## §4 Fewer links -/

/-- All directories and links of `next` are those of `disk`. -/
structure Covers (disk next : Disk) : Prop where
  workingDirectory : next.workingDirectory = disk.workingDirectory
  directory : ∀ {location},
    next.get? location = some .directory → disk.get? location = some .directory
  link : ∀ {location target},
    next.get? location = some (.link target) → disk.get? location = some (.link target)

theorem SamePassage.covers {disk next : Disk} (h : SamePassage disk next) : Covers disk next :=
  ⟨h.workingDirectory, h.directory.mp, h.link.mp⟩

theorem covers_without (disk : Disk) {location : Location} (hne : location ≠ []) :
    Covers disk (disk.without location) := by
  refine ⟨rfl, fun {other} h => ?_, fun {other target} h => ?_⟩
  · rw [disk.get?_without hne] at h
    split at h
    next => cases h
    next => exact h
  · rw [disk.get?_without hne] at h
    split at h
    next => cases h
    next => exact h

namespace Covers

variable {disk next : Disk} {links : Nat} {origin location : Location} {names : List String}
  {path : Path}

/-- Directories that are found are found with more links as well. -/
theorem walks (h : Covers disk next) (hwalks : Walks next false links origin names location)
    (hlocation : next.get? location = some .directory) :
    Walks disk false links origin names location := by
  induction hwalks with
  | done => exact .done
  | stay hstay _ ih => exact .stay hstay (ih hlocation)
  | up _ ih => exact .up (ih hlocation)
  | vacant _ hentry => simp [hentry] at hlocation
  | file _ hentry => simp [hentry] at hlocation
  | enter hname hentry _ ih => exact .enter hname (h.directory hentry) (ih hlocation)
  | follow hname hentry _ ih => exact .follow hname (h.link hentry) (ih hlocation)

theorem visitsFrom_prefix (h : Covers disk next) (links : Nat) (origin : Location)
    (names : List String) :
    next.visitsFrom links origin names <+: disk.visitsFrom links origin names := by
  induction links, origin, names using visitsFrom.induct with
  | case1 => rw [visitsFrom_nil, visitsFrom_nil]
  | case2 links origin name rest hstay ih =>
    rw [visitsFrom_of_stays hstay, visitsFrom_of_stays hstay]
    exact ih
  | case3 links origin rest _ ih =>
    rw [visitsFrom_up, visitsFrom_up]
    exact ih
  | case4 links origin name rest hstay hup hlong =>
    rw [visitsFrom_of_isOverlong ⟨hstay, hup⟩ hlong]
    exact List.nil_prefix
  | case5 links origin name rest hstay hup hlong ih ihlink =>
    have hname : IsLookedUp false name rest := ⟨⟨hstay, hup⟩, by simp, hlong⟩
    rw [visitsFrom_of_isLookedUp hname, visitsFrom_of_isLookedUp hname, List.prefix_cons_inj]
    cases hentry : next.get? (origin ++ [name]) with
    | none => exact List.nil_prefix
    | some entry =>
      cases entry with
      | file content => exact List.nil_prefix
      | directory =>
        rw [h.directory hentry]
        exact ih
      | link target =>
        rw [h.link hentry]
        cases links with
        | zero => exact List.nil_prefix
        | succ links => exact ihlink target

/-- **Fewer links**: a path visits no more than before. -/
theorem visits_prefix (h : Covers disk next) (path : Path) :
    next.visits path <+: disk.visits path := by
  have horigin : next.origin path = disk.origin path := by
    rw [origin, origin, h.workingDirectory]
  rw [visits, visits, horigin]
  exact h.visitsFrom_prefix _ _ _

/-- Links that would go are there with more links as well. -/
theorem removesLink (h : Covers disk next) (hlink : next.RemovesLink path location)
    (hpresent : disk.pathExists path) : disk.RemovesLink path location := by
  obtain ⟨target, htarget⟩ := hlink.isLink
  obtain ⟨before, parent, name, hsteps, rfl, hcheck, hwalks, hparent, hname, -⟩ :=
    exists_of_ownLocation hlink.own
  have horigin : next.origin path = disk.origin path := by
    rw [origin, origin, h.workingDirectory]
  have hwalks := h.walks (horigin ▸ hwalks) hparent
  exact ⟨hpresent, ownLocation_eq_ok hsteps hcheck hwalks (h.directory hparent) hname
    (h.link htarget) (by simp), target, h.link htarget⟩

end Covers

end TypedSettings.Disk

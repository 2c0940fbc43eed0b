import Mathlib
import TypedSettings.Generation.Generator
import TypedSettings.Proofs.FileTree.Tree

/-!
# Isolated variants

The pass of a variant reads one file: the first candidate that has its settings file name. Nothing
else that lies among the candidates or on the disk can be told from its outcome, and as the two
settings files never have the same name, neither variant can tell anything of the other.

Main facts:
- `Generation.FirstNamed`: which candidate is read
- `Generation.runVariant_congr`: what the outcome of a variant depends on
- `Generation.variants_isolated`: the isolation of both variants
-/

namespace TypedSettings

/-- The two settings files of a program never have the same name. -/
theorem Variant.fileName_inj {program : String} {first second : Variant}
    (h : first.fileName program = second.fileName program) : first = second := by
  have hlength := congrArg String.length h
  cases first <;> cases second <;>
    simp only [fileName, String.length_append] at hlength ⊢
  · have : "settings.json".length < ".settings.json".length := by decide
    omega
  · have : "settings.json".length < ".settings.json".length := by decide
    omega

namespace Generation

/-! ## §1 The candidate that is read -/

/-- `FirstNamed name path candidates`: of the candidates with a file name the first is `path`. -/
def FirstNamed (name : String) (path : Path) (candidates : List Path) : Prop :=
  ∃ before after, candidates = before ++ path :: after ∧ path.fileName? = some name ∧
    ∀ earlier ∈ before, earlier.fileName? ≠ some name

theorem input?_eq_some_iff {program : String} {candidates : List Path} {variant : Variant}
    {path : Path} : input? program candidates variant = some path ↔
      FirstNamed (variant.fileName program) path candidates := by
  rw [input?, List.find?_eq_some_iff_append]
  constructor
  · rintro ⟨hname, before, after, hsplit, hbefore⟩
    refine ⟨before, after, hsplit, by simpa using hname, fun earlier hearlier => ?_⟩
    simpa using hbefore earlier hearlier
  · rintro ⟨before, after, hsplit, hname, hbefore⟩
    refine ⟨by simpa using hname, before, after, hsplit, fun earlier hearlier => ?_⟩
    simpa using hbefore earlier hearlier

theorem input?_eq_none_iff {program : String} {candidates : List Path} {variant : Variant} :
    input? program candidates variant = none ↔
      ∀ path ∈ candidates, path.fileName? ≠ some (variant.fileName program) := by
  simp [input?]

/-- Among candidates with different file names the order does not matter. -/
theorem firstNamed_iff_mem {name : String} {path : Path} {candidates : List Path}
    (h : (candidates.filterMap Path.fileName?).Nodup) :
    FirstNamed name path candidates ↔ path ∈ candidates ∧ path.fileName? = some name := by
  constructor
  · rintro ⟨before, after, rfl, hname, -⟩
    exact ⟨List.mem_append_right _ List.mem_cons_self, hname⟩
  · rintro ⟨hmem, hname⟩
    obtain ⟨before, after, rfl⟩ := List.append_of_mem hmem
    refine ⟨before, after, rfl, hname, fun earlier hearlier hsame => ?_⟩
    rw [List.filterMap_append, List.filterMap_cons_some hname] at h
    exact (List.nodup_append.mp h).2.2 name (List.mem_filterMap.mpr ⟨earlier, hearlier, hsame⟩)
      name List.mem_cons_self rfl

theorem input?_perm {program : String} {first second : List Path} (variant : Variant)
    (hperm : first.Perm second) (h : (first.filterMap Path.fileName?).Nodup) :
    input? program first variant = input? program second variant := by
  have hsecond : (second.filterMap Path.fileName?).Nodup := (hperm.filterMap _).nodup_iff.mp h
  ext path
  rw [input?_eq_some_iff, input?_eq_some_iff, firstNamed_iff_mem h,
    firstNamed_iff_mem hsecond, hperm.mem_iff]

/-! ## §2 Outcomes -/

/-- What one pass sees: the candidate it reads, and what reading that gives. -/
theorem runVariant_congr {program : String} {variant : Variant} {disk disk' : Disk}
    {candidates candidates' : List Path}
    (hinput : input? program candidates variant = input? program candidates' variant)
    (hcontent : ∀ path, input? program candidates variant = some path →
      disk.readText path = disk'.readText path) :
    runVariant disk program candidates variant = runVariant disk' program candidates' variant := by
  unfold runVariant
  rw [← hinput]
  cases h : input? program candidates variant with
  | none => rfl
  | some path =>
    dsimp only
    rw [hcontent path h]

theorem runVariant_of_none {program : String} {variant : Variant} {candidates : List Path}
    (disk : Disk) (h : input? program candidates variant = none) :
    runVariant disk program candidates variant = .error (.notFound (variant.fileName program)) := by
  rw [runVariant, h]

/-- Different runs differ in the outcome of a variant. -/
theorem exists_of_run_ne {disk disk' : Disk} {program : String} {paths paths' : List Path}
    (h : run disk program paths ≠ run disk' program paths') :
    ∃ variant, runVariant disk program paths variant ≠ runVariant disk' program paths' variant := by
  by_contra hsame
  push Not at hsame
  apply h
  unfold run
  simp only [hsame]

/-- **Isolation**: a run has one outcome for each variant, the public one first. The outcome of a
variant is settled by the first candidate with its settings file name and by what reading that
gives, whatever else the candidates and the disk hold; without such a candidate nothing is found. No
candidate is read for both variants, and candidates of different file names may be listed in any
order. -/
theorem variants_isolated (program : String) :
    (∀ disk candidates, run disk program candidates =
      [⟨.publicSettings, runVariant disk program candidates .publicSettings⟩,
        ⟨.internalSettings, runVariant disk program candidates .internalSettings⟩]) ∧
    (∀ (variant : Variant) disk disk' candidates candidates' path,
      FirstNamed (variant.fileName program) path candidates →
      FirstNamed (variant.fileName program) path candidates' →
      disk.readText path = disk'.readText path →
      runVariant disk program candidates variant =
        runVariant disk' program candidates' variant) ∧
    (∀ (variant : Variant) disk candidates,
      (∀ path ∈ candidates, path.fileName? ≠ some (variant.fileName program)) →
      runVariant disk program candidates variant =
        .error (.notFound (variant.fileName program))) ∧
    (∀ candidates candidates' path,
      FirstNamed (Variant.publicSettings.fileName program) path candidates →
      ¬ FirstNamed (Variant.internalSettings.fileName program) path candidates') ∧
    (∀ disk candidates candidates', candidates.Perm candidates' →
      (candidates.filterMap Path.fileName?).Nodup →
      run disk program candidates = run disk program candidates') := by
  refine ⟨fun _ _ => rfl, ?settled, ?missing, ?apart, ?reordered⟩
  case settled =>
    intro variant disk disk' candidates candidates' path hfirst hfirst' hcontent
    rw [← input?_eq_some_iff] at hfirst hfirst'
    refine runVariant_congr (hfirst.trans hfirst'.symm) fun found hfound => ?_
    cases hfirst.symm.trans hfound
    exact hcontent
  case missing =>
    intro variant disk candidates h
    exact runVariant_of_none disk (input?_eq_none_iff.mpr h)
  case apart =>
    rintro candidates candidates' path ⟨-, -, -, hpublic, -⟩ ⟨-, -, -, hinternal, -⟩
    cases Variant.fileName_inj (Option.some.inj (hpublic.symm.trans hinternal))
  case reordered =>
    intro disk candidates candidates' hperm hnodup
    unfold run
    congr 1
    funext variant
    rw [runVariant_congr (input?_perm variant hperm hnodup) fun _ _ => rfl]

/-- A program with both settings files. -/
def bothFiles : Disk where
  entries := [(["src"], .directory), (["src", "settings.json"], .file (.text "{}")),
    (["src", "demo.settings.json"], .file (.text "{}"))]
  workingDirectory := []
  written := []

/-- The same program after its internal settings file was broken. -/
def brokenInternal : Disk where
  entries := [(["src"], .directory), (["src", "settings.json"], .file (.text "{}")),
    (["src", "demo.settings.json"], .file (.text "\x7b broken"))]
  workingDirectory := []
  written := []

theorem variants_isolated_broken :
    bothFiles.find? ⟨"/src/demo.settings.json"⟩ ≠ brokenInternal.find? ⟨"/src/demo.settings.json"⟩ ∧
    runVariant bothFiles "demo" [⟨"/src/demo.settings.json"⟩, ⟨"/src/settings.json"⟩]
        .publicSettings =
      runVariant brokenInternal "demo"
        [⟨"/src/a.txt"⟩, ⟨"/src/settings.json"⟩, ⟨"/src/demo.settings.json"⟩] .publicSettings := by
  have tree : bothFiles.IsTree := by decide
  have tree' : brokenInternal.IsTree := by decide
  have hopens : bothFiles.Opens ⟨"/src"⟩ ["src"] := by decide
  have hopens' : brokenInternal.Opens ⟨"/src"⟩ ["src"] := by decide
  have hpublic : (⟨"/src/settings.json"⟩ : Path) = Path.child ⟨"/src"⟩ "settings.json" := by decide
  have hinternal : (⟨"/src/demo.settings.json"⟩ : Path) =
      Path.child ⟨"/src"⟩ "demo.settings.json" := by decide
  constructor
  · have hcheck : Disk.checkChild ⟨"/src"⟩ "demo.settings.json" = .ok () := by decide
    rw [hinternal, tree.find?_child hopens (by decide), tree'.find?_child hopens' (by decide),
      hcheck]
    decide
  · refine (variants_isolated "demo").2.1 .publicSettings _ _ _ _ ⟨"/src/settings.json"⟩
      ⟨[⟨"/src/demo.settings.json"⟩], [], rfl, by decide, by decide⟩
      ⟨[⟨"/src/a.txt"⟩], [⟨"/src/demo.settings.json"⟩], rfl, by decide, by decide⟩ ?_
    rw [hpublic, tree.readText_child hopens (by decide), tree'.readText_child hopens' (by decide)]
    rfl

end Generation

end TypedSettings

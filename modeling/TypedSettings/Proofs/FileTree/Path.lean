import Mathlib
import TypedSettings.FileTree.Path

/-!
# Paths of entries

The path of an entry in a directory is that of the directory with one more name, whether the path of
the directory ends in a slash, is absolute, or is empty and stands for the working directory.

Main facts:
- `Path.IsName`: the names that entries can have
- `Path.names_child`, `Path.steps_child`, `Path.fileName?_child`: the path of an entry
-/

namespace TypedSettings.Path

/-! ## §1 Names -/

/-- A name that an entry of a directory can have. -/
structure IsName (name : String) : Prop where
  ne_empty : name ≠ ""
  slash_notMem : '/' ∉ name.toList
  ne_dot : name ≠ "."
  ne_dots : name ≠ ".."

instance (name : String) : Decidable (IsName name) :=
  decidable_of_iff (name ≠ "" ∧ '/' ∉ name.toList ∧ name ≠ "." ∧ name ≠ "..")
    ⟨fun ⟨h₁, h₂, h₃, h₄⟩ => ⟨h₁, h₂, h₃, h₄⟩, fun ⟨h₁, h₂, h₃, h₄⟩ => ⟨h₁, h₂, h₃, h₄⟩⟩

/-! ## §2 Pieces between slashes -/

theorem splitSlashes_ne_nil (text : List Char) : splitSlashes text ≠ [] := by
  cases text with
  | nil => simp [splitSlashes]
  | cons c rest =>
    rw [splitSlashes]
    split
    · simp
    · split <;> simp

/-- A slash cuts a text in two. -/
theorem splitSlashes_append (first second : List Char) :
    splitSlashes (first ++ '/' :: second) = splitSlashes first ++ splitSlashes second := by
  induction first with
  | nil => simp [splitSlashes]
  | cons c rest ih =>
    rw [List.cons_append, splitSlashes, splitSlashes, ih]
    split
    · rfl
    · cases hrest : splitSlashes rest with
      | nil => exact absurd hrest (splitSlashes_ne_nil rest)
      | cons piece pieces => rfl

theorem splitSlashes_of_notMem {text : List Char} (h : '/' ∉ text) :
    splitSlashes text = [text] := by
  induction text with
  | nil => rfl
  | cons c rest ih =>
    rw [List.mem_cons, not_or] at h
    rw [splitSlashes, if_neg (Ne.symm h.1), ih h.2]

/-- No piece holds a slash. -/
theorem slash_notMem_of_mem_splitSlashes {text piece : List Char} (h : piece ∈ splitSlashes text) :
    '/' ∉ piece := by
  induction text generalizing piece with
  | nil =>
    rw [splitSlashes, List.mem_singleton] at h
    simp [h]
  | cons c rest ih =>
    rw [splitSlashes] at h
    split at h
    next =>
      rcases List.mem_cons.mp h with rfl | hmem
      · simp
      · exact ih hmem
    next hc =>
      split at h
      next hnil => exact absurd hnil (splitSlashes_ne_nil rest)
      next first pieces hsplit =>
        rw [hsplit] at ih
        rcases List.mem_cons.mp h with rfl | hmem
        · rw [List.mem_cons, not_or]
          exact ⟨Ne.symm hc, ih List.mem_cons_self⟩
        · exact ih (List.mem_cons_of_mem _ hmem)

/-- A name without a slash is cut into itself alone. -/
theorem pieces_of_slash_notMem {name : String} (hne : name ≠ "") (h : '/' ∉ name.toList) :
    ((splitSlashes name.toList).filter (!·.isEmpty)).map String.ofList = [name] := by
  have hpiece : name.toList.isEmpty = false := by
    rw [List.isEmpty_eq_false_iff, Ne, String.toList_eq_nil_iff]
    exact hne
  simp [splitSlashes_of_notMem h, hpiece]

/-- The names of a path are neither empty nor do they hold a slash. -/
theorem of_mem_names {path : Path} {name : String} (h : name ∈ path.names) :
    name ≠ "" ∧ '/' ∉ name.toList := by
  obtain ⟨piece, hpiece, rfl⟩ := List.mem_map.mp h
  obtain ⟨hmem, hne⟩ := List.mem_filter.mp hpiece
  refine ⟨fun hempty => ?_, ?_⟩
  · rw [String.ofList_eq_empty_iff] at hempty
    simp [hempty] at hne
  · rw [String.toList_ofList]
    exact slash_notMem_of_mem_splitSlashes hmem

/-- Only `.` and `..` are names of paths and not of entries. -/
theorem isName_of_mem_names {path : Path} {name : String} (h : name ∈ path.names)
    (hdot : name ≠ ".") (hdots : name ≠ "..") : IsName name :=
  ⟨(of_mem_names h).1, (of_mem_names h).2, hdot, hdots⟩

/-! ## §3 The path of an entry -/

section

variable {directory : Path} {name : String}

theorem text_child (h : IsName name) :
    (directory.child name).text =
      if directory.text = "" then name
      else if directory.endsInSlash then directory.text ++ name
      else directory.text ++ "/" ++ name := by
  have habsolute : isAbsolute ⟨name⟩ = false := by
    rw [isAbsolute, beq_eq_false_iff_ne]
    exact fun hhead => h.slash_notMem (List.mem_of_mem_head? hhead)
  rw [child, join, habsolute]
  split_ifs <;> simp_all

/-- The empty path stands for the working directory and has no names. -/
theorem names_of_text_eq_empty (h : directory.text = "") : directory.names = [] := by
  rw [names, h]
  rfl

theorem exists_of_endsInSlash (h : directory.endsInSlash) :
    ∃ before, directory.text.toList = before ++ ['/'] :=
  List.getLast?_eq_some_iff.mp (by simpa [endsInSlash] using h)

theorem names_child (h : IsName name) :
    (directory.child name).names = directory.names ++ [name] := by
  have hlast := pieces_of_slash_notMem h.ne_empty h.slash_notMem
  rw [names, text_child h]
  split_ifs with hempty hslash
  · rw [hlast, names_of_text_eq_empty hempty, List.nil_append]
  · obtain ⟨before, hbefore⟩ := exists_of_endsInSlash hslash
    rw [String.toList_append, hbefore, List.append_assoc, List.singleton_append,
      splitSlashes_append, List.filter_append, List.map_append, hlast, names, hbefore,
      splitSlashes_append]
    simp [splitSlashes]
  · rw [String.toList_append, String.toList_append, List.append_assoc]
    change List.map _ (List.filter _ (splitSlashes (_ ++ '/' :: name.toList))) = _
    rw [splitSlashes_append, List.filter_append, List.map_append, hlast, names]

theorem text_child_ne_empty (h : IsName name) : (directory.child name).text ≠ "" := fun hempty => by
  simpa [names_child h] using names_of_text_eq_empty hempty

theorem size_le_child (h : IsName name) :
    directory.text.utf8ByteSize + name.utf8ByteSize ≤ (directory.child name).text.utf8ByteSize := by
  rw [text_child h]
  split_ifs with hempty
  · simp [hempty]
  · rw [String.utf8ByteSize_append]
  · rw [String.utf8ByteSize_append, String.utf8ByteSize_append]
    omega

theorem getLast?_text_child (h : IsName name) :
    (directory.child name).text.toList.getLast? = name.toList.getLast? := by
  have hne : name.toList ≠ [] := by
    rw [Ne, String.toList_eq_nil_iff]
    exact h.ne_empty
  rw [text_child h]
  split_ifs
  · rfl
  · rw [String.toList_append, List.getLast?_append_of_ne_nil _ hne]
  · rw [String.toList_append, List.getLast?_append_of_ne_nil _ hne]

/-- A name ends in no slash, so its path may name a file. -/
theorem steps_child (h : IsName name) :
    (directory.child name).steps = directory.names ++ [name] := by
  have hends : (directory.child name).endsInSlash = false := by
    rw [endsInSlash, beq_eq_false_iff_ne, getLast?_text_child h]
    exact fun hlast => h.slash_notMem (List.mem_of_getLast? hlast)
  rw [steps, hends, names_child h]
  simp

theorem isAbsolute_child (h : IsName name) :
    (directory.child name).isAbsolute = directory.isAbsolute := by
  have hhead : name.toList.head? ≠ some '/' :=
    fun hhead => h.slash_notMem (List.mem_of_mem_head? hhead)
  rw [isAbsolute, isAbsolute, text_child h]
  split_ifs with hempty
  · rw [hempty]
    simpa using hhead
  all_goals
    rw [← String.toList_eq_nil_iff] at hempty
    simp [List.head?_append_of_ne_nil _ hempty]

theorem fileName?_child (h : IsName name) : (directory.child name).fileName? = some name := by
  have hlast : (directory.child name).significantNames.getLast? = some name := by
    rw [significantNames, names_child h]
    cases directory.names with
    | nil => simp [h.ne_dot]
    | cons first rest =>
      have hrest : (rest ++ [name]).filter (· ≠ ".") = rest.filter (· ≠ ".") ++ [name] := by
        simp [h.ne_dot]
      simp only [List.cons_append, hrest]
      split_ifs
      · exact List.getLast?_concat
      · rw [← List.cons_append]
        exact List.getLast?_concat
  rw [fileName?, hlast]
  simp [h.ne_dot, h.ne_dots]

end

end TypedSettings.Path

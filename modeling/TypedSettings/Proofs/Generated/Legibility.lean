import Mathlib
import TypedSettings.Proofs.Generated.Descendants
import TypedSettings.Proofs.Generated.Keys
import TypedSettings.Proofs.Generated.Lines
import TypedSettings.Proofs.Schema.Image

/-!
# Legible sources

The source of a variant carries the whole plan that it was made from. A declaration or a statement
is known from its lines, whatever lines follow: a structure ends at its closing brace or is empty,
and the fields of a structure expression end at a line that is indented less than they are. Where
all keys are plain, sources that are the same therefore have the same properties, value types and
statements. The scalar types that an initializer records are not spelled in its statements.

Main facts:
- `Source.structureLines_append_inj`: declarations are known from their lines
- `Step.SameUpToTypes.of_blockLines`: statements are known from their lines
- `Schema.source_determines_plan`: sources that are the same have the same plan
-/

namespace TypedSettings

open Identifier (IsPlainKey IsWord IsWordChar EndsWord)

/-! ## §1 Words in lines -/

namespace Identifier

/-- A word is known where something else follows. -/
theorem IsWord.append_inj {first second rest rest' : String} (hfirst : IsWord first)
    (hsecond : IsWord second) (hrest : EndsWord rest) (hrest' : EndsWord rest')
    (h : first ++ rest = second ++ rest') : first = second ∧ rest = rest' := by
  have hchars : first.toList ++ rest.toList = second.toList ++ rest'.toList := by
    simpa using congrArg String.toList h
  obtain ⟨hword, hend⟩ :=
    append_inj_of_delimited IsWordChar hfirst.chars hsecond.chars hrest hrest' hchars
  exact ⟨String.toList_injective hword, String.toList_injective hend⟩

theorem endsWord_brace (rest : String) : EndsWord (" \x7b" ++ rest) := by
  simp +decide [EndsWord]

theorem endsWord_empty (rest : String) : EndsWord (" \x7b\x7d" ++ rest) := by
  simp +decide [EndsWord]

theorem endsWord_colon (rest : String) : EndsWord (": " ++ rest) := by
  simp +decide [EndsWord]

end Identifier

open Identifier (endsWord_brace endsWord_empty endsWord_colon)

/-! ## §2 Declarations -/

theorem ScalarType.spelling_injective {first second : ScalarType}
    (h : first.spelling = second.spelling) : first = second := by
  induction first generalizing second with
  | sequence item ih =>
    cases second with
    | sequence item' =>
      have hitem : item.spelling = item'.spelling := by
        simpa [spelling, ← String.toList_inj] using h
      rw [ih hitem]
    | _ => simpa [spelling] using congrArg String.toList h
  | _ =>
    cases second with
    | sequence item => simpa [spelling] using congrArg String.toList h
    | _ => first | rfl | exact absurd h (by decide)

/-- The identifier and the type of a field, as they are declared. -/
def Field.signature (field : Field) : String × FieldType := (field.ident, field.type)

/-- The name and the fields of a structure, as they are declared. -/
def ValueType.signature (type : ValueType) : String × List (String × FieldType) :=
  (type.name, type.fields.map Field.signature)

theorem ScalarType.colon_mem_spelling (type : ScalarType) : ':' ∈ type.spelling.toList := by
  cases type <;> simp [spelling, String.join]

/-- Scalar types are spelled by paths, and structures by words. -/
theorem scalar_spelling_ne {type : ScalarType} {name : String} (h : IsWord name) :
    type.spelling ≠ name := by
  rintro rfl
  exact absurd (h.chars ':' type.colon_mem_spelling) (by decide)

theorem Field.Legible.type_eq {first second : Field} (hfirst : first.Legible)
    (hsecond : second.Legible) (h : first.type.spelling = second.type.spelling) :
    first.type = second.type := by
  cases hleft : first.type with
  | scalar type =>
    cases hright : second.type with
    | scalar type' =>
      rw [hleft, hright] at h
      exact congrArg FieldType.scalar (ScalarType.spelling_injective h)
    | value name =>
      rw [hleft, hright] at h
      exact absurd h (scalar_spelling_ne (hsecond.type name hright))
  | value name =>
    cases hright : second.type with
    | scalar type =>
      rw [hleft, hright] at h
      exact absurd h.symm (scalar_spelling_ne (hfirst.type name hleft))
    | value name' =>
      rw [hleft, hright] at h
      exact congrArg FieldType.value h

namespace Source

theorem indent_succ (level : Nat) : indent (level + 1) = indent level ++ "    " := by
  apply String.toList_injective
  rw [String.toList_append, indent, indent, String.toList_ofList, String.toList_ofList,
    Nat.mul_add, List.replicate_add]
  rfl

theorem signature_eq_of_fieldLine {first second : Field} (hfirst : first.Legible)
    (hsecond : second.Legible) (h : fieldLine first = fieldLine second) :
    first.signature = second.signature := by
  simp only [fieldLine, String.append_assoc, String.append_right_inj] at h
  obtain ⟨hident, hrest⟩ :=
    hfirst.ident.append_inj hsecond.ident (endsWord_colon _) (endsWord_colon _) h
  rw [String.append_right_inj, String.append_left_inj] at hrest
  rw [Field.signature, Field.signature, hident, hfirst.type_eq hsecond hrest]

theorem map_signature_eq : ∀ {first second : List Field}, (∀ field ∈ first, field.Legible) →
    (∀ field ∈ second, field.Legible) → first.map fieldLine = second.map fieldLine →
    first.map Field.signature = second.map Field.signature
  | [], [], _, _, _ => rfl
  | field :: fields, field' :: fields', hfirst, hsecond, h => by
    rw [List.forall_mem_cons] at hfirst hsecond
    obtain ⟨hhead, htail⟩ := List.cons.inj h
    rw [List.map_cons, List.map_cons, signature_eq_of_fieldLine hfirst.1 hsecond.1 hhead,
      map_signature_eq hfirst.2 hsecond.2 htail]

theorem fieldLine_ne_closing (field : Field) : fieldLine field ≠ indent 1 ++ "\x7d" := by
  intro h
  rw [fieldLine, indent_succ] at h
  simp only [String.append_assoc, String.append_right_inj] at h
  simpa using congrArg String.toList h

/-- **Declarations are known from their lines**, whatever lines follow. -/
theorem structureLines_append_inj {name name' : String} {fields fields' : List Field}
    {rest rest' : List String} (hname : IsWord name) (hname' : IsWord name')
    (hfields : ∀ field ∈ fields, field.Legible) (hfields' : ∀ field ∈ fields', field.Legible)
    (h : structureLines name fields ++ rest = structureLines name' fields' ++ rest') :
    name = name' ∧ fields.map Field.signature = fields'.map Field.signature ∧ rest = rest' := by
  -- Empty structures are told from others by their first line.
  have hhead {closing closing' : String} (hends : EndsWord closing) (hends' : EndsWord closing')
      (h : indent 1 ++ "pub struct " ++ name ++ closing =
        indent 1 ++ "pub struct " ++ name' ++ closing') : name = name' ∧ closing = closing' := by
    simp only [String.append_assoc, String.append_right_inj] at h
    exact hname.append_inj hname' hends hends' h
  have hbrace : EndsWord " \x7b" := endsWord_brace ""
  have hempty : EndsWord " \x7b\x7d" := endsWord_empty ""
  cases fields with
  | nil =>
    cases fields' with
    | nil =>
      simp only [structureLines, List.cons_append, List.nil_append, List.cons.injEq, true_and] at h
      exact ⟨(hhead hempty hempty h.1).1, rfl, h.2⟩
    | cons field' fields' =>
      simp only [structureLines, List.cons_append, List.nil_append, List.cons.injEq, true_and] at h
      exact absurd (hhead hempty hbrace h.1).2 (by decide)
  | cons field fields =>
    cases fields' with
    | nil =>
      simp only [structureLines, List.cons_append, List.nil_append, List.cons.injEq, true_and] at h
      exact absurd (hhead hbrace hempty h.1).2 (by decide)
    | cons field' fields' =>
      simp only [structureLines, List.cons_append, List.append_assoc, List.nil_append,
        List.cons.injEq, true_and] at h
      have hlines (fields : List Field) :
          ∀ line ∈ fields.map fieldLine, line ≠ indent 1 ++ "\x7d" := by
        intro line hline
        obtain ⟨field, -, rfl⟩ := List.mem_map.mp hline
        exact fieldLine_ne_closing field
      obtain ⟨hsame, hrest⟩ := append_inj_of_delimited (· ≠ indent 1 ++ "\x7d") (hlines _)
        (hlines _) (by simp) (by simp) h.2
      exact ⟨(hhead hbrace hbrace h.1).1, map_signature_eq hfields hfields' hsame,
        (List.cons.inj hrest).2⟩

end Source

/-! ## §3 Statements -/

/-- Steps that assign the same targets from the same paths, or construct the same structures from
such steps. The scalar types that they record can differ. -/
inductive Step.SameUpToTypes : Step → Step → Prop where
  | read {target : String} {path : KeyPath} {type type' : ScalarType} :
      SameUpToTypes (.read target path type) (.read target path type')
  | construct {target typeName : String} {fields fields' : List Step}
      (fields_same : List.Forall₂ SameUpToTypes fields fields') :
      SameUpToTypes (.construct target typeName fields) (.construct target typeName fields')

namespace Source

theorem fieldsLines_eq_flatMap (level : Nat) (fields : List Step) :
    fieldsLines level fields =
      fields.flatMap fun field => stepLines level ("" ++ field.target ++ ": ") "," field := by
  induction fields with
  | nil => rfl
  | cons field fields ih => rw [fieldsLines, List.flatMap_cons, ih, String.empty_append]

/-- A call is spelled from the root, and a structure expression by a word. -/
theorem readCall_append_ne {path : KeyPath} {typeName rest rest' : String} (h : IsWord typeName) :
    readCall path ++ rest' ≠ typeName ++ rest := by
  intro hsame
  obtain ⟨first, chars, hname, hfirst⟩ := h.start
  have hcolon : (typeName ++ rest).toList.head? = some ':' := by
    rw [← hsame]
    simp [readCall]
  obtain rfl : first = ':' := by simpa [hname] using hcolon
  exact absurd hfirst (by decide)

/-- What stands behind the opening in the first line of a step. -/
def firstTail (closing : String) : Step → String
  | .read _ path _ => readCall path ++ closing
  | .construct _ typeName [] => typeName ++ (" \x7b\x7d" ++ closing)
  | .construct _ typeName (_ :: _) => typeName ++ " \x7b"

/-- The lines of a step after the first one. -/
def innerLines (level : Nat) (closing : String) : Step → List String
  | .read .. => []
  | .construct _ _ [] => []
  | .construct _ _ (field :: fields) =>
    fieldsLines (level + 1) (field :: fields) ++ [indent level ++ "\x7d" ++ closing]

theorem stepLines_eq_cons (level : Nat) (opening closing : String) (step : Step) :
    stepLines level opening closing step =
      (indent level ++ opening ++ firstTail closing step) :: innerLines level closing step := by
  match step with
  | .read target path type => simp [stepLines, firstTail, innerLines, String.append_assoc]
  | .construct target typeName [] =>
    simp [stepLines, firstTail, innerLines, String.append_assoc]
  | .construct target typeName (field :: fields) =>
    simp [stepLines, firstTail, innerLines, fieldsLines, String.append_assoc]

/-- Steps of the same form that read the same path or construct the same structure. -/
inductive SameForm : Step → Step → Prop where
  | read {target target' : String} {path : KeyPath} {type type' : ScalarType} :
      SameForm (.read target path type) (.read target' path type')
  | empty {target target' typeName : String} :
      SameForm (.construct target typeName []) (.construct target' typeName [])
  | construct {target target' typeName : String} {field field' : Step}
      {fields fields' : List Step} :
      SameForm (.construct target typeName (field :: fields))
        (.construct target' typeName (field' :: fields'))

/-- The first line of a step tells its form. -/
theorem sameForm_of_firstTail {closing : String} {first second : Step} (hfirst : first.Legible)
    (hsecond : second.Legible) (h : firstTail closing first = firstTail closing second) :
    SameForm first second := by
  have hempty : " \x7b\x7d" ++ closing ≠ " \x7b" := fun heq => by
    simpa using congrArg String.toList heq
  match first, second, hfirst, hsecond, h with
  | .read target path type, .read target' path' type', _, _, h =>
    obtain rfl : path = path' := readCall_injective ((String.append_left_inj _).mp h)
    exact .read
  | .read .., .construct _ _ [], _, .construct _ hname _, h
  | .read .., .construct _ _ (_ :: _), _, .construct _ hname _, h =>
    exact absurd h (readCall_append_ne hname)
  | .construct _ _ [], .read .., .construct _ hname _, _, h
  | .construct _ _ (_ :: _), .read .., .construct _ hname _, _, h =>
    exact absurd h.symm (readCall_append_ne hname)
  | .construct _ _ [], .construct _ _ [], .construct _ hname _, .construct _ hname' _, h =>
    obtain ⟨rfl, -⟩ := hname.append_inj hname' (endsWord_empty _) (endsWord_empty _) h
    exact .empty
  | .construct _ _ [], .construct _ _ (_ :: _), .construct _ hname _, .construct _ hname' _, h =>
    exact absurd (hname.append_inj hname' (endsWord_empty _) (endsWord_brace "") h).2 hempty
  | .construct _ _ (_ :: _), .construct _ _ [], .construct _ hname _, .construct _ hname' _, h =>
    exact absurd (hname.append_inj hname' (endsWord_brace "") (endsWord_empty _) h).2.symm hempty
  | .construct _ _ (_ :: _), .construct _ _ (_ :: _), .construct _ hname _, .construct _ hname' _,
    h =>
    obtain ⟨rfl, -⟩ := hname.append_inj hname' (endsWord_brace "") (endsWord_brace "") h
    exact .construct

/-- Lines that are opened alike have the same target and go on alike. -/
theorem target_eq_of_line {level : Nat} {before after target target' tail tail' : String}
    (htarget : IsWord target) (htarget' : IsWord target')
    (hafter : ∀ tail, EndsWord (after ++ tail))
    (h : indent level ++ (before ++ target ++ after) ++ tail =
      indent level ++ (before ++ target' ++ after) ++ tail') : target = target' ∧ tail = tail' := by
  simp only [String.append_assoc, String.append_right_inj] at h
  obtain ⟨hsame, hrest⟩ := htarget.append_inj htarget' (hafter _) (hafter _) h
  exact ⟨hsame, (String.append_right_inj _).mp hrest⟩

/-- The first lines of two steps tell their target and their form. -/
theorem sameForm_of_stepLines {level : Nat} {before after closing : String}
    {rest rest' : List String} (hafter : ∀ tail, EndsWord (after ++ tail)) {first second : Step}
    (hfirst : first.Legible) (hsecond : second.Legible)
    (h : stepLines level (before ++ first.target ++ after) closing first ++ rest =
      stepLines level (before ++ second.target ++ after) closing second ++ rest') :
    first.target = second.target ∧ SameForm first second ∧
      innerLines level closing first ++ rest = innerLines level closing second ++ rest' := by
  rw [stepLines_eq_cons, stepLines_eq_cons, List.cons_append, List.cons_append] at h
  obtain ⟨hline, hrest⟩ := List.cons.inj h
  obtain ⟨htarget, htail⟩ := target_eq_of_line hfirst.target hsecond.target hafter hline
  exact ⟨htarget, sameForm_of_firstTail hfirst hsecond htail, hrest⟩

/-- No field is opened in the line that closes its structure. -/
theorem opening_ne_closing (level : Nat) (tail closing : String) :
    indent (level + 1) ++ tail ≠ indent level ++ "\x7d" ++ closing := by
  intro h
  rw [indent_succ] at h
  simp only [String.append_assoc, String.append_right_inj] at h
  simpa using congrArg String.toList h

mutual

/-- **Steps are known from their lines**, whatever lines follow. -/
theorem same_of_stepLines {level : Nat} {before after closing : String} {rest rest' : List String}
    (hafter : ∀ tail, EndsWord (after ++ tail)) : ∀ {first second : Step},
    first.Legible → second.Legible →
    stepLines level (before ++ first.target ++ after) closing first ++ rest =
      stepLines level (before ++ second.target ++ after) closing second ++ rest' →
    first.SameUpToTypes second ∧ rest = rest'
  | .read target path type, second, hfirst, hsecond, h => by
    obtain ⟨htarget, hform, hrest⟩ := sameForm_of_stepLines hafter hfirst hsecond h
    cases hform with
    | read =>
      obtain rfl : target = _ := htarget
      exact ⟨.read, hrest⟩
  | .construct target typeName [], second, hfirst, hsecond, h => by
    obtain ⟨htarget, hform, hrest⟩ := sameForm_of_stepLines hafter hfirst hsecond h
    cases hform with
    | empty =>
      obtain rfl : target = _ := htarget
      exact ⟨.construct .nil, hrest⟩
  | .construct target typeName (field :: fields), second, hfirst, hsecond, h => by
    obtain ⟨htarget, hform, hrest⟩ := sameForm_of_stepLines hafter hfirst hsecond h
    cases hform with
    | construct =>
      obtain rfl : target = _ := htarget
      rw [innerLines, innerLines, fieldsLines_eq_flatMap, fieldsLines_eq_flatMap, List.append_assoc,
        List.append_assoc, List.singleton_append, List.singleton_append] at hrest
      have hend (tail : String) :
          indent (level + 1) ++ "" ++ tail ≠ indent level ++ "\x7d" ++ closing := by
        rw [String.append_empty]
        exact opening_ne_closing level tail closing
      cases hfirst with
      | construct _ _ hfields =>
        cases hsecond with
        | construct _ _ hfields' =>
          obtain ⟨hsame, hrest⟩ := same_of_blockLines endsWord_colon hend hfields hfields' hrest
          exact ⟨.construct hsame, hrest⟩

/-- **Blocks of steps are known from their lines**, if they end at a line that opens no step. -/
theorem same_of_blockLines {level : Nat} {before after closing terminator : String}
    {rest rest' : List String} (hafter : ∀ tail, EndsWord (after ++ tail))
    (hend : ∀ tail, indent level ++ before ++ tail ≠ terminator) : ∀ {first second : List Step},
    (∀ step ∈ first, step.Legible) → (∀ step ∈ second, step.Legible) →
    first.flatMap (fun step => stepLines level (before ++ step.target ++ after) closing step) ++
        terminator :: rest =
      second.flatMap (fun step => stepLines level (before ++ step.target ++ after) closing step) ++
        terminator :: rest' →
    List.Forall₂ Step.SameUpToTypes first second ∧ rest = rest'
  | [], [], _, _, h => ⟨.nil, (List.cons.inj h).2⟩
  -- The line that ends one block would open a step of the other.
  | [], step' :: steps', _, _, h => by
    rw [List.flatMap_cons, stepLines_eq_cons] at h
    exact absurd (List.cons.inj h).1.symm (by simpa only [String.append_assoc] using hend _)
  | step :: steps, [], _, _, h => by
    rw [List.flatMap_cons, stepLines_eq_cons] at h
    exact absurd (List.cons.inj h).1 (by simpa only [String.append_assoc] using hend _)
  | step :: steps, step' :: steps', hfirst, hsecond, h => by
    rw [List.forall_mem_cons] at hfirst hsecond
    rw [List.flatMap_cons, List.flatMap_cons, List.append_assoc, List.append_assoc] at h
    obtain ⟨hstep, hrest⟩ := same_of_stepLines hafter hfirst.1 hsecond.1 h
    obtain ⟨hsteps, hrest⟩ := same_of_blockLines hafter hend hfirst.2 hsecond.2 hrest
    exact ⟨.cons hstep hsteps, hrest⟩

end

/-! ## §4 Plans -/

/-- The declarations of value types are known from their lines. -/
theorem map_signature_eq_of_sectionLines : ∀ {first second : List ValueType},
    (∀ type ∈ first, type.Legible) → (∀ type ∈ second, type.Legible) →
    first.flatMap sectionLines ++ ["\x7d"] = second.flatMap sectionLines ++ ["\x7d"] →
    first.map ValueType.signature = second.map ValueType.signature
  | [], [], _, _, _ => rfl
  -- A section starts with a blank line, and the module ends with a brace.
  | [], type :: types, _, _, h | type :: types, [], _, _, h => by
    simp [sectionLines] at h
  | type :: types, type' :: types', hfirst, hsecond, h => by
    rw [List.forall_mem_cons] at hfirst hsecond
    simp only [List.flatMap_cons, List.append_assoc, sectionLines, valueTypeLines, List.cons_append,
      List.cons.injEq, true_and] at h
    obtain ⟨hname, hfields, hrest⟩ := structureLines_append_inj hfirst.1.name hsecond.1.name
      hfirst.1.fields hsecond.1.fields h.2
    rw [List.map_cons, List.map_cons, ValueType.signature, ValueType.signature, hname, hfields,
      map_signature_eq_of_sectionLines hfirst.2 hsecond.2 hrest]

/-- **Legible plans are known from their lines.** -/
theorem plan_eq_of_planLines {holder holder' : Holder} {types types' : List ValueType}
    (hfirst : Legible holder types) (hsecond : Legible holder' types')
    (h : planLines holder types = planLines holder' types') :
    holder.properties.map Field.signature = holder'.properties.map Field.signature ∧
      List.Forall₂ Step.SameUpToTypes holder.initializer holder'.initializer ∧
      types.map ValueType.signature = types'.map ValueType.signature := by
  obtain ⟨hname, hproperties, h⟩ := structureLines_append_inj hfirst.typeName hsecond.typeName
    hfirst.properties hsecond.properties h
  rw [hname] at h
  have hstatements := List.append_cancel_left h
  -- The initializer ends at the line that returns what it has built.
  have hend (tail : String) : indent 3 ++ "settings." ++ tail ≠
      "            ::core::result::Result::Ok(settings)" := fun h => by
    simpa [indent] using congrArg String.toList h
  have hafter (tail : String) : EndsWord (" = " ++ tail) := by simp +decide [EndsWord]
  obtain ⟨hsteps, hrest⟩ :=
    same_of_blockLines hafter hend hfirst.initializer hsecond.initializer hstatements
  simp only [List.cons.injEq, true_and] at hrest
  exact ⟨hproperties, hsteps, map_signature_eq_of_sectionLines hfirst.types hsecond.types hrest⟩

end Source

/-! ## §5 Trees -/

namespace Node

theorem legible_field {node : Node} (h : IsPlainKey node.key) : node.field.Legible := by
  refine ⟨h.isWord_ofKey, fun name htype => ?_⟩
  cases node with
  | leaf key path value => cases htype
  | branch key path children =>
    cases htype
    exact h.isWord_ofKey

mutual

theorem legible_step : ∀ {node : Node}, (∀ inner ∈ node.descendants, IsPlainKey inner.key) →
    node.step.Legible
  | .leaf key path value, h => by
    rw [step]
    exact .read (h _ (mem_descendants_self _)).isWord_ofKey
  | .branch key path children, h => by
    have hkey : IsPlainKey key := h _ (mem_descendants_self _)
    rw [descendants, List.forall_mem_cons] at h
    rw [step]
    exact .construct hkey.isWord_ofKey hkey.isWord_ofKey (legible_steps h.2)

theorem legible_steps : ∀ {nodes : List Node},
    (∀ inner ∈ descendantsOf nodes, IsPlainKey inner.key) → ∀ step ∈ steps nodes, step.Legible
  | [], _ => nofun
  | node :: rest, h => by
    rw [descendantsOf, List.forall_mem_append] at h
    rw [steps, List.forall_mem_cons]
    exact ⟨legible_step h.1, legible_steps h.2⟩

end

mutual

/-- The paths in a tree are made of its keys. -/
theorem forall_mem_path_ofMember {holds : String → Prop} {parent : KeyPath} {key : String}
    (hparent : ∀ outer ∈ parent, holds outer) : ∀ {value : Value},
    (∀ node ∈ (ofMember parent key value).descendants, holds node.key) →
    ∀ node ∈ (ofMember parent key value).descendants, ∀ inner ∈ node.path, holds inner
  | .object members, h => by
    have hkey : holds key := h _ (mem_descendants_self _)
    have hpath : ∀ inner ∈ parent ++ [key], holds inner :=
      List.forall_mem_append.mpr ⟨hparent, List.forall_mem_singleton.mpr hkey⟩
    rw [ofMember, descendants, List.forall_mem_cons] at h ⊢
    exact ⟨hpath, forall_mem_path_ofMembers hpath h.2⟩
  | .null, h | .boolean _, h | .number _, h | .string _, h | .array _, h => by
    have hkey : holds key := h _ (mem_descendants_self _)
    simp only [ofMember, descendants, path, List.forall_mem_singleton, List.forall_mem_append]
    exact ⟨hparent, hkey⟩

theorem forall_mem_path_ofMembers {holds : String → Prop} {parent : KeyPath}
    (hparent : ∀ outer ∈ parent, holds outer) : ∀ {members : List (String × Value)},
    (∀ node ∈ descendantsOf (ofMembers parent members), holds node.key) →
    ∀ node ∈ descendantsOf (ofMembers parent members), ∀ inner ∈ node.path, holds inner
  | [], _ => nofun
  | (key, value) :: rest, h => by
    rw [ofMembers, descendantsOf, List.forall_mem_append] at h ⊢
    exact ⟨forall_mem_path_ofMember hparent h.1, forall_mem_path_ofMembers hparent h.2⟩

end

end Node

namespace Schema

variable {variant : Variant} {program : String}

/-- All keys in a tree are plain, in names and in paths. -/
def HasPlainKeys (schema : Schema) : Prop :=
  ∀ node ∈ Node.descendantsOf schema, IsPlainKey node.key ∧ ∀ key ∈ node.path, IsPlainKey key

/-- The paths in the tree of a text are made of its keys. -/
theorem hasPlainKeys_of_ofText {text : String} {schema : Schema} (htext : ofText text = .ok schema)
    (h : ∀ node ∈ Node.descendantsOf schema, IsPlainKey node.key) : schema.HasPlainKeys := by
  obtain ⟨members, -, -, rfl⟩ := eq_ofMembers_of_ofText htext
  exact fun node hnode => ⟨h node hnode, Node.forall_mem_path_ofMembers nofun h node hnode⟩

theorem isWord_typeName (variant : Variant) : IsWord variant.typeName := by
  constructor
  · cases variant <;> simp [IsWordChar, Variant.typeName]
  · cases variant <;> exact ⟨_, _, rfl, by decide⟩
  · cases variant <;> decide

/-- The plan of a tree is legible where all keys are plain. -/
theorem HasPlainKeys.legible {schema : Schema} (h : schema.HasPlainKeys) :
    Source.Legible (schema.holder variant program) schema.valueTypes where
  typeName := isWord_typeName variant
  properties := by
    intro property hproperty
    obtain ⟨node, hnode, rfl⟩ := List.mem_map.mp hproperty
    exact Node.legible_field (h node (Node.mem_descendantsOf hnode)).1
  initializer := by
    apply Node.legible_steps
    intro node hnode
    obtain ⟨outer, houter, hnode⟩ := Node.mem_descendantsOf_iff.mp hnode
    exact (h node
      (Node.mem_descendantsOf_iff.mpr ⟨outer, (List.mem_filter.mp houter).1, hnode⟩)).1
  types := by
    intro type htype
    obtain ⟨node, hnode, hown⟩ := Node.mem_valueTypesOf_iff_ownType?.mp htype
    obtain ⟨key, path, children, rfl, rfl⟩ := Node.ownType?_eq_some hown
    obtain ⟨hkey, hpath⟩ := h _ hnode
    refine ⟨hkey.isWord_ofKey, ?_, fun field hfield => ?_⟩
    · apply singleLine_intercalate (by decide)
      exact fun inner hinner => (hpath inner hinner).singleLine
    · obtain ⟨child, hchild, rfl⟩ := List.mem_map.mp hfield
      exact Node.legible_field (h child (Node.child_mem_descendantsOf hchild _ hnode)).1

/-- **The source carries the plan**: where two texts have keys of letters, digits, underscores, dots
and dollar signs only and their sources for one variant of one program are the same, the holders
have the same properties with the same types, the initializers read the same paths into the same
targets and construct the same structures, and the same structures are declared. -/
theorem source_determines_plan {text text' : String} {schema schema' : Schema}
    (htext : ofText text = .ok schema) (htext' : ofText text' = .ok schema')
    (hkeys : ∀ node ∈ Node.descendantsOf schema, IsPlainKey node.key)
    (hkeys' : ∀ node ∈ Node.descendantsOf schema', IsPlainKey node.key)
    (variant : Variant) (program : String)
    (hsource : schema.source variant program = schema'.source variant program) :
    let holder := schema.holder variant program
    let holder' := schema'.holder variant program
    holder.properties.map Field.signature = holder'.properties.map Field.signature ∧
      List.Forall₂ Step.SameUpToTypes holder.initializer holder'.initializer ∧
      schema.valueTypes.map ValueType.signature = schema'.valueTypes.map ValueType.signature := by
  intro holder holder'
  have hlegible : Source.Legible holder schema.valueTypes :=
    (hasPlainKeys_of_ofText htext hkeys).legible
  have hlegible' : Source.Legible holder' schema'.valueTypes :=
    (hasPlainKeys_of_ofText htext' hkeys').legible
  apply Source.plan_eq_of_planLines hlegible hlegible'
  apply Source.ofLines_injective (Source.singleLine_of_mem_planLines hlegible)
    (Source.singleLine_of_mem_planLines hlegible')
  -- The lines before the plan are the same for all settings of a program.
  have hnames : Source.nameLines holder = Source.nameLines holder' := rfl
  rw [source, source, Source.moduleText_eq_append, Source.moduleText_eq_append] at hsource
  exact (String.append_right_inj _).mp (hnames ▸ hsource)

/-- Two texts with other values of the same types, and with keys that are escaped. -/
theorem source_determines_plan_escaped :
    let text := "\x7b\"a.b\": 1, \"as\": \x7b\"$x\": [], \"on\": null\x7d\x7d"
    let text' := "\x7b\"a.b\": 22, \"as\": \x7b\"$x\": [\"\"], \"on\": \"t\"\x7d\x7d"
    ∃ schema schema' : Schema, ofText text = .ok schema ∧ ofText text' = .ok schema' ∧
      (∀ node ∈ Node.descendantsOf schema, IsPlainKey node.key) ∧
      (∀ node ∈ Node.descendantsOf schema', IsPlainKey node.key) ∧
      schema.source .internalSettings "app" = schema'.source .internalSettings "app" ∧
      schema'.valueTypes.map ValueType.signature =
        [("r#as", [("_x", .scalar (.sequence .string)), ("on", .scalar .string)])] ∧
      schema.valueTypes.map ValueType.signature = schema'.valueTypes.map ValueType.signature := by
  intro text text'
  let members : List (String × Value) := [("a.b", .number (.integer 1)),
    ("as", .object [("$x", .array []), ("on", .null)])]
  let members' : List (String × Value) := [("a.b", .number (.integer 22)),
    ("as", .object [("$x", .array [.string ""]), ("on", .string "t")])]
  have htext : ofText text = .ok (Node.ofMembers [] members) := by
    apply ofText_of_parse
    subst text
    cbv
  have htext' : ofText text' = .ok (Node.ofMembers [] members') := by
    apply ofText_of_parse
    subst text'
    cbv
  have hkeys : ∀ node ∈ Node.descendantsOf (Node.ofMembers [] members), IsPlainKey node.key := by
    simp [members, Node.ofMembers, Node.ofMember, Node.descendantsOf, Node.descendants, Node.key,
      IsPlainKey]
  have hkeys' : ∀ node ∈ Node.descendantsOf (Node.ofMembers [] members'), IsPlainKey node.key := by
    simp [members', Node.ofMembers, Node.ofMember, Node.descendantsOf, Node.descendants, Node.key,
      IsPlainKey]
  -- The sources are the same because the plans are.
  have hsource : Schema.source (Node.ofMembers [] members) .internalSettings "app" =
      Schema.source (Node.ofMembers [] members') .internalSettings "app" := by
    have hholder : Schema.holder (Node.ofMembers [] members) .internalSettings "app" =
        Schema.holder (Node.ofMembers [] members') .internalSettings "app" := rfl
    have htypes : Schema.valueTypes (Node.ofMembers [] members) =
        Schema.valueTypes (Node.ofMembers [] members') := rfl
    rw [source, source, hholder, htypes]
  obtain ⟨-, -, htypes⟩ :=
    source_determines_plan htext htext' hkeys hkeys' .internalSettings "app" hsource
  exact ⟨_, _, htext, htext', hkeys, hkeys', hsource, by cbv, htypes⟩

end Schema

end TypedSettings

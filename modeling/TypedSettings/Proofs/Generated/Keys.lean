import Mathlib
import TypedSettings.Generated.Source
import TypedSettings.Proofs.Text.Literal

/-!
# Keys in generated code

A statement that reads a setting spells the keys of its path as literals between brackets. Read as
code, the brackets hold the keys of the path again, whatever characters they are made of.

Main facts:
- `Source.keysOf?`: the keys that a call spells
- `Source.keysOf?_readCallWith`: a call spells the keys of its path
- `Source.readCall_injective`: so calls of different paths are different
- `Source.readCall_spells_path`: the same for the calls of generated code, and how it comes about
-/

namespace TypedSettings

namespace Source

/-- What stands before the keys of a call. -/
def callOpening : String := "::settingsgen_runtime::read(document, &["

/-- What stands after the keys of a call. -/
def callClosing : String := "])?"

/-- The keys that a call spells. -/
def keysOf? (call : String) : Option KeyPath :=
  if callOpening.toList <+: call.toList then
    match Literal.decodeItems? (call.toList.drop callOpening.toList.length) with
    | some (keys, [')', '?']) => some (keys.map String.ofList)
    | _ => none
  else none

/-- The call for a path, where `unprintable` tells which characters are written by their code
points. -/
def readCallWith (unprintable : Char → Bool) (path : KeyPath) : String :=
  String.join
    [callOpening, ", ".intercalate (path.map (Literal.encodeWith unprintable)), callClosing]

theorem readCallWith_isUnprintable : readCallWith isUnprintable = readCall := rfl

/-- **A call spells the keys of its path**, whichever characters are written by code points. -/
theorem keysOf?_readCallWith (unprintable : Char → Bool) (path : KeyPath) :
    keysOf? (readCallWith unprintable path) = some path := by
  have hcall : (readCallWith unprintable path).toList = callOpening.toList ++
      ((", ".intercalate (path.map (Literal.encodeWith unprintable))).toList ++
        [']', ')', '?']) := by
    simp [readCallWith, String.join, callClosing]
  rw [keysOf?, hcall, if_pos (List.prefix_append _ _), List.drop_left,
    Literal.decodeItems?_append unprintable path [')', '?']]
  simp

theorem readCallWith_injective (unprintable : Char → Bool) :
    Function.Injective (readCallWith unprintable) := by
  intro path other hsame
  have hkeys := keysOf?_readCallWith unprintable path
  rw [hsame, keysOf?_readCallWith] at hkeys
  exact (Option.some.inj hkeys).symm

theorem readCall_injective : Function.Injective readCall :=
  readCallWith_injective isUnprintable

/-- **Generated calls spell the keys of their paths**: read as code, the brackets of a call hold the
keys again, so calls of different paths are different, and no key ends its literal early. All this
holds whichever characters are written by their code points. -/
theorem readCall_spells_path (path : KeyPath) :
    keysOf? (readCall path) = some path ∧
      ∀ unprintable : Char → Bool,
        keysOf? (readCallWith unprintable path) = some path ∧
        (∀ other, readCallWith unprintable other = readCallWith unprintable path → other = path) ∧
        (∀ key ∈ path, ∀ rest,
          Literal.decode? ((Literal.encodeWith unprintable key).toList ++ rest) =
            some (key.toList, rest)) ∧
        ∀ key ∈ path, ∀ c ∈ key.toList, Literal.Piece (Literal.encodeCharWith unprintable c) c := by
  refine ⟨?_, fun unprintable => ⟨keysOf?_readCallWith unprintable path,
    fun _ hsame => readCallWith_injective unprintable hsame, fun key _ rest => ?_,
    fun key _ c _ => Literal.piece_encodeCharWith unprintable c⟩⟩
  · rw [← readCallWith_isUnprintable, keysOf?_readCallWith]
  · rw [Literal.encodeWith, String.toList_ofList]
    exact Literal.decode?_append_with unprintable key.toList rest

/-- A key that looks like the end of a literal, one with a combining mark, and an empty one. -/
example : readCall ["\", \"", "\u0301\\u", ""] =
    "::settingsgen_runtime::read(document, &[\"\\\", \\\"\", \"\\u\x7b301\x7d\\\\u\", \"\"])?" := by
  decide +kernel

end Source

end TypedSettings

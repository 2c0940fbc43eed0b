import Mathlib
import TypedSettings.Document.Value
import TypedSettings.Proofs.Document.Scan.Filler
import TypedSettings.Proofs.Document.Scan.Numeral
import TypedSettings.Proofs.Document.Scan.Quoted
import TypedSettings.Proofs.OrderedMap.Collected

/-!
# The grammar of settings documents

Which texts are documents, and of which values, said of the characters alone. A document is one
value between filler. A value is a word, a numeral, a string, or an array or object of elements that
single commas separate; the last element may be followed by a comma of its own. What number a
numeral denotes is left open: `denotes` relates the two.

Main facts:
- `Value.Scalar`, `Value.Nested`, `Value.Spells`: the values of a given depth
- `Value.Document`: whole texts
- `Value.Listed.cons`: lists grow at the front
-/

namespace TypedSettings

namespace Value

open Filler (Gap Trailing)

/-! ## §1 Lists -/

/-- A piece of text with filler before and after it. -/
inductive Padded {α : Type} (Word : List Char → α → Prop) : List Char → α → Prop where
  | mk {before word after : List Char} {x : α} (hbefore : Gap before) (hword : Word word x)
      (hafter : Gap after) : Padded Word (before ++ (word ++ after)) x

/-- One element or more, separated by single commas. -/
inductive Separated {α : Type} (Element : List Char → α → Prop) :
    List Char → List α → Prop where
  | single {text : List Char} {x : α} (h : Element text x) : Separated Element text [x]
  | cons {text rest : List Char} {x : α} {xs : List α} (h : Element text x)
      (more : Separated Element rest xs) : Separated Element (text ++ ',' :: rest) (x :: xs)

/-- What stands between brackets: no element at all, or elements of which the last may be followed
by a comma. -/
inductive Listed {α : Type} (Element : List Char → α → Prop) : List Char → List α → Prop where
  | none {gap : List Char} (h : Gap gap) : Listed Element gap []
  | some {text : List Char} {xs : List α} (h : Separated Element text xs) : Listed Element text xs
  | trailing {text gap : List Char} {xs : List α} (h : Separated Element text xs) (hgap : Gap gap) :
      Listed Element (text ++ ',' :: gap) xs

/-- An element, a comma and a list are a list. -/
theorem Listed.cons {α : Type} {Element : List Char → α → Prop} {text rest : List Char} {x : α}
    {xs : List α} (h : Element text x) (more : Listed Element rest xs) :
    Listed Element (text ++ ',' :: rest) (x :: xs) := by
  cases more with
  | none hgap => exact .trailing (.single h) hgap
  | some hrest => exact .some (.cons h hrest)
  | @trailing rest gap _ hrest hgap =>
    have hlisted := Listed.trailing (.cons h hrest) hgap
    rwa [List.append_assoc, List.cons_append] at hlisted

/-! ## §2 Values -/

/-- A string between its quotation marks. -/
inductive SpellsString : List Char → String → Prop where
  | mk {body text : List Char} (h : Quoted.Spells body text) :
      SpellsString ('"' :: (body ++ ['"'])) (String.ofList text)

section

variable (denotes : Numeral → Number → Prop)

/-- Values without parts. -/
inductive Scalar : List Char → Value → Prop where
  | null : Scalar ['n', 'u', 'l', 'l'] .null
  | true : Scalar ['t', 'r', 'u', 'e'] (.boolean true)
  | false : Scalar ['f', 'a', 'l', 's', 'e'] (.boolean false)
  | number {word : List Char} {n : Numeral} {number : Number} (h : Numeral.Spells word n)
      (hnumber : denotes n number) : Scalar word (.number number)
  | string {word : List Char} {text : String} (h : SpellsString word text) :
      Scalar word (.string text)

/-- A member of an object: a key, a colon and a value. -/
inductive Member (Inner : List Char → Value → Prop) : List Char → String × Value → Prop where
  | mk {keyWord before after word : List Char} {key : String} {value : Value}
      (hkey : SpellsString keyWord key) (hbefore : Gap before) (hafter : Gap after)
      (hvalue : Inner word value) :
      Member Inner (keyWord ++ (before ++ ':' :: (after ++ word))) (key, value)

/-- Arrays and objects of given values. Of members that repeat a key the first gives the position
and the last the value. -/
inductive Nested (Inner : List Char → Value → Prop) : List Char → Value → Prop where
  | array {text : List Char} {items : List Value} (h : Listed (Padded Inner) text items) :
      Nested Inner ('[' :: (text ++ [']'])) (.array items)
  | object {text : List Char} {members fields : List (String × Value)}
      (h : Listed (Padded (Member Inner)) text members)
      (hfields : OrderedMap.Collects members fields) :
      Nested Inner ('\x7b' :: (text ++ ['\x7d'])) (.object fields)

/-- `Spells denotes depth word value`: the word is the value, with at most `depth` arrays and
objects inside each other. -/
def Spells : (depth : Nat) → List Char → Value → Prop
  | 0, word, value => Scalar denotes word value
  | depth + 1, word, value => Scalar denotes word value ∨ Nested (Spells depth) word value

/-- One value between filler. -/
inductive Enclosed (depth : Nat) : List Char → Value → Prop where
  | mk {before word after : List Char} {value : Value} (hbefore : Gap before)
      (hvalue : Spells denotes depth word value) (hafter : Trailing after) :
      Enclosed depth (before ++ (word ++ after)) value

/-- `Document denotes text value`: the text is a document of the value. At most one byte-order mark
stands before it. -/
inductive Document : List Char → Value → Prop where
  | plain {text : List Char} {value : Value} (h : Enclosed denotes 127 text value) :
      Document text value
  | marked {text : List Char} {value : Value} (h : Enclosed denotes 127 text value) :
      Document ('\ufeff' :: text) value

end

end Value

end TypedSettings

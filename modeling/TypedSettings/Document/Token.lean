import TypedSettings.Document.Scan.Filler
import TypedSettings.Document.Scan.Quoted
import TypedSettings.Document.Scan.Numeral

/-!
# Tokens

A text is cut into tokens without regard to where they stand. A piece that is no token ends the
list: what is wrong with it is kept, and it is up to the reader of the tokens whether that is the
error to report or the piece was not expected at all. The end of the list is the end of the text.
-/

namespace TypedSettings

/-- What kind of thing a broken piece of text began as. -/
inductive Broken where
  | filler
  | string
  | scalar
  deriving DecidableEq, Repr

/-- A token, or the piece of text that ends the list of tokens. -/
inductive Token where
  | listOpen
  | listClose
  | objectOpen
  | objectClose
  | comma
  | colon
  | null
  | boolean (value : Bool)
  | number (value : Number)
  | string (text : String)
  /-- A character that begins no token. -/
  | stray
  /-- A piece that begins like a token and is none. -/
  | broken (kind : Broken) (error : LocalError)
  deriving DecidableEq, Repr

namespace Token

/-- Drops an expected word from the start of a text. -/
def scanWord : List Char → List Char → Except LocalError (List Char)
  | [], text => .ok text
  | _ :: _, [] => .error ⟨.endOfValue, .atEnd⟩
  | w :: word, c :: rest =>
    if c = w then scanWord word rest else .error ⟨.expectedIdent, .onto (c :: rest)⟩

/-- The token of a scanned piece, or a broken one that ends the text. -/
def ofScan {α : Type} (kind : Broken) (token : α → Token) :
    Except LocalError (α × List Char) → Token × List Char
  | .ok (value, rest) => (token value, rest)
  | .error e => (.broken kind e, [])

/-- The token of a word, or a broken one that ends the text. -/
def ofWord (token : Token) : Except LocalError (List Char) → Token × List Char
  | .ok rest => (token, rest)
  | .error e => (.broken .scalar e, [])

/-- The token of a single punctuation character. -/
def punctuation? (c : Char) : Option Token :=
  if c = '[' then some .listOpen
  else if c = ']' then some .listClose
  else if c = '\x7b' then some .objectOpen
  else if c = '\x7d' then some .objectClose
  else if c = ',' then some .comma
  else if c = ':' then some .colon
  else none

/-- The token at the start of a text that does not start with filler, and the text after it; nothing
remains after a piece that is no token. -/
def scan (c : Char) (rest : List Char) : Token × List Char :=
  match punctuation? c with
  | some token => (token, rest)
  | none =>
    if c = 'n' then ofWord .null (scanWord ['u', 'l', 'l'] rest)
    else if c = 't' then ofWord (.boolean true) (scanWord ['r', 'u', 'e'] rest)
    else if c = 'f' then ofWord (.boolean false) (scanWord ['a', 'l', 's', 'e'] rest)
    else if c = '"' then
      ofScan .string (fun body => .string (String.ofList body)) (Quoted.scanBody rest)
    else if c = '-' ∨ c.isDigit then ofScan .scalar .number (Numeral.scan (c :: rest))
    else (.stray, [])

theorem length_scanWord_le {word text rest : List Char} (h : scanWord word text = .ok rest) :
    rest.length ≤ text.length := by
  fun_induction scanWord word text <;> grind

private theorem length_ofWord_le {token : Token} {word text : List Char} :
    (ofWord token (scanWord word text)).2.length ≤ text.length := by
  unfold ofWord
  grind [→ length_scanWord_le]

/-- A token takes up its first character at least. -/
theorem length_scan_le (c : Char) (rest : List Char) : (scan c rest).2.length ≤ rest.length := by
  unfold scan ofScan
  grind [length_ofWord_le, → Numeral.length_scan, → Quoted.length_scanBody]

/-- The tokens of a text, each with the text from its start on. -/
def scanAll (text : List Char) : List (Token × List Char) :=
  match _h : Filler.skip .gap text with
  | .error e => [(.broken .filler e, text)]
  | .ok [] => []
  | .ok (c :: rest) =>
    let scanned := scan c rest
    (scanned.1, c :: rest) :: scanAll scanned.2
termination_by text.length
decreasing_by
  have := Filler.length_skip_le _h
  have := length_scan_le c rest
  simp only [List.length_cons] at *
  omega

end Token

end TypedSettings

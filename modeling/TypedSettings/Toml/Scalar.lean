import TypedSettings.Number.Shortest

/-!
# Numbers and dates of TOML

Which words are integers, floats, booleans, dates and times. Only their validity matters here, and
so numbers are worked out only as far as it takes to see whether they fit.
-/

namespace TypedSettings.Toml

/-- Digits of a class, single underscores between them allowed, and at least one of them. -/
def areDigits (isDigit : Char → Bool) : List Char → Bool
  | [] => false
  | [c] => isDigit c
  | c :: '_' :: rest => isDigit c && areDigits isDigit rest
  | c :: rest => isDigit c && areDigits isDigit rest

/-- The word without its sign. -/
def unsigned : List Char → List Char
  | '+' :: rest => rest
  | '-' :: rest => rest
  | word => word

/-- Decimal digits without a leading zero. -/
def isWhole : List Char → Bool
  | ['0'] => true
  | '0' :: _ => false
  | word => areDigits Char.isDigit word

/-- The value of digits with underscores, in a base. -/
def valueOf (base : Nat) (word : List Char) : Nat :=
  word.foldl (fun n c =>
    if c = '_' then n
    else n * base + (if c.isDigit then Digits.value c else c.toLower.toNat - 'a'.toNat + 10)) 0

/-- Is the character a hexadecimal digit? -/
def isHex (c : Char) : Bool := c.isDigit || ('a' ≤ c.toLower && c.toLower ≤ 'f')

/-- The first integer above the signed 64-bit range. -/
def integerBound : Nat := 0x8000000000000000

/-- Is the word an integer that fits a signed 64-bit word? -/
def isInteger (word : List Char) : Bool :=
  match word with
  | '0' :: 'x' :: rest => areDigits isHex rest && valueOf 16 rest < integerBound
  | '0' :: 'o' :: rest =>
    areDigits (fun c => '0' ≤ c && c ≤ '7') rest && valueOf 8 rest < integerBound
  | '0' :: 'b' :: rest =>
    areDigits (fun c => c == '0' || c == '1') rest && valueOf 2 rest < integerBound
  | '-' :: rest => isWhole rest && valueOf 10 rest ≤ integerBound
  | word => isWhole (unsigned word) && valueOf 10 (unsigned word) < integerBound

/-- An exponent: its mark, a sign or none, and digits. -/
def isExponent : List Char → Bool
  | c :: rest => (c == 'e' || c == 'E') && areDigits Char.isDigit (unsigned rest)
  | [] => false

/-- Is the character part of a run of digits? -/
def isDigitOrLine (c : Char) : Bool := c.isDigit || c == '_'

/-- The number of an exponent, which is zero if there is none. -/
def exponentOf : List Char → Int
  | _ :: '-' :: ds => -(valueOf 10 ds : Int)
  | _ :: rest => valueOf 10 (unsigned rest)
  | [] => 0

/-- The magnitude of a float with these digits before and after the point. -/
def magnitude (whole fraction exponent : List Char) : Decimal :=
  ⟨valueOf 10 (whole ++ fraction), exponentOf exponent - (fraction.filter Char.isDigit).length⟩

/-- Is the word a float? It may be too small for the binary format and, with a minus sign, too large
as well, but not too large with a plus sign or without any. -/
def isFloat (word : List Char) : Bool :=
  let digits := unsigned word
  let whole := digits.takeWhile isDigitOrLine
  let rest := digits.dropWhile isDigitOrLine
  let fits (fraction exponent : List Char) : Bool :=
    word.head? == some '-' || (magnitude whole fraction exponent).nearest?.isSome
  digits == ['i', 'n', 'f'] || digits == ['n', 'a', 'n'] ||
    (isWhole whole &&
      match rest with
      | '.' :: rest =>
        let fraction := rest.takeWhile isDigitOrLine
        let exponent := rest.dropWhile isDigitOrLine
        areDigits Char.isDigit fraction && (exponent.isEmpty || isExponent exponent) &&
          fits fraction exponent
      | exponent => isExponent exponent && fits [] exponent)

/-- The number of a fixed count of digits, and what follows them. -/
def fixed? (count : Nat) (word : List Char) : Option (Nat × List Char) :=
  let ds := word.take count
  if ds.length = count ∧ ds.all Char.isDigit then some (Digits.toNat ds 0, word.drop count)
  else none

/-- How many days a month has. -/
def daysIn (year month : Nat) : Nat :=
  if month = 2 then
    if year % 4 = 0 ∧ (year % 100 ≠ 0 ∨ year % 400 = 0) then 29 else 28
  else if month = 4 ∨ month = 6 ∨ month = 9 ∨ month = 11 then 30
  else 31

/-- What follows a date. -/
def afterDate? (word : List Char) : Option (List Char) := do
  let (year, '-' :: rest) ← fixed? 4 word | none
  let (month, '-' :: rest) ← fixed? 2 rest | none
  let (day, rest) ← fixed? 2 rest
  if 1 ≤ month ∧ month ≤ 12 ∧ 1 ≤ day ∧ day ≤ daysIn year month then some rest else none

/-- What follows a time of day. -/
def afterTime? (word : List Char) : Option (List Char) := do
  let (hour, ':' :: rest) ← fixed? 2 word | none
  let (minute, ':' :: rest) ← fixed? 2 rest | none
  let (second, rest) ← fixed? 2 rest
  if 23 < hour ∨ 59 < minute ∨ 60 < second then none
  else match rest with
    | '.' :: fraction =>
      let after := fraction.dropWhile Char.isDigit
      if after.length = fraction.length then none else some after
    | rest => some rest

/-- Is the word an offset from universal time? -/
def isOffset (word : List Char) : Bool :=
  match word with
  | ['Z'] => true
  | ['z'] => true
  | '+' :: rest => isShift rest
  | '-' :: rest => isShift rest
  | _ => false
where
  /-- Hours and minutes. -/
  isShift (word : List Char) : Bool :=
    match fixed? 2 word with
    | some (hour, ':' :: rest) =>
      match fixed? 2 rest with
      | some (minute, []) => hour ≤ 23 && minute ≤ 59
      | _ => false
    | _ => false

/-- Is the word a date, a time of day, or both with an offset or without? -/
def isMoment (word : List Char) : Bool :=
  afterTime? word == some [] ||
    match afterDate? word with
    | none => false
    | some [] => true
    | some (separator :: rest) =>
      (separator == 'T' || separator == 't' || separator == ' ') &&
        match afterTime? rest with
        | none => false
        | some offset => offset.isEmpty || isOffset offset

/-- Is the word a value that is no string, array or table? -/
def isScalar (word : List Char) : Bool :=
  word == ['t', 'r', 'u', 'e'] || word == ['f', 'a', 'l', 's', 'e'] ||
    isInteger word || isFloat word || isMoment word

/-- May the character stand in such a word? -/
def isWordChar (c : Char) : Bool :=
  c.isAlphanum || c == '+' || c == '-' || c == '_' || c == '.' || c == ':'

/-- The word at the start of a text, a time after a date and a blank included, and what follows. -/
def scanWord (text : List Char) : List Char × List Char :=
  let word := text.takeWhile isWordChar
  let rest := text.dropWhile isWordChar
  match afterDate? word, rest with
  | some [], ' ' :: more =>
    let time := more.takeWhile isWordChar
    if (fixed? 2 time).isSome then (word ++ ' ' :: time, more.dropWhile isWordChar)
    else (word, rest)
  | _, _ => (word, rest)

end TypedSettings.Toml

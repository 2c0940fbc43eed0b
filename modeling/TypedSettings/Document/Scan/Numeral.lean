import TypedSettings.Number.Numeral
import TypedSettings.Document.SyntaxError

/-!
# Numerals in a document

Reading the longest numeral at the start of a text. The digits before the point have no leading
zero, a point and an exponent mark are followed by at least one digit.
-/

namespace TypedSettings.Numeral

/-- The digits at the start of a text. -/
def digits (text : List Char) : List Char := text.takeWhile Char.isDigit

/-- What follows them. -/
def afterDigits (text : List Char) : List Char := text.dropWhile Char.isDigit

/-- Does a digit come next? -/
def startsWithDigit : List Char → Bool
  | [] => false
  | c :: _ => c.isDigit

/-- The digits before the point, and what follows them. -/
def scanWhole : List Char → Except LocalError (List Char × List Char)
  | [] => .error ⟨.endOfValue, .atEnd⟩
  | c :: rest =>
    if !c.isDigit then .error ⟨.invalidNumber, .onto (c :: rest)⟩
    else if c = '0' then
      if startsWithDigit rest then .error ⟨.invalidNumber, .onto rest⟩ else .ok (['0'], rest)
    else .ok (c :: digits rest, afterDigits rest)

/-- The digits that a point or an exponent mark asks for. -/
def scanDigits (text : List Char) : Except LocalError (List Char × List Char) :=
  if startsWithDigit text then .ok (digits text, afterDigits text)
  else match text with
    | [] => .error ⟨.endOfValue, .atEnd⟩
    | other => .error ⟨.invalidNumber, .onto other⟩

/-- The digits after the point, none without a point, and what follows them. -/
def scanFraction : List Char → Except LocalError (List Char × List Char)
  | '.' :: rest => scanDigits rest
  | text => .ok ([], text)

/-- The sign of an exponent, and what follows it. -/
def exponentSign : List Char → Bool × List Char
  | '-' :: rest => (true, rest)
  | '+' :: rest => (false, rest)
  | text => (false, text)

/-- Is this the mark of an exponent? -/
def isExponentMark (c : Char) : Bool := c == 'e' || c == 'E'

/-- The exponent if there is one, the text at its digits, and what follows it. -/
def scanExponent (text : List Char) :
    Except LocalError (Option (Bool × List Char) × List Char × List Char) :=
  match text with
  | [] => .ok (none, text, text)
  | c :: rest =>
    if isExponentMark c then
      let (negative, atDigits) := exponentSign rest
      match scanDigits atDigits with
      | .error e => .error e
      | .ok (ds, left) => .ok (some (negative, ds), atDigits, left)
    else .ok (none, text, text)

/-- The sign of a numeral, and what follows it. -/
def scanSign : List Char → Bool × List Char
  | '-' :: rest => (true, rest)
  | text => (false, text)

/-- The numeral at the start of a text, the text at its exponent digits, and what follows it. -/
def scanSpelling (text : List Char) : Except LocalError (Numeral × List Char × List Char) :=
  let (negative, unsigned) := scanSign text
  match scanWhole unsigned with
  | .error e => .error e
  | .ok (whole, afterWhole) =>
    match scanFraction afterWhole with
    | .error e => .error e
    | .ok (fraction, afterFraction) =>
      match scanExponent afterFraction with
      | .error e => .error e
      | .ok (exponent, atExponent, rest) =>
        .ok (⟨negative, whole, fraction, exponent⟩, atExponent, rest)

/-- The number of the numeral at the start of a text, and what follows it. -/
def scan (text : List Char) : Except LocalError (Number × List Char) :=
  match scanSpelling text with
  | .error e => .error e
  | .ok (numeral, atExponent, rest) =>
    match numeral.evaluate with
    | .ok number => .ok (number, rest)
    | .error read => .error ⟨.numberOutOfRange, .before (atExponent.drop read)⟩

/-! ## §1 Consumption -/

theorem length_afterDigits_le (text : List Char) : (afterDigits text).length ≤ text.length :=
  (List.dropWhile_suffix _).length_le

theorem length_scanWhole {text ds rest : List Char} (h : scanWhole text = .ok (ds, rest)) :
    rest.length < text.length := by
  unfold scanWhole at h
  grind [length_afterDigits_le]

theorem length_scanDigits_le {text ds rest : List Char} (h : scanDigits text = .ok (ds, rest)) :
    rest.length ≤ text.length := by
  unfold scanDigits at h
  grind [length_afterDigits_le]

theorem length_scanFraction_le {text ds rest : List Char}
    (h : scanFraction text = .ok (ds, rest)) : rest.length ≤ text.length := by
  unfold scanFraction at h
  grind [→ length_scanDigits_le]

theorem length_exponentSign_le (text : List Char) :
    (exponentSign text).2.length ≤ text.length := by
  unfold exponentSign
  grind

theorem length_scanExponent_le {text atDigits rest : List Char} {e : Option (Bool × List Char)}
    (h : scanExponent text = .ok (e, atDigits, rest)) : rest.length ≤ text.length := by
  unfold scanExponent at h
  grind [Except.map, length_exponentSign_le, → length_scanDigits_le]

theorem length_scanSign_le (text : List Char) : (scanSign text).2.length ≤ text.length := by
  unfold scanSign
  grind

/-- Reading a numeral consumes one digit at least. -/
theorem length_scanSpelling {text atExponent rest : List Char} {n : Numeral}
    (h : scanSpelling text = .ok (n, atExponent, rest)) : rest.length < text.length := by
  unfold scanSpelling at h
  grind [length_scanSign_le, → length_scanWhole, → length_scanFraction_le, → length_scanExponent_le]

theorem length_scan {text rest : List Char} {n : Number} (h : scan text = .ok (n, rest)) :
    rest.length < text.length := by
  unfold scan at h
  grind [→ length_scanSpelling]

end TypedSettings.Numeral

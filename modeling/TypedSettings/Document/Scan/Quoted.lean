import TypedSettings.Document.SyntaxError
import TypedSettings.Text.Hexadecimal

/-!
# Strings in a document

Reading a quoted string and its escapes. An escape of four hexadecimal digits names one UTF-16 unit;
a high surrogate must be followed by the escape of a low one, and the pair names one character.
-/

namespace TypedSettings.Quoted

open Hexadecimal (value?)

/-- The UTF-16 unit that four hexadecimal digits spell, and what follows them. -/
def scanUnit (text : List Char) : Except LocalError (Nat × List Char) :=
  let invalid : LocalError :=
    if byteLength text < 4 then ⟨.endOfString, .atEnd⟩ else ⟨.invalidEscape, ⟨text, 4⟩⟩
  match text with
  | a :: b :: c :: d :: rest =>
    match value? a, value? b, value? c, value? d with
    | some a, some b, some c, some d => .ok (((a * 16 + b) * 16 + c) * 16 + d, rest)
    | _, _, _, _ => .error invalid
  | _ => .error invalid

/-- Does the unit announce a second one? -/
def isHighSurrogate (unit : Nat) : Bool := 0xD800 ≤ unit && unit ≤ 0xDBFF

/-- Is the unit the second of a pair? -/
def isLowSurrogate (unit : Nat) : Bool := 0xDC00 ≤ unit && unit ≤ 0xDFFF

/-- The character of a surrogate pair. -/
def pairedChar (high low : Nat) : Char :=
  Char.ofNat (0x10000 + (high - 0xD800) * 0x400 + (low - 0xDC00))

/-- The second half of a surrogate pair: backslash, `u` and a low surrogate. -/
def scanLowSurrogate (high : Nat) : List Char → Except LocalError (Char × List Char)
  | [] => .error ⟨.endOfString, .atEnd⟩
  | '\\' :: [] => .error ⟨.endOfString, .atEnd⟩
  | '\\' :: 'u' :: text =>
    match scanUnit text with
    | .error e => .error e
    | .ok (low, rest) =>
      if isLowSurrogate low then .ok (pairedChar high low, rest)
      else .error ⟨.loneSurrogate, .before rest⟩
  | '\\' :: other => .error ⟨.unfinishedSurrogate, .onto other⟩
  | other => .error ⟨.unfinishedSurrogate, .onto other⟩

/-- The character of an escape, given what follows the backslash. -/
def scanEscape : List Char → Except LocalError (Char × List Char)
  | [] => .error ⟨.endOfString, .atEnd⟩
  | '"' :: rest => .ok ('"', rest)
  | '\\' :: rest => .ok ('\\', rest)
  | '/' :: rest => .ok ('/', rest)
  | 'b' :: rest => .ok ('\x08', rest)
  | 'f' :: rest => .ok ('\x0c', rest)
  | 'n' :: rest => .ok ('\n', rest)
  | 'r' :: rest => .ok ('\r', rest)
  | 't' :: rest => .ok ('\t', rest)
  | 'u' :: text =>
    match scanUnit text with
    | .error e => .error e
    | .ok (unit, rest) =>
      if isLowSurrogate unit then .error ⟨.loneSurrogate, .before rest⟩
      else if isHighSurrogate unit then scanLowSurrogate unit rest
      else .ok (Char.ofNat unit, rest)
  | other => .error ⟨.invalidEscape, .onto other⟩

/-! ## §1 Consumption -/

theorem length_scanUnit {text rest : List Char} {unit : Nat}
    (h : scanUnit text = .ok (unit, rest)) : rest.length < text.length := by
  unfold scanUnit at h
  grind

theorem length_scanLowSurrogate {high : Nat} {text rest : List Char} {c : Char}
    (h : scanLowSurrogate high text = .ok (c, rest)) : rest.length < text.length := by
  unfold scanLowSurrogate at h
  grind [→ length_scanUnit]

theorem length_scanEscape {text rest : List Char} {c : Char}
    (h : scanEscape text = .ok (c, rest)) : rest.length < text.length := by
  unfold scanEscape at h
  grind [→ length_scanUnit, → length_scanLowSurrogate]

/-! ## §2 Strings -/

/-- The characters of a string up to its closing quotation mark, and what follows that. -/
def scanBody : List Char → Except LocalError (List Char × List Char)
  | [] => .error ⟨.endOfString, .atEnd⟩
  | c :: rest =>
    if c = '"' then
      .ok ([], rest)
    else if c = '\\' then
      match _h : scanEscape rest with
      | .error e => .error e
      | .ok (escaped, rest') =>
        match scanBody rest' with
        | .error e => .error e
        | .ok (body, left) => .ok (escaped :: body, left)
    else if c.toNat < 0x20 then
      .error ⟨.controlCharacter, .onto (c :: rest)⟩
    else
      match scanBody rest with
      | .error e => .error e
      | .ok (body, left) => .ok (c :: body, left)
termination_by text => text.length
decreasing_by
  · have := length_scanEscape _h
    simp only [List.length_cons]; omega
  · simp

/-- Reading a string consumes its closing mark at least. -/
theorem length_scanBody {text body rest : List Char} (h : scanBody text = .ok (body, rest)) :
    rest.length < text.length := by
  fun_induction scanBody text generalizing body rest <;>
    grind [→ length_scanEscape]

/-! ## §3 Strings that are passed over -/

/-- Is the character, right after a backslash, an escape of its own? -/
def isShortEscape (c : Char) : Bool :=
  c ∈ ['"', '\\', '/', 'b', 'f', 'n', 'r', 't']

/-- What follows a string whose escapes are complete, whether or not they name characters. -/
def afterBody? : List Char → Option (List Char)
  | [] => none
  | '"' :: rest => some rest
  | '\\' :: 'u' :: a :: b :: c :: d :: rest =>
    match value? a, value? b, value? c, value? d with
    | some _, some _, some _, some _ => afterBody? rest
    | _, _, _, _ => none
  | '\\' :: c :: rest => if isShortEscape c then afterBody? rest else none
  | c :: rest => if c = '\\' ∨ c.toNat < 0x20 then none else afterBody? rest

end TypedSettings.Quoted

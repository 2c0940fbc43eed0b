import Mathlib
import TypedSettings.Proofs.Identifier.Words
import TypedSettings.Proofs.Text.Literal

/-!
# Tokens of code

How a reader of the language cuts code into tokens, as far as generated code goes: words, paths,
single characters, string literals, and comments up to the end of a line. There are neither numbers
nor block comments in generated code. Nothing is lost: tokens make up the text that they are cut
from. A text may be cut anywhere but inside a word, a literal or a comment, and after a colon or a
slash.

Main facts:
- `Code.cut`: the tokens of a text
- `Code.spell_cut`: tokens make up the text that they are cut from
- `Code.cut_append`: where texts may be cut apart
- `Code.cut_word`, `Code.cut_literal`, `Code.cut_comment`: words, literals and comments in front
  of what follows
-/

namespace TypedSettings

/-! ## §1 Machines -/

/-- The run of a machine that gives out items at every step, and the state in which it ends. -/
def Machine.run {State Input Output : Type} (step : State → Input → List Output × State) :
    State → List Input → List Output × State
  | state, [] => ([], state)
  | state, item :: rest =>
    match step state item with
    | (first, next) =>
      match run step next rest with
      | (others, last) => (first ++ others, last)

namespace Machine

variable {State Input Output : Type} (step : State → Input → List Output × State)

@[simp] theorem run_nil (state : State) : run step state [] = ([], state) := rfl

theorem run_cons (state : State) (item : Input) (rest : List Input) :
    run step state (item :: rest) = ((step state item).1 ++ (run step (step state item).2 rest).1,
      (run step (step state item).2 rest).2) := rfl

variable {step}

/-- A run goes on where another one ends. -/
theorem run_append {first second : List Input} {outputs outputs' : List Output}
    {state middle last : State} (hfirst : run step state first = (outputs, middle))
    (hsecond : run step middle second = (outputs', last)) :
    run step state (first ++ second) = (outputs ++ outputs', last) := by
  induction first generalizing state outputs with
  | nil =>
    cases hfirst
    exact hsecond
  | cons item first ih =>
    rw [run_cons] at hfirst
    cases hfirst
    rw [List.cons_append, run_cons, ih rfl, List.append_assoc]

theorem run_append_fst (state : State) (first second : List Input) :
    (run step state (first ++ second)).1 =
      (run step state first).1 ++ (run step (run step state first).2 second).1 := by
  rw [run_append rfl rfl]

theorem run_append_snd (state : State) (first second : List Input) :
    (run step state (first ++ second)).2 = (run step (run step state first).2 second).2 := by
  rw [run_append rfl rfl]

end Machine

/-! ## §2 Tokens -/

namespace Code

/-- A token of code. -/
inductive Token where
  | keyword (word : String)
  | name (word : String)
  /-- The mark between the segments of a path. -/
  | colons
  /-- Any other character, blanks and line feeds included. -/
  | mark (c : Char)
  /-- A string literal with its quotation marks. -/
  | literal (text : String)
  /-- A comment up to the end of its line. -/
  | comment (text : String)
  deriving DecidableEq

/-- The characters of a token. -/
def Token.chars : Token → List Char
  | .keyword word | .name word => word.toList
  | .colons => [':', ':']
  | .mark c => [c]
  | .literal text | .comment text => text.toList

/-- The text that tokens make up. -/
def spell (tokens : List Token) : String := String.ofList (tokens.flatMap Token.chars)

@[simp] theorem spell_nil : spell [] = "" := rfl

theorem spell_cons (token : Token) (rest : List Token) :
    spell (token :: rest) = String.ofList token.chars ++ spell rest := by
  apply String.toList_injective
  simp [spell]

@[simp] theorem spell_name (name : String) (rest : List Token) :
    spell (.name name :: rest) = name ++ spell rest := by
  rw [spell_cons, Token.chars, String.ofList_toList]

@[simp] theorem spell_literal (text : String) (rest : List Token) :
    spell (.literal text :: rest) = text ++ spell rest := by
  rw [spell_cons, Token.chars, String.ofList_toList]

@[simp] theorem spell_comment (text : String) (rest : List Token) :
    spell (.comment text :: rest) = text ++ spell rest := by
  rw [spell_cons, Token.chars, String.ofList_toList]

@[simp] theorem spell_append (first second : List Token) :
    spell (first ++ second) = spell first ++ spell second := by
  apply String.toList_injective
  simp [spell]

/-- The token of a word. -/
def ofWord (word : String) : Token :=
  if word ∈ Identifier.strictKeywords then .keyword word else .name word

@[simp] theorem chars_ofWord (word : String) : (ofWord word).chars = word.toList := by
  unfold ofWord
  split_ifs <;> rfl

theorem ofWord_eq_name {word : String} (h : Identifier.IsWord word) : ofWord word = .name word :=
  if_neg h.notMem_strictKeywords

/-! ## §3 Cutting -/

/-- What a reader of code is in the middle of, with the characters read of it. -/
inductive Reading where
  | nothing
  | word (chars : List Char)
  | colon
  | slash
  | comment (chars : List Char)
  | literal (chars : List Char)
  /-- A literal, behind a backslash. -/
  | escape (chars : List Char)
  deriving DecidableEq

namespace Reading

/-- The tokens of what is read, if nothing follows that belongs to it. -/
def tokens : Reading → List Token
  | .nothing => []
  | .word chars => [ofWord (String.ofList chars)]
  | .colon => [.mark ':']
  | .slash => [.mark '/']
  | .comment chars => [.comment (String.ofList chars)]
  | .literal chars | .escape chars => [.literal (String.ofList chars)]

/-- The first character of something new. -/
def start (c : Char) : List Token × Reading :=
  if Identifier.IsPlainChar c then ([], .word [c])
  else if c = ':' then ([], .colon)
  else if c = '/' then ([], .slash)
  else if c = '"' then ([], .literal [c])
  else ([.mark c], .nothing)

/-- A character that ends what is read, and starts something new. -/
def stop (reading : Reading) (c : Char) : List Token × Reading :=
  (reading.tokens ++ (start c).1, (start c).2)

/-- The next character. -/
def step : Reading → Char → List Token × Reading
  | .nothing, c => start c
  | .word chars, c =>
    if Identifier.IsWordChar c then ([], .word (chars ++ [c])) else stop (.word chars) c
  | .colon, c => if c = ':' then ([.colons], .nothing) else stop .colon c
  | .slash, c => if c = '/' then ([], .comment ['/', '/']) else stop .slash c
  | .comment chars, c =>
    if c = '\n' then stop (.comment chars) c else ([], .comment (chars ++ [c]))
  | .literal chars, c =>
    if c = '"' then ([.literal (String.ofList (chars ++ [c]))], .nothing)
    else if c = '\\' then ([], .escape (chars ++ [c]))
    else ([], .literal (chars ++ [c]))
  | .escape chars, c => ([], .literal (chars ++ [c]))

end Reading

/-- What is given out for characters after what is read, and what is read then. -/
def run : Reading → List Char → List Token × Reading := Machine.run Reading.step

/-- The tokens of characters. -/
def cutChars (text : List Char) : List Token :=
  match run .nothing text with
  | (tokens, reading) => tokens ++ reading.tokens

/-- The tokens of a text. -/
def cut (text : String) : List Token := cutChars text.toList

/-- What is read at the end of a text. -/
def readingAfter (text : String) : Reading := (run .nothing text.toList).2

theorem cut_eq (text : String) :
    cut text = (run .nothing text.toList).1 ++ (readingAfter text).tokens := rfl

@[simp] theorem cut_empty : cut "" = [] := rfl

/-- A literal is a list of characters, which are read one by one. -/
theorem cut_ofList (chars : List Char) : cut (String.ofList chars) = cutChars chars := by
  rw [cut, String.toList_ofList]

theorem readingAfter_ofList (chars : List Char) :
    readingAfter (String.ofList chars) = (run .nothing chars).2 := by
  rw [readingAfter, String.toList_ofList]

/-! ## §4 Nothing is lost -/

theorem chars_start (c : Char) :
    ((Reading.start c).1 ++ (Reading.start c).2.tokens).flatMap Token.chars = [c] := by
  unfold Reading.start
  split_ifs with hplain hcolon hslash hquote
  · simp [Reading.tokens]
  · simp [Reading.tokens, Token.chars, hcolon]
  · simp [Reading.tokens, Token.chars, hslash]
  · simp [Reading.tokens, Token.chars]
  · simp [Reading.tokens, Token.chars]

theorem chars_stop (reading : Reading) (c : Char) :
    ((reading.stop c).1 ++ (reading.stop c).2.tokens).flatMap Token.chars =
      reading.tokens.flatMap Token.chars ++ [c] := by
  rw [Reading.stop, List.append_assoc, List.flatMap_append, chars_start]

/-- A step adds its character to what is given out and what is read. -/
theorem chars_step (reading : Reading) (c : Char) :
    ((reading.step c).1 ++ (reading.step c).2.tokens).flatMap Token.chars =
      reading.tokens.flatMap Token.chars ++ [c] := by
  cases reading with
  | nothing => exact chars_start c
  | word read =>
    rw [Reading.step]
    split_ifs
    · simp [Reading.tokens]
    · exact chars_stop _ c
  | colon =>
    rw [Reading.step]
    split_ifs with hcolon
    · simp [Reading.tokens, Token.chars, hcolon]
    · exact chars_stop _ c
  | slash =>
    rw [Reading.step]
    split_ifs with hslash
    · simp [Reading.tokens, Token.chars, hslash]
    · exact chars_stop _ c
  | comment read =>
    rw [Reading.step]
    split_ifs
    · exact chars_stop _ c
    · simp [Reading.tokens, Token.chars]
  | literal read =>
    rw [Reading.step]
    split_ifs <;> simp [Reading.tokens, Token.chars]
  | escape read => simp [Reading.step, Reading.tokens, Token.chars]

theorem chars_run (reading : Reading) (text : List Char) :
    ((run reading text).1 ++ (run reading text).2.tokens).flatMap Token.chars =
      reading.tokens.flatMap Token.chars ++ text := by
  induction text generalizing reading with
  | nil => simp [run]
  | cons c text ih =>
    have hstep := chars_step reading c
    rw [List.flatMap_append] at hstep
    rw [run, Machine.run_cons, List.append_assoc, List.flatMap_append]
    rw [run] at ih
    rw [ih, ← List.append_assoc, hstep, List.append_assoc, List.singleton_append]

/-- **Tokens make up the text that they are cut from.** -/
@[simp] theorem spell_cut (text : String) : spell (cut text) = text := by
  apply String.toList_injective
  rw [spell, String.toList_ofList, cut_eq, readingAfter, chars_run]
  rfl

/-! ## §5 Cutting texts apart -/

namespace Reading

/-- The character does not belong to what is read. -/
def StopsAt (reading : Reading) (c : Char) : Prop := reading.step c = reading.stop c

theorem nothing_stopsAt (c : Char) : StopsAt .nothing c := rfl

theorem word_stopsAt {chars : List Char} {c : Char} (h : ¬ Identifier.IsWordChar c) :
    StopsAt (.word chars) c := if_neg h

/-- Is a literal read? -/
def isLiteral : Reading → Bool
  | .literal _ | .escape _ => true
  | _ => false

/-- The end of a line stops everything but literals. -/
theorem stopsAt_newline {reading : Reading} (h : reading.isLiteral = false) :
    reading.StopsAt '\n' := by
  cases reading with
  | nothing => exact nothing_stopsAt _
  | word chars => exact word_stopsAt (by decide)
  | colon => rfl
  | slash => rfl
  | comment chars => rfl
  | literal chars => cases h
  | escape chars => cases h

end Reading

/-- **Texts may be cut apart** where a character stops what is read. -/
theorem cut_append {first second : String}
    (h : ∀ c ∈ second.toList.head?, (readingAfter first).StopsAt c) :
    cut (first ++ second) = cut first ++ cut second := by
  cases hchars : second.toList with
  | nil =>
    obtain rfl : second = "" := String.toList_eq_nil_iff.mp hchars
    rw [String.append_empty, cut_empty, List.append_nil]
  | cons c rest =>
    have hstop : (readingAfter first).step c = (readingAfter first).stop c := h c (by simp [hchars])
    rw [cut_eq, cut_eq first, cut_eq second, readingAfter, readingAfter.eq_1 second,
      String.toList_append, hchars, run, Machine.run_append_fst, Machine.run_append_snd,
      Machine.run_cons, Machine.run_cons]
    -- The character is read after the first text as it is read on its own.
    change _ ++ (((readingAfter first).step c).1 ++ (run ((readingAfter first).step c).2 rest).1) ++
      (run ((readingAfter first).step c).2 rest).2.tokens = _
    rw [hstop]
    simp only [Reading.stop, List.append_assoc]
    rfl

/-- Behind a finished token, anything may follow. -/
theorem cut_append_of_nothing {first : String} (h : readingAfter first = .nothing)
    (second : String) : cut (first ++ second) = cut first ++ cut second :=
  cut_append fun c _ => h ▸ Reading.nothing_stopsAt c

/-! ## §6 Words -/

theorem run_word (read : List Char) {text : List Char} (h : ∀ c ∈ text, Identifier.IsWordChar c) :
    run (.word read) text = ([], .word (read ++ text)) := by
  induction text generalizing read with
  | nil => rw [List.append_nil]; rfl
  | cons c text ih =>
    rw [List.forall_mem_cons] at h
    have hstep : Reading.step (.word read) c = ([], .word (read ++ [c])) := if_pos h.1
    rw [run] at ih ⊢
    rw [Machine.run_cons, hstep, ih _ h.2, List.append_assoc]
    rfl

theorem run_isWord {name : String} (h : Identifier.IsWord name) :
    run .nothing name.toList = ([], .word name.toList) := by
  obtain ⟨first, rest, hname, hfirst⟩ := h.start
  have hstep : Reading.step .nothing first = ([], .word [first]) := if_pos hfirst
  have hrest : ∀ c ∈ rest, Identifier.IsWordChar c := fun c hc => h.chars c (by simp [hname, hc])
  have hrun := run_word [first] hrest
  rw [run] at hrun ⊢
  rw [hname, Machine.run_cons, hstep, hrun]
  rfl

/-- Behind a word, anything may follow that ends it. -/
theorem cut_append_of_word {first second : String} {chars : List Char}
    (h : readingAfter first = .word chars) (hsecond : Identifier.EndsWord second) :
    cut (first ++ second) = cut first ++ cut second :=
  cut_append fun c hc => h ▸ Reading.word_stopsAt (hsecond c hc)

/-- **Words are cut off** in front of anything that ends them. -/
theorem cut_word {name rest : String} (h : Identifier.IsWord name)
    (hrest : Identifier.EndsWord rest) : cut (name ++ rest) = .name name :: cut rest := by
  have hreading : readingAfter name = .word name.toList := by rw [readingAfter, run_isWord h]
  have hname : cut name = [.name name] := by
    rw [cut_eq, hreading, run_isWord h, Reading.tokens, String.ofList_toList, ofWord_eq_name h]
    rfl
  rw [cut_append_of_word hreading hrest, hname, List.singleton_append]

/-! ## §7 Literals -/

/-- Characters that neither end a literal nor escape another one. -/
theorem run_literal {read text : List Char} (h : ∀ c ∈ text, c ≠ '"' ∧ c ≠ '\\') :
    run (.literal read) text = ([], .literal (read ++ text)) := by
  induction text generalizing read with
  | nil => rw [List.append_nil]; rfl
  | cons c text ih =>
    rw [List.forall_mem_cons] at h
    have hstep : Reading.step (.literal read) c = ([], .literal (read ++ [c])) := by
      rw [Reading.step, if_neg h.1.1, if_neg h.1.2]
    rw [run] at ih ⊢
    rw [Machine.run_cons, hstep, ih h.2, List.append_assoc]
    rfl

/-- An escaped character, whatever it is. -/
theorem run_escaped (read : List Char) (c : Char) :
    run (.literal read) ['\\', c] = ([], .literal (read ++ ['\\', c])) := by
  have hquote : '\\' ≠ '"' := by decide
  simp [run, Machine.run, Reading.step, hquote]

/-- The written form of a character goes on with a literal. -/
theorem run_encodeChar (read : List Char) (c : Char) :
    run (.literal read) (Literal.encodeChar c) = ([], .literal (read ++ Literal.encodeChar c)) := by
  unfold Literal.encodeChar
  split_ifs with hnul htab hfeed hreturn hquote hbackslash hcode
  any_goals exact run_escaped read _
  · -- Behind the escaped letter stand the digits between braces.
    have hdigits : ∀ d ∈ ['\x7b'] ++ Hexadecimal.digits c.toNat ++ ['\x7d'],
        d ≠ '"' ∧ d ≠ '\\' := by
      intro d hd
      simp only [List.mem_append, List.mem_singleton] at hd
      rcases hd with (rfl | hd) | rfl
      · decide
      · obtain ⟨k, hk, rfl⟩ := Hexadecimal.exists_of_mem_digits hd
        exact ⟨(Hexadecimal.digit_ne k hk).1, (Hexadecimal.digit_ne k hk).2.1⟩
      · decide
    have hrun := Machine.run_append (run_escaped read 'u') (run_literal hdigits)
    simpa [run] using hrun
  · exact run_literal (List.forall_mem_singleton.mpr ⟨hquote, hbackslash⟩)

theorem run_encode (text : String) :
    run .nothing (Literal.encode text).toList = ([.literal (Literal.encode text)], .nothing) := by
  have hbody (read chars : List Char) : run (.literal read) (chars.flatMap Literal.encodeChar) =
      ([], .literal (read ++ chars.flatMap Literal.encodeChar)) := by
    induction chars generalizing read with
    | nil => simp [run]
    | cons c chars ih =>
      rw [List.flatMap_cons, ← List.append_assoc]
      exact Machine.run_append (run_encodeChar read c) (ih _)
  have hopen : run .nothing ['"'] = ([], .literal ['"']) := by decide
  have hclose (read : List Char) : run (.literal read) ['"'] =
      ([.literal (String.ofList (read ++ ['"']))], .nothing) := by
    simp [run, Machine.run, Reading.step]
  have hrun := Machine.run_append (Machine.run_append hopen (hbody ['"'] text.toList)) (hclose _)
  rw [Literal.encode, String.toList_ofList, Literal.encodeChars]
  exact hrun

theorem readingAfter_encode (text : String) : readingAfter (Literal.encode text) = .nothing := by
  rw [readingAfter, run_encode]

/-- **Literals are cut off** in front of anything. -/
theorem cut_literal (text rest : String) :
    cut (Literal.encode text ++ rest) = .literal (Literal.encode text) :: cut rest := by
  rw [cut_append_of_nothing (readingAfter_encode text), cut_eq, readingAfter_encode, run_encode]
  rfl

/-! ## §8 Comments -/

theorem run_comment {read text : List Char} (h : '\n' ∉ text) :
    run (.comment read) text = ([], .comment (read ++ text)) := by
  induction text generalizing read with
  | nil => rw [List.append_nil]; rfl
  | cons c text ih =>
    rw [List.mem_cons, not_or] at h
    have hstep : Reading.step (.comment read) c = ([], .comment (read ++ [c])) := by
      rw [Reading.step, if_neg (Ne.symm h.1)]
    rw [run] at ih ⊢
    rw [Machine.run_cons, hstep, ih h.2, List.append_assoc]
    rfl

/-- **Comments are cut off** at the end of their line. -/
theorem cut_comment {text : String} (h : '\n' ∉ text.toList) (rest : String) :
    cut ("//" ++ text ++ ("\n" ++ rest)) = .comment ("//" ++ text) :: cut ("\n" ++ rest) := by
  have hopen : run .nothing ['/', '/'] = ([], .comment ['/', '/']) := by decide
  have hrun : run .nothing ("//" ++ text).toList = ([], .comment ("//" ++ text).toList) := by
    rw [String.toList_append]
    exact Machine.run_append hopen (run_comment h)
  have hreading : readingAfter ("//" ++ text) = .comment ("//" ++ text).toList := by
    rw [readingAfter, hrun]
  have hstop : ∀ c ∈ ("\n" ++ rest).toList.head?, (readingAfter ("//" ++ text)).StopsAt c := by
    intro c hc
    obtain rfl : c = '\n' := by simpa using hc.symm
    exact hreading ▸ Reading.stopsAt_newline rfl
  rw [cut_append hstop, cut_eq, hreading, hrun, Reading.tokens, String.ofList_toList]
  rfl

end Code

end TypedSettings

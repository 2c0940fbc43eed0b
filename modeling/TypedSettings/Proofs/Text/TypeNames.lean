import Mathlib
import TypedSettings.Proofs.Text.Code

/-!
# Names of types in code

Which types code declares and which it uses, read off its tokens. A type is expected behind a colon
or an arrow, between angle brackets, and behind some keywords; every name there is that of a type,
and so is a name in front of a path or of a structure expression, wherever it stands. What follows a
dot or the first name of a path is looked up elsewhere. A path from the root is used wherever it
stands.
`Self` abbreviates the name that is implemented. Attributes name macros, not types. Types in
parentheses, parameters of types and imports do not occur in generated code.

Main facts:
- `Code.TypeName`: paths from the root, and names that are looked up in a module
- `Code.declared`, `Code.used`: the types that code declares and uses, in their order
- `Code.Reads`: tokens that are read with certain events, between statements or declarations
-/

namespace TypedSettings.Code

/-! ## §1 Events -/

/-- A type as code names it. -/
inductive TypeName where
  /-- A path from the root, by its segments. -/
  | rooted (path : List String)
  | plain (name : String)
  deriving DecidableEq

/-- What happens to types in code. -/
inductive Event where
  | declares (name : String)
  | uses (type : TypeName)
  deriving DecidableEq

namespace Event

/-- The name that is declared. -/
def declared? : Event → Option String
  | .declares name => some name
  | .uses _ => none

/-- The type that is used. -/
def used? : Event → Option TypeName
  | .declares _ => none
  | .uses type => some type

theorem filterMap_declared?_cons (name : String) (rest : List Event) :
    (declares name :: rest).filterMap declared? = name :: rest.filterMap declared? := rfl

theorem filterMap_used?_cons (name : String) (rest : List Event) :
    (declares name :: rest).filterMap used? = rest.filterMap used? := rfl

end Event

/-! ## §2 Reading types -/

/-- Where tokens stand. -/
inductive Place where
  | code
  /-- Where a type is expected, inside so many angle brackets. -/
  | type (depth : Nat)
  /-- Between the brackets of an attribute of an item. -/
  | brackets
  deriving DecidableEq

/-- What the last token tells about the next one. -/
inductive Last where
  | nothing
  | hash
  | dash
  /-- The next word names no type. -/
  | elsewhere
  /-- A word that needs no more attention. -/
  | settled
  /-- The next word is declared as a type. -/
  | declaring
  /-- The next word is the name that is implemented. -/
  | implementing
  | word (name : String)
  /-- Segments of a path from the root, behind a mark that another one follows. -/
  | root (path : List String)
  | path (path : List String)
  deriving DecidableEq

/-- The state of a reader of types. -/
structure Types where
  place : Place
  last : Last
  /-- What `Self` abbreviates. -/
  owner : String
  deriving DecidableEq

namespace Types

/-- What is known about the last word from the next token. -/
def settle (types : Types) (token : Token) : List Event :=
  match types.last with
  | .word name =>
    if token = .colons ∨ token = .mark '\x7b' ∨ types.place ≠ .code then [.uses (.plain name)]
    else []
  | .path path => if token = .colons then [] else [.uses (.rooted path)]
  | _ => []

/-- The place behind a character. -/
def placeAfter (place : Place) (last : Last) (c : Char) : Place :=
  if c = '[' ∧ last = .hash then .brackets
  else if c = '>' ∧ last = .dash then .type 0
  else match place with
    | .code => if c = ':' then .type 0 else .code
    | .type depth =>
      if c = '<' then .type (depth + 1)
      else if c = '>' then if depth = 0 then .code else .type (depth - 1)
      else if c = ',' then if depth = 0 then .code else .type depth
      else if c ∈ ['=', ';', '(', ')', '\x7b', '\x7d'] then .code
      else .type depth
    | .brackets => if c = ']' then .code else .brackets

/-- What a character tells about the next token. -/
def lastOfMark (c : Char) : Last :=
  if c = '.' ∨ c = '\'' then .elsewhere
  else if c = '#' then .hash
  else if c = '-' then .dash
  else .nothing

/-- What a keyword tells about the next token. -/
def lastOfKeyword (last : Last) (word : String) : Last :=
  if last = .elsewhere then .nothing
  else if word ∈ ["enum", "struct", "trait", "type"] then .declaring
  else if word ∈ ["impl", "for"] then .implementing
  else if word ∈ ["crate", "self", "super"] then .word word
  else if word = "mod" then .elsewhere
  else if word = "Self" then .settled
  else .nothing

/-- The next token. Blanks, line feeds, comments and attributes are passed over. -/
def step (types : Types) (token : Token) : List Event × Types :=
  match types.place, token with
  | .brackets, .mark c => ([], { types with place := placeAfter .brackets types.last c })
  | .brackets, _ => ([], types)
  | _, .comment _ => ([], types)
  | place, .mark c =>
    if c = ' ' ∨ c = '\n' then ([], types)
    else (types.settle token,
      { types with place := placeAfter place types.last c, last := lastOfMark c })
  | _, .literal _ => (types.settle token, { types with last := .nothing })
  | _, .colons =>
    (types.settle token,
      { types with
        last := match types.last with
          | .word _ | .settled => .elsewhere
          | .path path => .root path
          | _ => .root [] })
  | place, .keyword word =>
    (types.settle token ++ (if word = "Self" then [.uses (.plain types.owner)] else []),
      { types with
        place := if word ∈ ["impl", "for", "dyn", "as", "where"] then .type 0 else place
        last := lastOfKeyword types.last word })
  | _, .name word =>
    (types.settle token ++ (if types.last = .declaring then [.declares word] else []),
      { types with
        last := match types.last with
          | .elsewhere | .declaring => .settled
          | .root path => .path (path ++ [word])
          | _ => .word word
        owner := if types.last = .implementing then word else types.owner })

end Types

/-- The events of tokens, and the state behind them. -/
def readTypes : Types → List Token → List Event × Types := Machine.run Types.step

/-! ## §3 Tokens one after another -/

theorem readTypes_append {first second : List Token} {events events' : List Event}
    {types middle last : Types} (hfirst : readTypes types first = (events, middle))
    (hsecond : readTypes middle second = (events', last)) :
    readTypes types (first ++ second) = (events ++ events', last) :=
  Machine.run_append hfirst hsecond

@[simp] theorem readTypes_nil (types : Types) : readTypes types [] = ([], types) := rfl

/-- A fixed piece of code is read character by character. -/
theorem readTypes_ofList {chars : List Char} {events : List Event} {types last : Types}
    (h : readTypes types (cutChars chars) = (events, last)) :
    readTypes types (cut (String.ofList chars)) = (events, last) := by
  rwa [cut_ofList]

/-- A fixed piece of code behind a name. -/
theorem readTypes_name_ofList {name : String} {chars : List Char} {events : List Event}
    {types last : Types} (h : readTypes types (.name name :: cutChars chars) = (events, last)) :
    readTypes types (.name name :: cut (String.ofList chars)) = (events, last) := by
  rwa [cut_ofList]

/-- Blanks and line feeds are passed over everywhere. -/
theorem readTypes_blanks {tokens : List Token}
    (h : ∀ token ∈ tokens, token ∈ [.mark ' ', .mark '\n']) (types : Types) :
    readTypes types tokens = ([], types) := by
  induction tokens with
  | nil => rfl
  | cons token tokens ih =>
    rw [List.forall_mem_cons] at h
    have hstep : types.step token = ([], types) := by
      obtain ⟨place, last, owner⟩ := types
      simp only [List.mem_cons, List.not_mem_nil, or_false] at h
      rcases h.1 with rfl | rfl <;> cases place <;> rfl
    rw [readTypes] at ih ⊢
    rw [Machine.run_cons, hstep, ih h.2]
    rfl

/-- The state between statements or declarations, where `Self` abbreviates a name. -/
def Types.between (owner : String) : Types := ⟨.code, .nothing, owner⟩

/-- Tokens that have these events and end where they started. -/
def Reads (owner : String) (tokens : List Token) (events : List Event) : Prop :=
  readTypes (.between owner) tokens = (events, .between owner)

theorem Reads.append {owner : String} {first second : List Token} {events events' : List Event}
    (hfirst : Reads owner first events) (hsecond : Reads owner second events') :
    Reads owner (first ++ second) (events ++ events') :=
  readTypes_append hfirst hsecond

/-! ## §4 Declared and used types -/

/-- The types that code declares. -/
def declared (tokens : List Token) : List String :=
  (readTypes (.between "Self") tokens).1.filterMap Event.declared?

/-- The types that code uses. -/
def used (tokens : List Token) : List TypeName :=
  (readTypes (.between "Self") tokens).1.filterMap Event.used?

end TypedSettings.Code

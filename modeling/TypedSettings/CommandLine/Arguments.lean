import TypedSettings.FileTree.Path

/-!
# Arguments

What the words of a command line ask for. Options stand before or after the subcommand they belong
to; the general ones stand in either place, and then the later place wins. An option that takes a
value takes it after an equals sign or as the next word, which must not look like an option itself.
Two hyphens alone end the options.

A request for help or for the version is granted as soon as it is read; anything wrong before it,
and otherwise anywhere, makes the whole command line unusable.
-/

namespace TypedSettings

/-- The options of code generation. -/
structure GenerateOptions where
  sourceDirectory : Path
  program : Option String
  outputDirectory : Option Path
  toStandardOutput : Bool
  deriving DecidableEq, Repr

/-- What the program can do. -/
inductive Command where
  | generate (options : GenerateOptions)
  | inspect (file : Path) (asDocument : Bool)
  | preview (file : Path)
  deriving DecidableEq, Repr

/-- What a command line asks for. -/
inductive Request where
  | help
  | version
  | run (configuration : Option Path) (command : Command)
  deriving DecidableEq, Repr

namespace Arguments

/-! ## §1 Options -/

/-- What an option does. -/
inductive OptionKind where
  | help
  | version
  /-- A switch, which may be given once. -/
  | switch
  /-- A switch that counts. -/
  | counter
  /-- A value, which may be given once. -/
  | value (mayBeEmpty : Bool)
  deriving DecidableEq, Repr

/-- An option with its long name and its letter. -/
structure OptionSpec where
  name : String
  letter : Option Char
  kind : OptionKind
  deriving DecidableEq, Repr

/-- The options that stand in any place. -/
def general : List OptionSpec := [
  ⟨"verbose", some 'v', .counter⟩,
  ⟨"config", none, .value false⟩,
  ⟨"help", some 'h', .help⟩]

/-- The options before the subcommand. -/
def rootOptions : List OptionSpec := ⟨"version", some 'V', .version⟩ :: general

/-- The options of code generation. -/
def generateOptions : List OptionSpec := [
  ⟨"source-dir", none, .value false⟩,
  ⟨"program-name", none, .value true⟩,
  ⟨"out-dir", none, .value false⟩,
  ⟨"stdout", none, .switch⟩] ++ general

/-- The options of an inspection. -/
def inspectOptions : List OptionSpec := ⟨"json", none, .switch⟩ :: general

/-! ## §2 Words -/

/-- The options and operands that have been read. -/
structure Matches where
  switches : List String
  values : List (String × String)
  operands : List String
  deriving DecidableEq, Repr

/-- Nothing read. -/
def Matches.empty : Matches := ⟨[], [], []⟩

/-- The value of an option. -/
def Matches.value? (m : Matches) (name : String) : Option String :=
  (m.values.find? (·.1 == name)).map Prod.snd

/-- Why reading stops before the last word. -/
inductive Stop where
  | usage
  | help
  | version
  deriving DecidableEq, Repr

/-- Does a word look like an option? -/
def looksLikeOption (word : String) : Bool :=
  match word.toList with
  | '-' :: _ :: _ => true
  | _ => false

/-- The name and the attached value of a long option, without its hyphens. -/
def splitLong (chars : List Char) : String × Option String :=
  let name := chars.takeWhile (· ≠ '=')
  match chars.dropWhile (· ≠ '=') with
  | [] => (String.ofList name, none)
  | _ :: value => (String.ofList name, some (String.ofList value))

/-- Records a switch. -/
def addSwitch (m : Matches) (spec : OptionSpec) : Except Stop Matches :=
  match spec.kind with
  | .help => .error .help
  | .version => .error .version
  | .counter => .ok m
  | .switch =>
    if spec.name ∈ m.switches then .error .usage
    else .ok { m with switches := spec.name :: m.switches }
  | .value _ => .error .usage

/-- Records a value. -/
def addValue (m : Matches) (spec : OptionSpec) (mayBeEmpty : Bool) (value : String) :
    Except Stop Matches :=
  if (m.value? spec.name).isSome ∨ (value = "" ∧ !mayBeEmpty) then .error .usage
  else .ok { m with values := m.values ++ [(spec.name, value)] }

/-- Records letters after one hyphen; none of them takes a value. -/
def addLetters (specs : List OptionSpec) : List Char → Matches → Except Stop Matches
  | [], m => .ok m
  | letter :: rest, m =>
    match specs.find? (·.letter == some letter) with
    | none => .error .usage
    | some spec =>
      match addSwitch m spec with
      | .error stop => .error stop
      | .ok m => addLetters specs rest m

/-- Records an operand, of which there are at most `limit`, none of them empty. -/
def addOperand (limit : Nat) (m : Matches) (word : String) : Except Stop Matches :=
  if limit ≤ m.operands.length ∨ word = "" then .error .usage
  else .ok { m with operands := m.operands ++ [word] }

/-- Records words that are all operands. -/
def addOperands (limit : Nat) : List String → Matches → Except Stop Matches
  | [], m => .ok m
  | word :: rest, m =>
    match addOperand limit m word with
    | .error stop => .error stop
    | .ok m => addOperands limit rest m

/-- Reads words up to the end, or up to the first operand if none is allowed to be recorded; returns
what remains from that operand on. -/
def scan (specs : List OptionSpec) (limit : Nat) (untilOperand : Bool) :
    List String → Matches → Except Stop (Matches × List String)
  | [], m => .ok (m, [])
  | word :: rest, m =>
    match word.toList with
    -- Everything after two hyphens is an operand.
    | ['-', '-'] =>
      match addOperands limit rest m with
      | .error stop => .error stop
      | .ok m => .ok (m, [])
    | '-' :: '-' :: long =>
      let (name, attached) := splitLong long
      match specs.find? (·.name == name) with
      | none => .error .usage
      | some spec =>
        match spec.kind, attached, rest with
        | .value mayBeEmpty, some value, rest =>
          match addValue m spec mayBeEmpty value with
          | .error stop => .error stop
          | .ok m => scan specs limit untilOperand rest m
        -- A value of its own word must not look like an option; an attached one may.
        | .value mayBeEmpty, none, value :: rest =>
          if looksLikeOption value then .error .usage
          else match addValue m spec mayBeEmpty value with
            | .error stop => .error stop
            | .ok m => scan specs limit untilOperand rest m
        -- Without a word to take, an option with a value is no switch either and is refused.
        | _, none, rest =>
          match addSwitch m spec with
          | .error stop => .error stop
          | .ok m => scan specs limit untilOperand rest m
        | _, some _, _ => .error .usage
    | '-' :: letter :: letters =>
      match addLetters specs (letter :: letters) m with
      | .error stop => .error stop
      | .ok m => scan specs limit untilOperand rest m
    | _ =>
      if untilOperand then .ok (m, word :: rest)
      else match addOperand limit m word with
        | .error stop => .error stop
        | .ok m => scan specs limit untilOperand rest m

/-! ## §3 Requests -/

/-- The options and operands of a subcommand. -/
def scanCommand (specs : List OptionSpec) (limit : Nat) (words : List String) :
    Except Stop Matches :=
  (scan specs limit false words .empty).map Prod.fst

/-- The operand that a subcommand must have. -/
def onlyOperand (m : Matches) : Except Stop Path :=
  match m.operands with
  | [word] => .ok ⟨word⟩
  | _ => .error .usage

/-- The request for a command, with the configuration of the later place. -/
def request (root m : Matches) (command : Command) : Request :=
  .run (((m.value? "config").or (root.value? "config")).map Path.mk) command

/-- Is there help on these words: on the whole program or on one of its subcommands? -/
def hasHelp : List String → Bool
  | [] => true
  | [name] => name ∈ ["generate", "inspect", "preview", "help"]
  | _ => false

/-- The request of a subcommand and its words. -/
def commandRequest (root : Matches) (name : String) (words : List String) :
    Except Stop Request := do
  if name = "generate" then
    let m ← scanCommand generateOptions 0 words
    return request root m (.generate {
      sourceDirectory := ⟨(m.value? "source-dir").getD "."⟩
      program := m.value? "program-name"
      outputDirectory := (m.value? "out-dir").map Path.mk
      toStandardOutput := "stdout" ∈ m.switches })
  else if name = "inspect" then
    let m ← scanCommand inspectOptions 1 words
    return request root m (.inspect (← onlyOperand m) ("json" ∈ m.switches))
  else if name = "preview" then
    let m ← scanCommand general 1 words
    return request root m (.preview (← onlyOperand m))
  else if name = "help" ∧ hasHelp words then
    throw .help
  else
    throw .usage

/-- The request of all words of a command line. -/
def parseWords (words : List String) : Except Stop Request := do
  match ← scan rootOptions 0 true words .empty with
  | (root, name :: rest) => commandRequest root name rest
  | (_, []) => throw .usage

end Arguments

/-- What a command line asks for, unless it is unusable. -/
def Request.parse? (words : List String) : Option Request :=
  match Arguments.parseWords words with
  | .ok request => some request
  | .error .help => some .help
  | .error .version => some .version
  | .error .usage => none

end TypedSettings

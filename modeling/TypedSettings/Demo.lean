import TypedSettings.Generated.Display
import TypedSettings.Reading.File

/-!
# The demonstration program

A program whose accessors are generated from two settings documents of its own: one for each
variant. Its instances are loaded like those of any other program.
-/

namespace TypedSettings.Demo

/-- The name of the program. -/
def program : String := "settingsgen-demo"

/-- The settings document that a variant of the program is generated from. -/
def document : Variant → Value
  | .publicSettings => .object [
      ("ServiceName", .string "demo"),
      ("RetryCount", .number (.integer 3)),
      ("Verbose", .boolean true),
      ("Hosts", .array [.string "alpha", .string "beta"]),
      ("Ports", .array [.number (.integer 8080), .number (.integer 8081)]),
      ("Logging.Level", .string "info"),
      ("type", .string "primary"),
      ("Empty", .array []),
      ("Database", .object [
        ("Host", .string "localhost"),
        ("Port", .number (.integer 5432)),
        ("ReadOnly", .boolean true),
        ("Pool", .object [("Min", .number (.integer 1)), ("Max", .number (.integer 8))])])]
  | .internalSettings => .object [
      ("ApiKey", .string "dev-key"),
      ("Features", .object [("Beta", .boolean false), ("Limit", .number (.integer 10))])]

/-- The schema of a variant. -/
def schema (variant : Variant) : Schema := (Schema.ofDocument (document variant)).toOption.getD []

/-- The generated holder of a variant. -/
def holder (variant : Variant) : Holder := (schema variant).holder variant program

/-- The structures that the generated module of a variant declares. -/
def declarations (variant : Variant) : Declarations :=
  .ofHolder (holder variant) (schema variant).valueTypes

/-- The instance of a variant for a document. -/
def ofDocument (variant : Variant) (document : Value) : Except LoadError Instance :=
  (declarations variant).load (holder variant) document

/-- Why the program has no instance. -/
inductive Failure where
  | file (error : FileError)
  | document (error : LoadError)
  deriving DecidableEq, Repr

/-- The wording of a failure. -/
def Failure.message : Failure → String
  | .file e => e.message
  | .document e => e.message

/-- The instance of a variant for the settings file beside the executable. -/
def load (disk : Disk) (executableDirectory : Path) (variant : Variant) :
    Except Failure Instance :=
  match disk.readDocument (besideExecutable executableDirectory (holder variant).fileName) with
  | .error e => .error (.file e)
  | .ok document =>
    match ofDocument variant document with
    | .error e => .error (.document e)
    | .ok inst => .ok inst

/-- The shared instance of a variant, or the message that the program stops with. -/
def shared (disk : Disk) (executableDirectory : Path) (variant : Variant) :
    Except String Instance :=
  match load disk executableDirectory variant with
  | .error e => .error ("failed to load " ++ (holder variant).fileName ++ ": " ++ e.message)
  | .ok inst => .ok inst

/-- What the program prints: the display of its public settings. -/
def printed (disk : Disk) (executableDirectory : Path) : Except Failure String :=
  match load disk executableDirectory .publicSettings with
  | .error e => .error e
  | .ok inst => .ok (inst.display ++ "\n")

end TypedSettings.Demo

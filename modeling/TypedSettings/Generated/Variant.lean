import TypedSettings.Identifier
import TypedSettings.Document.Value

/-!
# Variants

A program can have two settings files: a public one and an internal one that carries the name of the
program. The two are generated alike and differ in names only.
-/

namespace TypedSettings

/-- Which settings file is meant. -/
inductive Variant where
  | publicSettings
  | internalSettings
  deriving DecidableEq, Repr

namespace Variant

/-- Both variants, in the order in which they are generated. -/
def all : List Variant := [.publicSettings, .internalSettings]

/-- The name of the generated holder type. -/
def typeName : Variant → String
  | .publicSettings => "Settings"
  | .internalSettings => "InternalSettings"

/-- The name of the settings file. -/
def fileName (program : String) : Variant → String
  | .publicSettings => "settings.json"
  | .internalSettings => program ++ ".settings.json"

/-- The suffix of the generated module. -/
def moduleSuffix : Variant → String
  | .publicSettings => "settings"
  | .internalSettings => "internal_settings"

/-- The name of the generated module. -/
def moduleName (program : String) (variant : Variant) : String :=
  Identifier.moduleName program variant.moduleSuffix

/-- The name of the file that the generated source is written to. -/
def outputFileName : Variant → String
  | .publicSettings => "settings_generated.rs"
  | .internalSettings => "internal_settings_generated.rs"

/-- A variant as a document. -/
def toValue : Variant → Value
  | .publicSettings => .string "public"
  | .internalSettings => .string "internal"

end Variant

end TypedSettings

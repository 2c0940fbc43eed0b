import TypedSettings.CommandLine.Arguments
import TypedSettings.CommandLine.Configuration
import TypedSettings.CommandLine.Run
import TypedSettings.Demo
import TypedSettings.Document.Parser
import TypedSettings.Document.Printer
import TypedSettings.Document.Quoted
import TypedSettings.Document.Scan.Filler
import TypedSettings.Document.Scan.Numeral
import TypedSettings.Document.Scan.Quoted
import TypedSettings.Document.Spelled
import TypedSettings.Document.SyntaxError
import TypedSettings.Document.Token
import TypedSettings.Document.Value
import TypedSettings.FileTree.Action
import TypedSettings.FileTree.Basic
import TypedSettings.FileTree.Path
import TypedSettings.Generated.Declaration
import TypedSettings.Generated.Display
import TypedSettings.Generated.Initializer
import TypedSettings.Generated.Instance
import TypedSettings.Generated.Simulation
import TypedSettings.Generated.Source
import TypedSettings.Generated.Variant
import TypedSettings.Generation.Build
import TypedSettings.Generation.Generator
import TypedSettings.Generation.Output
import TypedSettings.Identifier
import TypedSettings.Main
import TypedSettings.Number.Basic
import TypedSettings.Number.Binary64
import TypedSettings.Number.Digits
import TypedSettings.Number.Numeral
import TypedSettings.Number.Shortest
import TypedSettings.OrderedMap
import TypedSettings.Proofs.Document.Regular
import TypedSettings.Proofs.Document.RoundTrip
import TypedSettings.Proofs.Document.Scan.Numeral
import TypedSettings.Proofs.Generated.Agreement
import TypedSettings.Proofs.Generated.Construction
import TypedSettings.Proofs.Generated.Faults
import TypedSettings.Proofs.Generated.Idempotence
import TypedSettings.Proofs.Generated.Outcome
import TypedSettings.Proofs.Generated.Run
import TypedSettings.Proofs.Generated.SelfReading
import TypedSettings.Proofs.Generated.Settled
import TypedSettings.Proofs.OrderedMap
import TypedSettings.Proofs.OrderedMap.Collected
import TypedSettings.Proofs.Reading.Conversion
import TypedSettings.Proofs.Reading.Items
import TypedSettings.Proofs.Schema.Image
import TypedSettings.Reading.Basic
import TypedSettings.Reading.File
import TypedSettings.Reading.Readable
import TypedSettings.Schema.FieldType
import TypedSettings.Schema.Serialized
import TypedSettings.Schema.Tree
import TypedSettings.Text.Hexadecimal
import TypedSettings.Text.Literal
import TypedSettings.Text.Unprintable
import TypedSettings.Toml.Document
import TypedSettings.Toml.Quoted
import TypedSettings.Toml.Scalar
import TypedSettings.Toml.Table
import TypedSettings.Proofs.Generated.Reproduction
import TypedSettings.Proofs.Document.Grammar
import TypedSettings.Proofs.Document.Lexeme
import TypedSettings.Proofs.Document.Acceptance
import TypedSettings.Proofs.Document.DepthLimit
import TypedSettings.Proofs.Reading.Text
import TypedSettings.Proofs.FileTree.Path
import TypedSettings.Proofs.FileTree.Tree
import TypedSettings.Proofs.Generation.Isolation
import TypedSettings.Proofs.FileTree.Change
import TypedSettings.Proofs.Generation.Output
import TypedSettings.Proofs.Generation.History
import TypedSettings.Proofs.Identifier.Words
import TypedSettings.Proofs.Text.Code
import TypedSettings.Proofs.Text.TypeNames
import TypedSettings.Proofs.Generated.Descendants
import TypedSettings.Proofs.Generated.Tokens
import TypedSettings.Proofs.Generated.Mentions
import TypedSettings.Proofs.Generated.Scope
import TypedSettings.Proofs.Document.Edit
import TypedSettings.Proofs.Generated.PlannedPaths
import TypedSettings.Proofs.Generated.Lines
import TypedSettings.Proofs.Generated.Legibility
import TypedSettings.Proofs.FileTree.Links
import TypedSettings.Proofs.FileTree.Visits
import TypedSettings.Proofs.Generation.FrontEnds
import TypedSettings.Proofs.Number.Rounding
import TypedSettings.Proofs.Number.WholeNumeral
import TypedSettings.Proofs.Number.ScaledNumeral
import TypedSettings.Proofs.Document.Meaning
import TypedSettings.Proofs.Document.Range
import TypedSettings.Proofs.Reading.Integers
import TypedSettings.Proofs.Reading.Offender
import TypedSettings.Proofs.Reading.Mirrored
import TypedSettings.Proofs.Generated.Enumeration
import TypedSettings.Proofs.FileTree.Descent
import TypedSettings.Proofs.Generation.Current
import TypedSettings.Proofs.Generation.Failure
import TypedSettings.Proofs.Document.Comment
import TypedSettings.Proofs.Generated.Keys
import TypedSettings.Proofs.Schema.Serialized
import TypedSettings.Proofs.Identifier.Legal
import TypedSettings.Proofs.Identifier.Collision
import TypedSettings.Proofs.Generated.ProgramName
import TypedSettings.Proofs.Generation.Watching

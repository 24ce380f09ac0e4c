import Fieldmark.Arguments
import Fieldmark.Binding
import Fieldmark.Blank
import Fieldmark.DataFile
import Fieldmark.Diff
import Fieldmark.Diff.Compaction
import Fieldmark.Diff.Snake
import Fieldmark.Duration
import Fieldmark.Event
import Fieldmark.Fields
import Fieldmark.FileStore
import Fieldmark.FileTree
import Fieldmark.Fill
import Fieldmark.Json
import Fieldmark.Json.Flaw
import Fieldmark.Json.Number
import Fieldmark.Json.Reader
import Fieldmark.Load
import Fieldmark.LoopBody
import Fieldmark.Main
import Fieldmark.MemoryStore
import Fieldmark.Notice
import Fieldmark.Number.Binary64
import Fieldmark.Number.Decimal
import Fieldmark.Number.Word
import Fieldmark.Outcome
import Fieldmark.Path
import Fieldmark.Point
import Fieldmark.Printable
import Fieldmark.Problem
import Fieldmark.Project
import Fieldmark.Quoted
import Fieldmark.Scan
import Fieldmark.Scan.Step
import Fieldmark.Settings
import Fieldmark.Substitution
import Fieldmark.Token
import Fieldmark.Toml
import Fieldmark.Toml.DateTime
import Fieldmark.Toml.Draft
import Fieldmark.Toml.Reader
import Fieldmark.Toml.Scalar
import Fieldmark.Value
import Fieldmark.Yaml.BlockText
import Fieldmark.Yaml.Cursor
import Fieldmark.Yaml.Folding
import Fieldmark.Yaml.Grammar
import Fieldmark.Yaml.Layout
import Fieldmark.Yaml.Node
import Fieldmark.Yaml.Property
import Fieldmark.Yaml.Reader
import Fieldmark.Yaml.Schema
import Fieldmark.Yaml.Token
import Fieldmark.Proofs.Opening
import Fieldmark.Proofs.Position
import Fieldmark.Proofs.Steps
import Fieldmark.Proofs.Reading
import Fieldmark.Proofs.Body
import Fieldmark.Proofs.Blindness
import Fieldmark.Proofs.Typed
import Fieldmark.Proofs.Spelling
import Fieldmark.Proofs.Tokens
import Fieldmark.Proofs.Bindings
import Fieldmark.Proofs.Stops
import Fieldmark.Proofs.Truthful
import Fieldmark.Proofs.Lines
import Fieldmark.Proofs.Traces
import Fieldmark.Proofs.Seams
import Fieldmark.Proofs.Plain
import Fieldmark.Proofs.Repetition
import Fieldmark.Proofs.Naming
import Fieldmark.Proofs.Schedule
import Fieldmark.Proofs.Loading
import Fieldmark.Proofs.FirstFailure
import Fieldmark.Proofs.Demand
import Fieldmark.Proofs.Continuation
import Fieldmark.Proofs.LoopEnd
import Fieldmark.Proofs.Nested
import Fieldmark.Proofs.Shift
import Fieldmark.Proofs.Composition
import Fieldmark.Proofs.Paths
import Fieldmark.Proofs.Confinement
import Fieldmark.Proofs.Untouched
import Fieldmark.Proofs.Growth
import Fieldmark.Proofs.Making
import Fieldmark.Proofs.Frame
import Fieldmark.Proofs.ByteOrder
import Fieldmark.Proofs.Enumeration
import Fieldmark.Proofs.Agreement
import Fieldmark.Proofs.Offsets
import Fieldmark.Proofs.BodyOffsets
import Fieldmark.Proofs.ScanOffsets
import Fieldmark.Proofs.Letters
import Fieldmark.Proofs.BindingText
import Fieldmark.Proofs.BodyText
import Fieldmark.Proofs.Collections
import Fieldmark.Proofs.Output
import Fieldmark.Proofs.FieldPaths
import Fieldmark.Proofs.Rebinding
import Fieldmark.Proofs.NumberText
import Fieldmark.Proofs.Formats
import Fieldmark.Proofs.LongestMatch
import Fieldmark.Proofs.Delimiters
import Fieldmark.Proofs.Counting

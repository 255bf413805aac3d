import BlockSketch.CommandLine.Arguments
import BlockSketch.CommandLine.Command
import BlockSketch.CommandLine.Help
import BlockSketch.CommandLine.Run
import BlockSketch.Diagnostic
import BlockSketch.Document.Load
import BlockSketch.Document.Saved
import BlockSketch.Files.Path
import BlockSketch.Files.Tree
import BlockSketch.Json.Basic
import BlockSketch.Json.Parse
import BlockSketch.Json.Print
import BlockSketch.Json.Size
import BlockSketch.Json.Token
import BlockSketch.Main
import BlockSketch.Names
import BlockSketch.Number.Binary64
import BlockSketch.Number.Decimal
import BlockSketch.Number.Literal
import BlockSketch.Number.Shortest
import BlockSketch.Proofs.Code.Brackets
import BlockSketch.Proofs.Code.Comments
import BlockSketch.Proofs.Code.Grammar
import BlockSketch.Proofs.Code.Literals
import BlockSketch.Proofs.Code.Quotation
import BlockSketch.Proofs.Code.Reader
import BlockSketch.Proofs.Code.Spelling
import BlockSketch.Proofs.Code.Words
import BlockSketch.Proofs.Document.Connections
import BlockSketch.Proofs.Document.Heights
import BlockSketch.Proofs.Document.Nesting
import BlockSketch.Proofs.Document.Severing
import BlockSketch.Proofs.Document.Visit
import BlockSketch.Proofs.Files.ReadBack
import BlockSketch.Proofs.Json.Sorted
import BlockSketch.Proofs.Json.Unambiguous
import BlockSketch.Proofs.Names
import BlockSketch.Proofs.Names.LeastFree
import BlockSketch.Proofs.Number.LiteralText
import BlockSketch.Proofs.Number.RoundTrip
import BlockSketch.Proofs.Number.Rounding
import BlockSketch.Proofs.Number.TotalOrder
import BlockSketch.Proofs.Number.Whole
import BlockSketch.Proofs.Serial.History
import BlockSketch.Proofs.Serial.Normalizing
import BlockSketch.Proofs.Serial.Paths
import BlockSketch.Proofs.Service.Turns
import BlockSketch.Proofs.Shape.Acceptance
import BlockSketch.Proofs.Shape.CanonicalText
import BlockSketch.Proofs.Shape.Editing
import BlockSketch.Proofs.Shape.IntegerFields
import BlockSketch.Proofs.Shape.Pattern
import BlockSketch.Proofs.Shape.Sockets
import BlockSketch.Proofs.Sketch.Arithmetic
import BlockSketch.Proofs.Sketch.Branches
import BlockSketch.Proofs.Sketch.Capture
import BlockSketch.Proofs.Sketch.Chains
import BlockSketch.Proofs.Sketch.Contract
import BlockSketch.Proofs.Sketch.Course
import BlockSketch.Proofs.Sketch.Disabled
import BlockSketch.Proofs.Sketch.Dispatch
import BlockSketch.Proofs.Sketch.Exposure
import BlockSketch.Proofs.Sketch.Identifiers
import BlockSketch.Proofs.Sketch.Indentation
import BlockSketch.Proofs.Sketch.IndentedLines
import BlockSketch.Proofs.Sketch.LineHistory
import BlockSketch.Proofs.Sketch.Lines
import BlockSketch.Proofs.Sketch.Logic
import BlockSketch.Proofs.Sketch.LoopTest
import BlockSketch.Proofs.Sketch.MissingOperands
import BlockSketch.Proofs.Sketch.Notes
import BlockSketch.Proofs.Sketch.Pieces
import BlockSketch.Proofs.Sketch.Placeholders
import BlockSketch.Proofs.Sketch.Placement
import BlockSketch.Proofs.Sketch.Pulses
import BlockSketch.Proofs.Sketch.Reading
import BlockSketch.Proofs.Sketch.Resources
import BlockSketch.Proofs.Sketch.Sections
import BlockSketch.Proofs.Sketch.ValueTree
import BlockSketch.Proofs.StableSort
import BlockSketch.Proofs.Text.Canonical
import BlockSketch.Proofs.Text.Numerals
import BlockSketch.Proofs.Workspace.Connecting
import BlockSketch.Proofs.Workspace.Forest
import BlockSketch.Proofs.Workspace.Links
import BlockSketch.Proofs.Workspace.Navigation
import BlockSketch.Proofs.Workspace.RootOrder
import BlockSketch.Proofs.Workspace.Undoing
import BlockSketch.Provenance.Basic
import BlockSketch.Provenance.Sha256
import BlockSketch.Serial.Cache
import BlockSketch.Serial.Device
import BlockSketch.Serial.Discovery
import BlockSketch.Service.Address
import BlockSketch.Service.CodeRequest
import BlockSketch.Service.Config
import BlockSketch.Service.EditorFile
import BlockSketch.Service.Http
import BlockSketch.Service.Job
import BlockSketch.Service.Machine
import BlockSketch.Service.MediaType
import BlockSketch.Shape.Basic
import BlockSketch.Shape.Catalogue
import BlockSketch.Shape.Esp32
import BlockSketch.Shape.Pattern
import BlockSketch.Shape.Validator
import BlockSketch.Sketch.Assembly
import BlockSketch.Sketch.Emission
import BlockSketch.Sketch.Generator
import BlockSketch.Sketch.KeyedLines
import BlockSketch.Sketch.Layout
import BlockSketch.Sketch.Rules
import BlockSketch.Sketch.Script
import BlockSketch.Sketch.Session
import BlockSketch.Sketch.Template
import BlockSketch.SortedMap
import BlockSketch.Text.Blank
import BlockSketch.Text.CharClass
import BlockSketch.Text.Integer
import BlockSketch.Workspace.Basic
import BlockSketch.Workspace.Block

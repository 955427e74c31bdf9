import TypedClient.Client
import TypedClient.Command.Arguments
import TypedClient.Command.Failure
import TypedClient.Command.Run
import TypedClient.ConfigFile
import TypedClient.Declarations
import TypedClient.Document
import TypedClient.Fault
import TypedClient.Files
import TypedClient.Files.Path
import TypedClient.Files.Tree
import TypedClient.Identifier
import TypedClient.Json.Format
import TypedClient.Json.Number
import TypedClient.Json.Text
import TypedClient.Json.Value
import TypedClient.LineDiff.Block
import TypedClient.LineDiff.Hunk
import TypedClient.LineDiff.Meeting
import TypedClient.LineDiff.Script
import TypedClient.LineDiff.Slide
import TypedClient.Literal
import TypedClient.Main
import TypedClient.Method
import TypedClient.Number.Binary64
import TypedClient.Number.Decimal
import TypedClient.Number.Digits
import TypedClient.Operation
import TypedClient.OrderedMap
import TypedClient.Proofs.AccessPaths
import TypedClient.Proofs.Address
import TypedClient.Proofs.Assembly
import TypedClient.Proofs.Body
import TypedClient.Proofs.Choices
import TypedClient.Proofs.Command.Action
import TypedClient.Proofs.Command.Effects
import TypedClient.Proofs.Command.Output
import TypedClient.Proofs.Command.OutputModes
import TypedClient.Proofs.Command.Reading
import TypedClient.Proofs.Command.Runs
import TypedClient.Proofs.Command.Strictness
import TypedClient.Proofs.Declarations
import TypedClient.Proofs.DistinctNames
import TypedClient.Proofs.Document.Reading
import TypedClient.Proofs.Document.Record
import TypedClient.Proofs.Document.Spelling
import TypedClient.Proofs.Files.FileSystem
import TypedClient.Proofs.Files.Path
import TypedClient.Proofs.Files.Tree
import TypedClient.Proofs.FirstFault
import TypedClient.Proofs.Identifier
import TypedClient.Proofs.IndexedTypes
import TypedClient.Proofs.InterfaceText
import TypedClient.Proofs.Json.Grammar
import TypedClient.Proofs.Json.Reading
import TypedClient.Proofs.Number.Decimal
import TypedClient.Proofs.Outcome
import TypedClient.Proofs.Placeholders
import TypedClient.Proofs.RequestContract
import TypedClient.Proofs.Routing
import TypedClient.Proofs.Segments
import TypedClient.Proofs.Substitutions
import TypedClient.Proofs.Template
import TypedClient.Proofs.Text.Quoted
import TypedClient.Proofs.Text.Split
import TypedClient.Proofs.TypeNames
import TypedClient.Proofs.TypeReferences
import TypedClient.Proofs.TypeScript.Parts
import TypedClient.Proofs.TypeScript.TemplateText
import TypedClient.Proofs.TypeScript.TypeText
import TypedClient.Reading
import TypedClient.Reference
import TypedClient.Routing
import TypedClient.RuntimeContract
import TypedClient.Schema
import TypedClient.Template
import TypedClient.Text.Quoted
import TypedClient.Text.Split
import TypedClient.Toml.Document
import TypedClient.Toml.Lexeme
import TypedClient.Toml.Value
import TypedClient.TypeScript.Expr
import TypedClient.TypeScript.Module
import TypedClient.TypeScript.Printer.Expr
import TypedClient.TypeScript.Printer.Module
import TypedClient.TypeScript.Printer.Type
import TypedClient.TypeScript.TypeExpr
import TypedClient.Yaml.Cursor
import TypedClient.Yaml.Format
import TypedClient.Yaml.Node
import TypedClient.Yaml.Scalar
import TypedClient.Yaml.Tag
import TypedClient.Yaml.Token
import TypedClient.Proofs.PlaceholderTurns
import TypedClient.Proofs.ValidNames
import TypedClient.Proofs.ClassMembers
import TypedClient.Proofs.TypeScript.TypeForm
import TypedClient.Proofs.TypeScript.Grouping
import TypedClient.Proofs.TypeScript.FormReader
import TypedClient.Proofs.TypeScript.Unambiguous
import TypedClient.Proofs.PiecePairs
import TypedClient.Proofs.TypeScript.StringValue
import TypedClient.Proofs.Text.Lines
import TypedClient.Proofs.LineDiff.Runs
import TypedClient.Proofs.LineDiff.Hunks
import TypedClient.Proofs.LineDiff.Differences
import TypedClient.Proofs.ContentTypes
import TypedClient.Proofs.Insertions
import TypedClient.Proofs.ObjectLiteral
import TypedClient.Proofs.DottedPath
import TypedClient.Proofs.Headers
import TypedClient.Proofs.TypeScript.DocComment
import TypedClient.Proofs.TypeScript.KeyText
import TypedClient.Proofs.TextPlaces
import TypedClient.Proofs.Text.Replaced

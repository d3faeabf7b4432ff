import Redline.CommandLine.Arguments
import Redline.CommandLine.Configuration
import Redline.CommandLine.Credentials
import Redline.CommandLine.Files
import Redline.CommandLine.Program
import Redline.Directive.Basic
import Redline.Directive.Block
import Redline.Directive.Reader
import Redline.Directive.Summary
import Redline.Directive.Vocabulary
import Redline.Document.Basic
import Redline.Document.Bullets
import Redline.Document.Image
import Redline.Document.Reader
import Redline.Document.Section
import Redline.Edit.Compile
import Redline.Edit.Match
import Redline.Expression.Basic
import Redline.Expression.Delimited
import Redline.Expression.Reader
import Redline.Fault
import Redline.Format
import Redline.Json.Basic
import Redline.Json.Reader
import Redline.Json.Writer
import Redline.Limit
import Redline.Main
import Redline.Markdown.Basic
import Redline.Markdown.Escape
import Redline.Markdown.Image
import Redline.Markdown.Plain
import Redline.Markdown.Table
import Redline.Number.Layout
import Redline.Number.Real
import Redline.Number.Shortest
import Redline.Number.Whole
import Redline.Pattern.Class
import Redline.Pattern.Error
import Redline.Pattern.Matcher
import Redline.Pattern.Node
import Redline.Pattern.Reader
import Redline.Pattern.Search
import Redline.Reference.Cell
import Redline.Reference.Image
import Redline.Reference.Selector
import Redline.Reference.Table
import Redline.Request.Basic
import Redline.Request.Order
import Redline.Request.Shift
import Redline.Request.Styling
import Redline.Request.Writer
import Redline.Routing.Kind
import Redline.Routing.Listing
import Redline.Routing.Queues
import Redline.Service.Failure
import Redline.Service.Response
import Redline.Service.Retry
import Redline.Service.Script
import Redline.Session.Basic
import Redline.Session.Bullets
import Redline.Session.Commands
import Redline.Session.Images
import Redline.Session.Insert
import Redline.Session.Schedule
import Redline.Session.Substitute
import Redline.Session.Tables
import Redline.Style.Color
import Redline.Style.Link
import Redline.Style.Paragraph
import Redline.Style.Text
import Redline.Table.Cell
import Redline.Table.Change
import Redline.Table.Error
import Redline.Template
import Redline.Text.Basic
import Redline.Text.Blank
import Redline.Text.Case
import Redline.Text.Digit
import Redline.Text.Printable
import Redline.Text.Quoted
import Redline.Text.Ranges
import Redline.Text.Units
import Redline.Text.Word
import Redline.Proofs.Run
import Redline.Proofs.Splice
import Redline.Proofs.Body
import Redline.Proofs.Rounds
import Redline.Proofs.Substitution
import Redline.Proofs.MatchOrder
import Redline.Proofs.Conversion
import Redline.Proofs.Marks
import Redline.Proofs.PlainReplacement
import Redline.Proofs.MarkdownEscape
import Redline.Proofs.NativeReplacement
import Redline.Proofs.Falling
import Redline.Proofs.Log
import Redline.Proofs.Batches
import Redline.Proofs.BatchOrder
import Redline.Proofs.LineDeletion
import Redline.Proofs.MarkdownForm
import Redline.Proofs.CapturedText
import Redline.Proofs.CellWrite
import Redline.Proofs.CellBatch
import Redline.Proofs.PageService
import Redline.Proofs.LineInsertion
import Redline.Proofs.Refusal
import Redline.Proofs.Verdict
import Redline.Proofs.Queues
import Redline.Proofs.Record
import Redline.Proofs.ImageQueue
import Redline.Proofs.WellFormed
import Redline.Proofs.Numeral
import Redline.Proofs.TableForms
import Redline.Proofs.Quoting
import Redline.Proofs.Routing
import Redline.Proofs.Transliteration
import Redline.Proofs.BulletRuns
import Redline.Proofs.BulletRounds
import Redline.Proofs.Reading
import Redline.Proofs.FlaggedPattern
import Redline.Proofs.CellBlocks
import Redline.Proofs.Deletions
import Redline.Proofs.CellSelection
import Redline.Proofs.IndexMap
import Redline.Proofs.BulletCover
import Redline.Proofs.Sections
import Redline.Proofs.CellMatches
import Redline.Proofs.BulletReach
import Redline.Proofs.LiteralTemplate
import Redline.Proofs.ImagePattern
import Redline.Proofs.Fragments
import Redline.Proofs.InlineStyles
import Redline.Proofs.HiddenText
import Redline.Proofs.LinkTargets
import Redline.Proofs.PipeTable
import Redline.Proofs.CreatedTable
import Redline.Proofs.BlockPlaces
import Redline.Proofs.MergedDirectives
import Redline.Proofs.StyleMasks
import Redline.Proofs.FlagBlocks
import Redline.Proofs.BulletBudget
import Redline.Proofs.ImageSyntax
import Redline.Proofs.Hexadecimal
import Redline.Proofs.HexColors
import Redline.Proofs.ColumnNames
import Redline.Proofs.DelimitedFields
import Redline.Proofs.MatchingBraces
import Redline.Proofs.Outline
import Redline.Proofs.DocumentOrder

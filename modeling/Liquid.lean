import Liquid.Bindings
import Liquid.Cache
import Liquid.Calendar.Basic
import Liquid.Calendar.Format
import Liquid.Calendar.Iso
import Liquid.Calendar.Pattern
import Liquid.Diagnostic.Code
import Liquid.Diagnostic.Error
import Liquid.Diagnostic.Paint
import Liquid.Diagnostic.Snippet
import Liquid.Engine
import Liquid.Environment
import Liquid.Expr.Basic
import Liquid.Expr.Eval
import Liquid.Expr.Parser
import Liquid.Fault
import Liquid.Filter.Basic
import Liquid.Filter.Date
import Liquid.Filter.List
import Liquid.Filter.Number
import Liquid.Filter.Table
import Liquid.Filter.Text
import Liquid.Loader.Basic
import Liquid.Loader.Directory
import Liquid.Loader.Pathname
import Liquid.Mistake
import Liquid.Node.Basic
import Liquid.Node.Parser
import Liquid.Number.Basic
import Liquid.Number.Binary
import Liquid.Number.Decimal
import Liquid.Number.Reader
import Liquid.Path
import Liquid.Place
import Liquid.Proofs.Caching.Recency
import Liquid.Proofs.Caching.Transparent
import Liquid.Proofs.Comparing.Equality
import Liquid.Proofs.Comparing.Ordering
import Liquid.Proofs.Comparing.Shortest
import Liquid.Proofs.Filtering.Distinct
import Liquid.Proofs.Filtering.Escaping
import Liquid.Proofs.Filtering.Evenhanded
import Liquid.Proofs.Filtering.Faults
import Liquid.Proofs.Filtering.JsonText
import Liquid.Proofs.Filtering.Percent
import Liquid.Proofs.Filtering.Rounding
import Liquid.Proofs.Filtering.Slicing
import Liquid.Proofs.Filtering.Sorting
import Liquid.Proofs.Filtering.Stripping
import Liquid.Proofs.Filtering.Total
import Liquid.Proofs.Loading.Directories
import Liquid.Proofs.Reading.Blocks
import Liquid.Proofs.Reading.Comments
import Liquid.Proofs.Reading.Cutting
import Liquid.Proofs.Reading.Delimited
import Liquid.Proofs.Reading.Digits
import Liquid.Proofs.Reading.Echo
import Liquid.Proofs.Reading.Layout
import Liquid.Proofs.Reading.Lexemes
import Liquid.Proofs.Reading.Markup
import Liquid.Proofs.Reading.Offsets
import Liquid.Proofs.Reading.Origins
import Liquid.Proofs.Reading.Paths
import Liquid.Proofs.Reading.Phrases
import Liquid.Proofs.Reading.Placed
import Liquid.Proofs.Reading.ReadBack
import Liquid.Proofs.Reading.Replay
import Liquid.Proofs.Reading.Respaced
import Liquid.Proofs.Reading.Returns
import Liquid.Proofs.Reading.Run
import Liquid.Proofs.Reading.Signals
import Liquid.Proofs.Reading.Snippets
import Liquid.Proofs.Reading.Spelled
import Liquid.Proofs.Reading.Spelling
import Liquid.Proofs.Reading.Tags
import Liquid.Proofs.Reading.Taken
import Liquid.Proofs.Reading.Trimming
import Liquid.Proofs.Reading.Verbatim
import Liquid.Proofs.Reading.Within
import Liquid.Proofs.Registering.Hosts
import Liquid.Proofs.Registering.Tables
import Liquid.Proofs.Rendering.Absent
import Liquid.Proofs.Rendering.Alike
import Liquid.Proofs.Rendering.Chain
import Liquid.Proofs.Rendering.Choices
import Liquid.Proofs.Rendering.Depth
import Liquid.Proofs.Rendering.Emitted
import Liquid.Proofs.Rendering.Entrances
import Liquid.Proofs.Rendering.Frames
import Liquid.Proofs.Rendering.Hosted
import Liquid.Proofs.Rendering.Inlining
import Liquid.Proofs.Rendering.Isolation
import Liquid.Proofs.Rendering.Kept
import Liquid.Proofs.Rendering.Lines
import Liquid.Proofs.Rendering.Looks
import Liquid.Proofs.Rendering.Machine
import Liquid.Proofs.Rendering.Missing
import Liquid.Proofs.Rendering.Nesting
import Liquid.Proofs.Rendering.Outcome
import Liquid.Proofs.Rendering.Pages
import Liquid.Proofs.Rendering.Reasons
import Liquid.Proofs.Rendering.Reported
import Liquid.Proofs.Rendering.Signals
import Liquid.Proofs.Rendering.Strict
import Liquid.Proofs.Rendering.Termination
import Liquid.Proofs.Rendering.Trail
import Liquid.Proofs.Rendering.Unplaced
import Liquid.Proofs.Rendering.Unwinding
import Liquid.Proofs.Rendering.Visits
import Liquid.Registry
import Liquid.Render.Basic
import Liquid.Render.Node
import Liquid.Scope
import Liquid.Tag
import Liquid.Template
import Liquid.Text.Blank
import Liquid.Text.Case
import Liquid.Text.CaseTable
import Liquid.Text.Html
import Liquid.Text.Lines
import Liquid.Text.Percent
import Liquid.Text.Printable
import Liquid.Text.Quoted
import Liquid.Text.Search
import Liquid.Text.Similar
import Liquid.Text.Spans
import Liquid.Text.Utf8
import Liquid.Text.Word
import Liquid.Token.Basic
import Liquid.Token.Lexer
import Liquid.Value.Basic
import Liquid.Value.Order
import Liquid.Value.Segment
import Liquid.Value.Text
import Liquid.View

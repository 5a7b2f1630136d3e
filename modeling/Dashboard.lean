import Dashboard.CommandLine
import Dashboard.Main
import Dashboard.SampleStore
import Dashboard.Settings
import Dashboard.Settings.File
import Dashboard.Document.Toml.Reader
import Dashboard.Document.Toml.Writer
import Dashboard.Text.Scanner
import Dashboard.NamedScalars
import Dashboard.Records
import Dashboard.TimeWindow
import Dashboard.Feed.Sizing
import Dashboard.Feed
import Dashboard.Scrollback
import Dashboard.Instant
import Dashboard.Instant.Calendar
import Dashboard.Instant.Timestamp
import Dashboard.LiveFormula
import Dashboard.ParseCache
import Dashboard.Display
import Dashboard.Formula.Environment
import Dashboard.Formula.References
import Dashboard.Formula.Evaluation
import Dashboard.Bindings
import Dashboard.Log
import Dashboard.Reading.Record
import Dashboard.Formula.Outline
import Dashboard.Document
import Dashboard.Document.Json.Reader
import Dashboard.Document.Json.Writer
import Dashboard.Formula.Grammar
import Dashboard.Formula.Tree
import Dashboard.Formula.Builtin
import Dashboard.Formula.Scan
import Dashboard.Failure
import Dashboard.Path
import Dashboard.FileTree
import Dashboard.Table
import Dashboard.Value
import Dashboard.Reading
import Dashboard.Double
import Dashboard.Text.Blank
import Dashboard.Text.Letter
import Dashboard.Text.Quoted
import Dashboard.Text.Position
import Dashboard.Decimal.Literal
import Dashboard.Decimal.Shortest
import Dashboard.Decimal.Layout
import Dashboard.Proofs.Feed.Run
import Dashboard.Proofs.Feed.Snapshot
import Dashboard.Proofs.Formula.Inversion
import Dashboard.Proofs.Formula.WellFormed
import Dashboard.Proofs.Formula.Assignment
import Dashboard.Proofs.Formula.Subscription
import Dashboard.Proofs.Formula.Rendering
import Dashboard.Proofs.Formula.Spelling
import Dashboard.Proofs.Formula.RoundTrip
import Dashboard.Proofs.Formula.Height
import Dashboard.Proofs.Formula.Tower
import Dashboard.Proofs.Cache
import Dashboard.Proofs.Display.Delivery
import Dashboard.Proofs.Display.Run
import Dashboard.Proofs.Display.Independence
import Dashboard.Proofs.Formula.Stateless
import Dashboard.Proofs.Display.Latest
import Dashboard.Proofs.Feed.Confluence
import Dashboard.Proofs.Feed.Compaction
import Dashboard.Proofs.Feed.Watermark
import Dashboard.Proofs.Formula.Derivation
import Dashboard.Proofs.Formula.Descent.Bounded
import Dashboard.Proofs.Formula.Soundness
import Dashboard.Proofs.Formula.Pieces
import Dashboard.Proofs.Formula.Reading
import Dashboard.Proofs.Remembering
import Dashboard.Proofs.Formula.History
import Dashboard.Proofs.Formula.Summary
import Dashboard.Proofs.Display.Index
import Dashboard.Proofs.Display.Names
import Dashboard.Proofs.Polling
import Dashboard.Proofs.Feed.Renumbering
import Dashboard.Proofs.Feed.Renewal
import Dashboard.Proofs.Cache.History
import Dashboard.Proofs.Formula.Shadow
import Dashboard.Proofs.Formula.Lockstep
import Dashboard.Proofs.Formula.Composition
import Dashboard.Proofs.Formula.Printing
import Dashboard.Proofs.Formula.Concatenation
import Dashboard.Proofs.Formula.Mark
import Dashboard.Proofs.Display.Mark
import Dashboard.Proofs.Settings.Partial
import Dashboard.Proofs.Document.Digits
import Dashboard.Proofs.Document.Json
import Dashboard.Proofs.Document.Scanning
import Dashboard.Proofs.Document.Toml.Line
import Dashboard.Proofs.Document.Toml.Sections
import Dashboard.Proofs.Settings.RoundTrip
import Dashboard.Proofs.Formula.Nesting
import Dashboard.Proofs.Display.Affected
import Dashboard.Proofs.Display.Batching
import Dashboard.Proofs.Display.Refusal
import Dashboard.Proofs.Feed.Accounting
import Dashboard.Proofs.Feed.Redelivery
import Dashboard.Proofs.SampleStore
import Dashboard.Proofs.TimeWindow
import Dashboard.Proofs.Formula.Failing
import Dashboard.Proofs.Formula.Untaken
import Dashboard.Proofs.Formula.Mentions
import Dashboard.Proofs.Formula.Respelling
import Dashboard.Proofs.Formula.Lookahead
import Dashboard.Proofs.Formula.Scanning
import Dashboard.Proofs.Formula.Tiling
import Dashboard.Proofs.Formula.Spacing
import Dashboard.Proofs.Formula.Located
import Dashboard.Proofs.Formula.Places
import Dashboard.Proofs.Double.Packing
import Dashboard.Proofs.Double.Rounding
import Dashboard.Proofs.Double.Uniqueness
import Dashboard.Proofs.Double.Scientific
import Dashboard.Proofs.Double.Shortest
import Dashboard.Proofs.Numeral.Literal
import Dashboard.Proofs.Numeral.Coercion
import Dashboard.Proofs.CommandLine
import Dashboard.Proofs.Document.Number
import Dashboard.Proofs.Document.Compact
import Dashboard.Proofs.Instant.Calendar
import Dashboard.Proofs.Instant.Stamp
import Dashboard.Proofs.Instant.Rendering
import Dashboard.Proofs.Records

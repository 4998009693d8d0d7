import Crosswalk.Calendar.Date
import Crosswalk.Calendar.Instant
import Crosswalk.Calendar.Pattern
import Crosswalk.Catalog.Loader
import Crosswalk.Catalog.Registry
import Crosswalk.Command.Batch
import Crosswalk.Command.Invocation
import Crosswalk.Command.Run
import Crosswalk.Command.Settings
import Crosswalk.Command.Trouble
import Crosswalk.Delivery.Cipher
import Crosswalk.Delivery.Partner
import Crosswalk.Delivery.Plan
import Crosswalk.Delivery.Translator
import Crosswalk.Engine.Field
import Crosswalk.Engine.Reply
import Crosswalk.Engine.Request
import Crosswalk.Engine.RootPrefix
import Crosswalk.Json.Basic
import Crosswalk.Json.Reader
import Crosswalk.Json.Writer
import Crosswalk.Main
import Crosswalk.Markup.Element
import Crosswalk.Markup.Escape
import Crosswalk.Markup.Name
import Crosswalk.Markup.Reader
import Crosswalk.Markup.Tag
import Crosswalk.Markup.Token
import Crosswalk.Markup.Writer
import Crosswalk.Message.Basic
import Crosswalk.Message.Format
import Crosswalk.Number.Double
import Crosswalk.Number.Layout
import Crosswalk.Number.Shortest
import Crosswalk.Path.Assign
import Crosswalk.Path.Field
import Crosswalk.Path.Walk
import Crosswalk.Proofs.Calendar.Date
import Crosswalk.Proofs.Calendar.Instant
import Crosswalk.Proofs.Calendar.Order
import Crosswalk.Proofs.Calendar.Pattern
import Crosswalk.Proofs.Catalog.Confined
import Crosswalk.Proofs.Catalog.Directory
import Crosswalk.Proofs.Catalog.Loader
import Crosswalk.Proofs.Catalog.Lookups
import Crosswalk.Proofs.Catalog.Registry
import Crosswalk.Proofs.Catalog.Run
import Crosswalk.Proofs.Command.Batch
import Crosswalk.Proofs.Command.Crew
import Crosswalk.Proofs.Command.Report
import Crosswalk.Proofs.Delivery.Guarded
import Crosswalk.Proofs.Engine.Envelope
import Crosswalk.Proofs.Engine.Grown
import Crosswalk.Proofs.Engine.JsonReply
import Crosswalk.Proofs.Engine.Lookup
import Crosswalk.Proofs.Engine.MoveDeclaration
import Crosswalk.Proofs.Engine.ReplyMarkup
import Crosswalk.Proofs.Engine.ReplyNotation
import Crosswalk.Proofs.Engine.ReplyObject
import Crosswalk.Proofs.Engine.Request
import Crosswalk.Proofs.Engine.RootPrefix
import Crosswalk.Proofs.Engine.RootTag
import Crosswalk.Proofs.Engine.Shape
import Crosswalk.Proofs.Engine.Skipped
import Crosswalk.Proofs.Engine.SourceNotation
import Crosswalk.Proofs.Engine.Target
import Crosswalk.Proofs.Engine.ThereAndBack
import Crosswalk.Proofs.Json.Members
import Crosswalk.Proofs.Json.RoundTrip
import Crosswalk.Proofs.Markup.Accepted
import Crosswalk.Proofs.Markup.BareTag
import Crosswalk.Proofs.Markup.ByteOrderMark
import Crosswalk.Proofs.Markup.Complete
import Crosswalk.Proofs.Markup.Escape
import Crosswalk.Proofs.Markup.Inside
import Crosswalk.Proofs.Markup.Normal
import Crosswalk.Proofs.Markup.Piece
import Crosswalk.Proofs.Markup.Reach
import Crosswalk.Proofs.Markup.Reread
import Crosswalk.Proofs.Markup.RootText
import Crosswalk.Proofs.Markup.RoundTrip
import Crosswalk.Proofs.Markup.Slot
import Crosswalk.Proofs.Markup.Source
import Crosswalk.Proofs.Markup.Subtree
import Crosswalk.Proofs.Markup.Tag
import Crosswalk.Proofs.Markup.TagRow
import Crosswalk.Proofs.Markup.TagTree
import Crosswalk.Proofs.Markup.Uniform
import Crosswalk.Proofs.Message.Envelope
import Crosswalk.Proofs.Message.Standalone
import Crosswalk.Proofs.Path.Field
import Crosswalk.Proofs.Path.Frame
import Crosswalk.Proofs.Path.LastWrite
import Crosswalk.Proofs.Path.ReadBack
import Crosswalk.Proofs.Path.Walk
import Crosswalk.Proofs.Route.RoundTrip
import Crosswalk.Proofs.Storage.Change
import Crosswalk.Proofs.Storage.Entry
import Crosswalk.Proofs.Storage.WellFormed
import Crosswalk.Proofs.Text.Digits
import Crosswalk.Proofs.Text.Numeral
import Crosswalk.Proofs.Text.Order
import Crosswalk.Proofs.Text.Position
import Crosswalk.Proofs.Text.Search
import Crosswalk.Proofs.Text.Steps
import Crosswalk.Proofs.Text.Trim
import Crosswalk.Proofs.Transform.Call
import Crosswalk.Proofs.Transform.DaysAgo
import Crosswalk.Proofs.Transform.Literal
import Crosswalk.Proofs.Transform.Nesting
import Crosswalk.Proofs.Transform.NormalPattern
import Crosswalk.Proofs.Transform.NumberCall
import Crosswalk.Proofs.Transform.Pieces
import Crosswalk.Proofs.Transform.Spacing
import Crosswalk.Proofs.Transform.Stamp
import Crosswalk.Proofs.Transform.StampOrder
import Crosswalk.Proofs.Transform.Substring
import Crosswalk.Proofs.Transform.Written
import Crosswalk.Proofs.Yaml.Character
import Crosswalk.Proofs.Yaml.Denoted
import Crosswalk.Proofs.Yaml.Literal
import Crosswalk.Proofs.Yaml.PlainText
import Crosswalk.Proofs.Yaml.Quoted
import Crosswalk.Proofs.Yaml.Record
import Crosswalk.Proofs.Yaml.Scanner
import Crosswalk.Proofs.Yaml.Taken
import Crosswalk.Proofs.Yaml.WholeText
import Crosswalk.Proofs.Yaml.Written
import Crosswalk.Route.Basic
import Crosswalk.Route.Reader
import Crosswalk.Route.Writer
import Crosswalk.Storage.Disk
import Crosswalk.Storage.FileName
import Crosswalk.Text.Basic
import Crosswalk.Text.Letter
import Crosswalk.Text.Position
import Crosswalk.Text.Quoted
import Crosswalk.Transform.Argument
import Crosswalk.Transform.Evaluate
import Crosswalk.Transform.Expression
import Crosswalk.Yaml.BlockScalar
import Crosswalk.Yaml.Decode
import Crosswalk.Yaml.Document
import Crosswalk.Yaml.Fault
import Crosswalk.Yaml.Gap
import Crosswalk.Yaml.Mark
import Crosswalk.Yaml.Node
import Crosswalk.Yaml.PlainScalar
import Crosswalk.Yaml.QuotedScalar
import Crosswalk.Yaml.Scalar
import Crosswalk.Yaml.Tag
import Crosswalk.Yaml.Token
import Crosswalk.Yaml.Writer

import MotifQuery.Aggregation.Basic
import MotifQuery.Aggregation.Directive
import MotifQuery.Checksum.Crc32
import MotifQuery.Checksum.Sha256
import MotifQuery.CommandLine.Command
import MotifQuery.CommandLine.Flag
import MotifQuery.CommandLine.Invocation
import MotifQuery.CommandLine.Output
import MotifQuery.CommandLine.Reach
import MotifQuery.CommandLine.Run
import MotifQuery.CommandLine.Table
import MotifQuery.Config.Basic
import MotifQuery.Config.File
import MotifQuery.Config.Limits
import MotifQuery.Config.Source
import MotifQuery.Csv.EdgeList
import MotifQuery.Csv.Record
import MotifQuery.Cypher.Query
import MotifQuery.Cypher.Syntax
import MotifQuery.Cypher.Token
import MotifQuery.Dict
import MotifQuery.Disk.Basic
import MotifQuery.Disk.GraphFile
import MotifQuery.Disk.Name
import MotifQuery.Failure
import MotifQuery.Graph.Basic
import MotifQuery.Graph.Schema
import MotifQuery.GraphML.Reader
import MotifQuery.GraphML.Writer
import MotifQuery.Gzip.Bits
import MotifQuery.Gzip.Huffman
import MotifQuery.Gzip.Inflate
import MotifQuery.Gzip.Member
import MotifQuery.Host.ObjectHost
import MotifQuery.Host.PropertyTables
import MotifQuery.Host.Provider
import MotifQuery.Host.Registry
import MotifQuery.Host.Router
import MotifQuery.Host.Uploads
import MotifQuery.Host.Uri
import MotifQuery.Http.Endpoint
import MotifQuery.Http.Handler
import MotifQuery.Http.Request
import MotifQuery.Http.Response
import MotifQuery.Http.Wire
import MotifQuery.Json.Basic
import MotifQuery.Json.Document
import MotifQuery.Json.Printer
import MotifQuery.Main
import MotifQuery.Motif.Basic
import MotifQuery.Motif.Parser
import MotifQuery.Motif.Search
import MotifQuery.Number.Decimal
import MotifQuery.Number.Integer
import MotifQuery.Number.Shortest
import MotifQuery.Proofs.Aggregation.AttributeKeys
import MotifQuery.Proofs.Aggregation.Counts
import MotifQuery.Proofs.Aggregation.Directive
import MotifQuery.Proofs.Aggregation.Grouping
import MotifQuery.Proofs.Config.Accepted
import MotifQuery.Proofs.Cypher.Compile
import MotifQuery.Proofs.Cypher.Grammar
import MotifQuery.Proofs.Cypher.Layout
import MotifQuery.Proofs.Cypher.Lossless
import MotifQuery.Proofs.Cypher.Matched
import MotifQuery.Proofs.Cypher.Offsets
import MotifQuery.Proofs.Cypher.Pieces
import MotifQuery.Proofs.Cypher.RoundTrip
import MotifQuery.Proofs.Cypher.Rows
import MotifQuery.Proofs.Cypher.WellFormed
import MotifQuery.Proofs.Dict
import MotifQuery.Proofs.Disk.Directory
import MotifQuery.Proofs.Disk.Files
import MotifQuery.Proofs.Disk.GraphFile
import MotifQuery.Proofs.Disk.Origin
import MotifQuery.Proofs.Except
import MotifQuery.Proofs.Graph.Calls
import MotifQuery.Proofs.Graph.Coherent
import MotifQuery.Proofs.Graph.Columns
import MotifQuery.Proofs.Graph.Complete
import MotifQuery.Proofs.Graph.Inference
import MotifQuery.Proofs.Graph.Plain
import MotifQuery.Proofs.Graph.Rebuild
import MotifQuery.Proofs.Graph.TableLayout
import MotifQuery.Proofs.Graph.TableRows
import MotifQuery.Proofs.Graph.TextValues
import MotifQuery.Proofs.GraphML.Elements
import MotifQuery.Proofs.GraphML.Keys
import MotifQuery.Proofs.GraphML.Respelled
import MotifQuery.Proofs.GraphML.RoundTrip
import MotifQuery.Proofs.GraphML.Values
import MotifQuery.Proofs.Host.Atomicity
import MotifQuery.Proofs.Host.BrokenObject
import MotifQuery.Proofs.Host.Cache
import MotifQuery.Proofs.Host.Dispatch
import MotifQuery.Proofs.Host.Entries
import MotifQuery.Proofs.Host.Expiry
import MotifQuery.Proofs.Host.Frame
import MotifQuery.Proofs.Host.Holding
import MotifQuery.Proofs.Host.Housed
import MotifQuery.Proofs.Host.Layers
import MotifQuery.Proofs.Host.Provider
import MotifQuery.Proofs.Host.Registry
import MotifQuery.Proofs.Host.Restart
import MotifQuery.Proofs.Host.Shared
import MotifQuery.Proofs.Host.Table
import MotifQuery.Proofs.Http.Routing
import MotifQuery.Proofs.Json.Grammar
import MotifQuery.Proofs.Json.Meaning
import MotifQuery.Proofs.Json.Printer
import MotifQuery.Proofs.Json.Value
import MotifQuery.Proofs.Motif.Canonical
import MotifQuery.Proofs.Motif.Comparison
import MotifQuery.Proofs.Motif.Complete
import MotifQuery.Proofs.Motif.Connected
import MotifQuery.Proofs.Motif.Grammar
import MotifQuery.Proofs.Motif.Matches
import MotifQuery.Proofs.Motif.Placement
import MotifQuery.Proofs.Motif.Quoted
import MotifQuery.Proofs.Motif.RoundTrip
import MotifQuery.Proofs.Motif.SearchOrder
import MotifQuery.Proofs.Motif.Slots
import MotifQuery.Proofs.Motif.Stacked
import MotifQuery.Proofs.Motif.Statements
import MotifQuery.Proofs.Number.DecimalText
import MotifQuery.Proofs.Number.Double
import MotifQuery.Proofs.Number.Integer
import MotifQuery.Proofs.Number.Nearest
import MotifQuery.Proofs.Number.Reading
import MotifQuery.Proofs.Number.Rounding
import MotifQuery.Proofs.Query.Compiled
import MotifQuery.Proofs.Repeats
import MotifQuery.Proofs.Service.Agreement
import MotifQuery.Proofs.Service.Calls
import MotifQuery.Proofs.Service.CleanUp
import MotifQuery.Proofs.Service.Configured
import MotifQuery.Proofs.Service.Conservation
import MotifQuery.Proofs.Service.Faults
import MotifQuery.Proofs.Service.Lifecycle
import MotifQuery.Proofs.Service.Opening
import MotifQuery.Proofs.Service.Plan
import MotifQuery.Proofs.Service.Rebuilt
import MotifQuery.Proofs.Service.Refusals
import MotifQuery.Proofs.Service.Restart
import MotifQuery.Proofs.Service.Settled
import MotifQuery.Proofs.Text.Split
import MotifQuery.Proofs.Text.Trim
import MotifQuery.Proofs.Text.Utf8
import MotifQuery.Proofs.Time.Calendar
import MotifQuery.Proofs.Worker.Channel
import MotifQuery.Proofs.Worker.Report
import MotifQuery.Proofs.Xml.Escape
import MotifQuery.Proofs.Xml.Respelled
import MotifQuery.Proofs.Xml.RoundTrip
import MotifQuery.Proofs.Xml.Steps
import MotifQuery.Proofs.Xml.Tags
import MotifQuery.Query.Compiled
import MotifQuery.Service.Answer
import MotifQuery.Service.Basic
import MotifQuery.Service.Job
import MotifQuery.Service.Query
import MotifQuery.Service.Upload
import MotifQuery.Text.Blank
import MotifQuery.Text.Split
import MotifQuery.Text.Utf8
import MotifQuery.Text.Width
import MotifQuery.Time.Calendar
import MotifQuery.Worker.Outcome
import MotifQuery.Xml.Event
import MotifQuery.Xml.Reader
import MotifQuery.Xml.Writer
import MotifQuery.Yaml.Cursor
import MotifQuery.Yaml.Node
import MotifQuery.Yaml.Scalar
import MotifQuery.Yaml.Token
import MotifQuery.Yaml.Value
import MotifQuery.Yaml.Writer

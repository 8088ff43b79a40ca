import CannedApi.CommandLine
import CannedApi.Config.Decode
import CannedApi.Config.Load
import CannedApi.Config.Settings
import CannedApi.Config.SocketAddress
import CannedApi.Config.Toml.Reader
import CannedApi.Config.Toml.Scalar
import CannedApi.Config.Toml.Value
import CannedApi.Config.Validation
import CannedApi.Disk.Change
import CannedApi.Disk.Happening
import CannedApi.Disk.Path
import CannedApi.Disk.Resolve
import CannedApi.Disk.Tree
import CannedApi.Entries
import CannedApi.Json.Reader
import CannedApi.Json.Value
import CannedApi.Json.Writer
import CannedApi.Main
import CannedApi.Mock.Basic
import CannedApi.Mock.Cache
import CannedApi.Mock.Load
import CannedApi.Mock.Overlap
import CannedApi.Number.Binary64
import CannedApi.Number.Power
import CannedApi.Number.Shortest
import CannedApi.Program
import CannedApi.Proofs.Cache.Answers
import CannedApi.Proofs.Cache.Freshness
import CannedApi.Proofs.Cache.Snapshot
import CannedApi.Proofs.Cache.Steps
import CannedApi.Proofs.Config.Overriding
import CannedApi.Proofs.Disk.Changes
import CannedApi.Proofs.Disk.Descent
import CannedApi.Proofs.Disk.Links
import CannedApi.Proofs.Disk.Listing
import CannedApi.Proofs.Disk.Passing
import CannedApi.Proofs.Disk.PathOrder
import CannedApi.Proofs.Disk.Steps
import CannedApi.Proofs.Disk.Twins
import CannedApi.Proofs.Except
import CannedApi.Proofs.Json.Documents
import CannedApi.Proofs.Json.Places
import CannedApi.Proofs.Json.Texts
import CannedApi.Proofs.Mock.Delays
import CannedApi.Proofs.Mock.Splitting
import CannedApi.Proofs.Number.Rounding
import CannedApi.Proofs.Random.Draws
import CannedApi.Proofs.Random.Shapes
import CannedApi.Proofs.Request.Gathering
import CannedApi.Proofs.Request.Usable
import CannedApi.Proofs.Route.Addressing
import CannedApi.Proofs.Route.Binding
import CannedApi.Proofs.Route.Building
import CannedApi.Proofs.Route.Capture
import CannedApi.Proofs.Route.Covering
import CannedApi.Proofs.Route.Cycles
import CannedApi.Proofs.Route.Expanding
import CannedApi.Proofs.Route.Grammar
import CannedApi.Proofs.Route.Immaterial
import CannedApi.Proofs.Route.Labels
import CannedApi.Proofs.Route.Ranking
import CannedApi.Proofs.Route.Segments
import CannedApi.Proofs.Route.Walk
import CannedApi.Proofs.Server.Bodies
import CannedApi.Proofs.Server.CommonPath
import CannedApi.Proofs.Server.Counting
import CannedApi.Proofs.Server.Forwarding
import CannedApi.Proofs.Server.Hosts
import CannedApi.Proofs.Server.Isolation
import CannedApi.Proofs.Server.Listed
import CannedApi.Proofs.Server.Notices
import CannedApi.Proofs.Server.Parameters
import CannedApi.Proofs.Server.Refusals
import CannedApi.Proofs.Server.Reloads
import CannedApi.Proofs.Server.Restart
import CannedApi.Proofs.Server.Startup
import CannedApi.Proofs.Server.Steady
import CannedApi.Proofs.Server.Stopping
import CannedApi.Proofs.Template.Filling
import CannedApi.Proofs.Template.Reading
import CannedApi.Proofs.Template.References
import CannedApi.Proofs.Template.Refilling
import CannedApi.Proofs.Template.Scanning
import CannedApi.Proofs.Template.Tree
import CannedApi.Proofs.Text.Leftmost
import CannedApi.Proofs.Text.Numerals
import CannedApi.Proofs.Text.Spelling
import CannedApi.Proofs.Text.Utf8
import CannedApi.Proofs.Time.Calendar
import CannedApi.Proofs.Time.Fields
import CannedApi.Proofs.Time.Sorting
import CannedApi.Random.Generator
import CannedApi.Random.Seed
import CannedApi.Random.Source
import CannedApi.Random.Words
import CannedApi.Request.Basic
import CannedApi.Request.Body
import CannedApi.Request.Query
import CannedApi.Request.Target
import CannedApi.Route.Index
import CannedApi.Route.Match
import CannedApi.Route.Method
import CannedApi.Route.Naming
import CannedApi.Route.Pattern
import CannedApi.Route.Scan
import CannedApi.Server.Dispatcher
import CannedApi.Server.Following
import CannedApi.Server.Host
import CannedApi.Server.Metrics
import CannedApi.Server.Overlap
import CannedApi.Server.Response
import CannedApi.Server.Run
import CannedApi.Server.Session
import CannedApi.Server.Shutdown
import CannedApi.Server.Watch
import CannedApi.Template.Context
import CannedApi.Template.Copying
import CannedApi.Template.Expression
import CannedApi.Template.Render
import CannedApi.Template.Scanner
import CannedApi.Template.Slot
import CannedApi.Text.Blank
import CannedApi.Text.CharRange
import CannedApi.Text.Digits
import CannedApi.Text.Extender
import CannedApi.Text.Percent
import CannedApi.Text.Quoted
import CannedApi.Text.Split
import CannedApi.Text.Unprintable
import CannedApi.Text.Utf8
import CannedApi.Time.Calendar
import CannedApi.Time.Instant

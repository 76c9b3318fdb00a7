import RemoteSession.Command.Error
import RemoteSession.Command.Grammar
import RemoteSession.Command.Invocation
import RemoteSession.Command.Program
import RemoteSession.Composer
import RemoteSession.Config.Basic
import RemoteSession.Endpoint
import RemoteSession.Event.Basic
import RemoteSession.Event.Body
import RemoteSession.Gate
import RemoteSession.Http.Exchange
import RemoteSession.Http.Status
import RemoteSession.Json.Document
import RemoteSession.Json.Number
import RemoteSession.Json.Record
import RemoteSession.Json.Shortest
import RemoteSession.Json.Token
import RemoteSession.Json.Value
import RemoteSession.Keyed
import RemoteSession.Logging.File
import RemoteSession.Logging.Filter
import RemoteSession.Logging.Level
import RemoteSession.Main
import RemoteSession.Message
import RemoteSession.Proofs.Session.Actions
import RemoteSession.Proofs.Session.Watermarks
import RemoteSession.Proofs.Storage.Cursors
import RemoteSession.Proofs.Storage.Durability
import RemoteSession.Proofs.Storage.Replacing
import RemoteSession.Proofs.Storage.Restarts
import RemoteSession.Proofs.Storage.Trees
import RemoteSession.Proofs.Storage.Writable
import RemoteSession.Proofs.Stream.Advances
import RemoteSession.Proofs.Stream.Attendance
import RemoteSession.Proofs.Stream.Clocked
import RemoteSession.Proofs.Stream.Delivery
import RemoteSession.Proofs.Stream.Exchange
import RemoteSession.Proofs.Stream.Failures
import RemoteSession.Proofs.Stream.Lifecycle
import RemoteSession.Proofs.Stream.Moves
import RemoteSession.Proofs.Stream.Replays
import RemoteSession.Proofs.Stream.Reports
import RemoteSession.Proofs.Stream.Server
import RemoteSession.Proofs.Stream.Silence
import RemoteSession.Proofs.Stream.Soundness
import RemoteSession.Proofs.Stream.Timers
import RemoteSession.Proofs.Text.Utf8
import RemoteSession.Proofs.Timeline.Caps
import RemoteSession.Proofs.Timeline.Noise
import RemoteSession.Proofs.Toml.Integers
import RemoteSession.Proofs.Toml.Keys
import RemoteSession.Proofs.Toml.Lines
import RemoteSession.Service.Client
import RemoteSession.Service.Error
import RemoteSession.Session.Directory
import RemoteSession.Session.Rehearsal
import RemoteSession.Session.Stage
import RemoteSession.Session.View
import RemoteSession.Storage.CursorStore
import RemoteSession.Storage.FileTree
import RemoteSession.Stream.Backoff
import RemoteSession.Stream.Client
import RemoteSession.Stream.Frame
import RemoteSession.Stream.Pump
import RemoteSession.Stream.Resume
import RemoteSession.Stream.System
import RemoteSession.Terminal.Attachment
import RemoteSession.Terminal.Clock
import RemoteSession.Terminal.Display
import RemoteSession.Terminal.Lines
import RemoteSession.Terminal.Screen
import RemoteSession.Terminal.Sink
import RemoteSession.Text.Blank
import RemoteSession.Text.Hex
import RemoteSession.Text.Quoted
import RemoteSession.Text.Utf8
import RemoteSession.Timeline.Basic
import RemoteSession.Toml.Parser
import RemoteSession.Toml.Text
import RemoteSession.Toml.Tree
import RemoteSession.Url.Basic
import RemoteSession.Url.Host
import RemoteSession.Url.Label
import RemoteSession.Url.Parser
import RemoteSession.Url.Percent
import RemoteSession.Proofs.Stream.Framing
import RemoteSession.Proofs.Session.Parts
import RemoteSession.Proofs.Session.Scenes
import RemoteSession.Proofs.Session.Effects
import RemoteSession.Proofs.Stream.Persistence
import RemoteSession.Proofs.Timeline.Changes
import RemoteSession.Proofs.Stream.Tickets
import RemoteSession.Proofs.Stream.Addresses
import RemoteSession.Proofs.Url.Paths
import RemoteSession.Proofs.Service.Termination
import RemoteSession.Proofs.Url.Schemes
import RemoteSession.Proofs.Text.Cuts
import RemoteSession.Proofs.Terminal.Passthrough
import RemoteSession.Proofs.Event.Frames
import RemoteSession.Proofs.Session.Payloads
import RemoteSession.Proofs.Timeline.Order
import RemoteSession.Proofs.Timeline.Blocks
import RemoteSession.Proofs.Terminal.FreshLines
import RemoteSession.Proofs.Terminal.Times
import RemoteSession.Proofs.Event.Members
import RemoteSession.Proofs.Timeline.Channels
import RemoteSession.Proofs.Stream.Viewports
import RemoteSession.Proofs.Session.Leaving
import RemoteSession.Proofs.Url.Written
import RemoteSession.Proofs.Stream.Prefixes
import RemoteSession.Proofs.Stream.Queries
import RemoteSession.Proofs.Stream.Pumping
import RemoteSession.Proofs.Command.Assignments
import RemoteSession.Proofs.Composer.Lines
import RemoteSession.Proofs.Config.Credentials
import RemoteSession.Proofs.Service.Faults
import RemoteSession.Proofs.Command.ExitCodes
import RemoteSession.Proofs.Terminal.Calendar
import RemoteSession.Terminal.Calendar
import RemoteSession.Proofs.Composer.Keystrokes
import RemoteSession.Proofs.Terminal.InputLines

import Tapgres.Lib.Run
import Tapgres.Lib.Interleave
import Tapgres.Lib.Loop
import Tapgres.Lib.While
import Tapgres.Lib.Window
import Tapgres.Lib.Table
import Tapgres.Lib.SeqSpace
import Tapgres.Lib.BigEndian
import Tapgres.Lib.Slice
import Tapgres.Net
import Tapgres.Net.Frame
import Tapgres.Net.Reads
import Tapgres.Net.Truncation
import Tapgres.Net.Encode
import Tapgres.Net.Recover
import Tapgres.Net.Fragments
import Tapgres.Pgwire
import Tapgres.Pgwire.Framed
import Tapgres.Decode.Format
import Tapgres.Decode.Bind
import Tapgres.Decode.Rows
import Tapgres.Filter.Message
import Tapgres.Flow.Direction
import Tapgres.Decode.Output
import Tapgres.Flow.Reassembly
import Tapgres.Flow.Segmentation
import Tapgres.Flow.Ahead
import Tapgres.Flow.Refeed
import Tapgres.Flow.SynData
import Tapgres.Flow.Checked
import Tapgres.Decode.Handle
import Tapgres.Decode.Drain
import Tapgres.Decode.Accept
import Tapgres.Decode.Pieces
import Tapgres.Decode.Streams
import Tapgres.Decode.Secrecy
import Tapgres.Decode.Messages
import Tapgres.Decode.Answer
import Tapgres.Decode.Arrivals
import Tapgres.Flow.InOrder
import Tapgres.State.Metrics
import Tapgres.State.Records
import Tapgres.State.Registry
import Tapgres.Lib.FetchAdd
import Tapgres.State.Rates
import Tapgres.Lib.Tally
import Tapgres.State.Calls
import Tapgres.State.Returns
import Tapgres.Lib.Files
import Tapgres.Lib.Rest
import Tapgres.Lib.Simulation
import Tapgres.Proxy.Faults
import Tapgres.Proxy.Awaits
import Tapgres.Proxy.Server
import Tapgres.Proxy.Accounts
import Tapgres.Capture
import Tapgres.Flow.Connection
import Tapgres.Flow.ConnTable
import Tapgres.Flow.Accounting
import Tapgres.Flow.Encryption
import Tapgres.Flow.Lifecycle
import Tapgres.Flow.Bookkeeping
import Tapgres.Flow.Separation
import Tapgres.Flow.Reuse
import Tapgres.Flow.Joined
import Tapgres.Flow.Requests
import Tapgres.Flow.Awaited
import Tapgres.Flow.Negotiation
import Tapgres.Proxy.Material
import Tapgres.Proxy.Relay
import Tapgres.Proxy.Secrecy
import Tapgres.Proxy.Decoding
import Tapgres.Proxy.Cancel
import Tapgres.Proxy.Handshake
import Tapgres.Lib.Utf8
import Tapgres.Lib.Lines
import Tapgres.Lib.Trace
import Tapgres.Filter.Syntax
import Tapgres.Filter.Parser
import Tapgres.Filter.Grammar
import Tapgres.Filter.Recognise
import Tapgres.Filter.Answers
import Tapgres.Filter.Lexer
import Tapgres.Filter.Print
import Tapgres.Filter.Typed
import Tapgres.Filter.Positions
import Tapgres.Filter.Spelling
import Tapgres.Filter.Cursor
import Tapgres.Filter.Safety
import Tapgres.Filter.Refusal
import Tapgres.Filter.Offence
import Tapgres.Filter.ErrorPosition
import Tapgres.Tui.Line
import Tapgres.Tui.Classify
import Tapgres.Session.Record
import Tapgres.Session.Read
import Tapgres.Session.Stops
import Tapgres.Session.Writer
import Tapgres.Session.Json
import Tapgres.Session.RoundTrip
import Tapgres.Tui.App
import Tapgres.Tui.Commands
import Tapgres.Tui.Visible
import Tapgres.Tui.Live
import Tapgres.Tui.Recorder
import Tapgres.Replay
import Tapgres.Distinct
import Tapgres.Stdout
import Tapgres.Interrupted
import Tapgres.Tui.Reopen
import Tapgres.Tui.Replayed
import Tapgres.Tui.Rich
import Tapgres.Tui.Window
import Tapgres.Tui.Draw
import Tapgres.Tui.History
import Tapgres.Tui.Viewport
import Tapgres.Tui.Editing
import Tapgres.Tui.Timeline

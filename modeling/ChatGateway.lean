import ChatGateway.Answer.Arguments
import ChatGateway.Answer.Failure
import ChatGateway.Answer.StopReason
import ChatGateway.Answer.Stream
import ChatGateway.Answer.Whole
import ChatGateway.Chat.Chunk
import ChatGateway.Chat.Failure
import ChatGateway.Chat.Reply
import ChatGateway.Chat.Request
import ChatGateway.CommandLine
import ChatGateway.Config.File
import ChatGateway.Config.Settings
import ChatGateway.Decode.Error
import ChatGateway.Decode.Record
import ChatGateway.Decode.Scalar
import ChatGateway.Decode.Union
import ChatGateway.Digest.Sha256
import ChatGateway.EventStream
import ChatGateway.Json.Canonical
import ChatGateway.Json.Document
import ChatGateway.Json.Numeral
import ChatGateway.Json.Print
import ChatGateway.Json.Token
import ChatGateway.Json.Value
import ChatGateway.Log
import ChatGateway.Main
import ChatGateway.Markup.Call
import ChatGateway.Markup.Kimi
import ChatGateway.Markup.KimiStream
import ChatGateway.Markup.Piece
import ChatGateway.Markup.Qwen
import ChatGateway.Markup.QwenStream
import ChatGateway.Markup.Scan
import ChatGateway.Messages.Block
import ChatGateway.Messages.Event
import ChatGateway.Messages.Failure
import ChatGateway.Messages.Reply
import ChatGateway.Messages.Request
import ChatGateway.Number.Binary64
import ChatGateway.Number.Decimal
import ChatGateway.Number.Shortest
import ChatGateway.Outbound
import ChatGateway.Problem
import ChatGateway.Proofs.Agreement
import ChatGateway.Proofs.Arguments
import ChatGateway.Proofs.Arrivals
import ChatGateway.Proofs.Assembly
import ChatGateway.Proofs.Bodies
import ChatGateway.Proofs.Capacity
import ChatGateway.Proofs.Characters
import ChatGateway.Proofs.Coercions
import ChatGateway.Proofs.Conservation
import ChatGateway.Proofs.Conversations
import ChatGateway.Proofs.Counting
import ChatGateway.Proofs.Cursors
import ChatGateway.Proofs.Cuts
import ChatGateway.Proofs.Deltas
import ChatGateway.Proofs.Dialogue
import ChatGateway.Proofs.Discretion
import ChatGateway.Proofs.Emission
import ChatGateway.Proofs.Entries
import ChatGateway.Proofs.EventForms
import ChatGateway.Proofs.Fields
import ChatGateway.Proofs.FixedPoints
import ChatGateway.Proofs.Growing
import ChatGateway.Proofs.Inputs
import ChatGateway.Proofs.KimiContent
import ChatGateway.Proofs.KimiCuts
import ChatGateway.Proofs.KimiFormat
import ChatGateway.Proofs.KimiSnapshots
import ChatGateway.Proofs.KimiSteps
import ChatGateway.Proofs.Lifecycle
import ChatGateway.Proofs.Machines
import ChatGateway.Proofs.Markers
import ChatGateway.Proofs.Natives
import ChatGateway.Proofs.Numerals
import ChatGateway.Proofs.Offsets
import ChatGateway.Proofs.Omissions
import ChatGateway.Proofs.Pacing
import ChatGateway.Proofs.Parameters
import ChatGateway.Proofs.Printing
import ChatGateway.Proofs.QwenArguments
import ChatGateway.Proofs.QwenCuts
import ChatGateway.Proofs.QwenFormat
import ChatGateway.Proofs.QwenSnapshots
import ChatGateway.Proofs.QwenSteps
import ChatGateway.Proofs.ReadBack
import ChatGateway.Proofs.Reading
import ChatGateway.Proofs.Reasoning
import ChatGateway.Proofs.Records
import ChatGateway.Proofs.Relaying
import ChatGateway.Proofs.Removal
import ChatGateway.Proofs.Replay
import ChatGateway.Proofs.Reports
import ChatGateway.Proofs.RequestForms
import ChatGateway.Proofs.Resolving
import ChatGateway.Proofs.RoundTrips
import ChatGateway.Proofs.Rounds
import ChatGateway.Proofs.Routes
import ChatGateway.Proofs.Scanning
import ChatGateway.Proofs.Sequence
import ChatGateway.Proofs.Spacing
import ChatGateway.Proofs.Summaries
import ChatGateway.Proofs.Tables
import ChatGateway.Proofs.Tidying
import ChatGateway.Proofs.Values
import ChatGateway.Provider.Endpoint
import ChatGateway.Provider.Preset
import ChatGateway.Relay
import ChatGateway.Routing
import ChatGateway.Server
import ChatGateway.Table
import ChatGateway.Text.Blank
import ChatGateway.Text.Bytes
import ChatGateway.Text.Marker
import ChatGateway.Text.Printable
import ChatGateway.Text.Ranges
import ChatGateway.Text.Utf8
import ChatGateway.Text.Word
import ChatGateway.Toml.Document
import ChatGateway.Toml.Item
import ChatGateway.Toml.Moment
import ChatGateway.Toml.Quoted
import ChatGateway.Toml.Scalar
import ChatGateway.Toml.Value
import ChatGateway.Tool.Coercion
import ChatGateway.Tool.Schema
import ChatGateway.Url
import ChatGateway.Url.Folding
import ChatGateway.Url.Host
import ChatGateway.Url.Path
import ChatGateway.Url.Percent
import ChatGateway.Url.Punycode

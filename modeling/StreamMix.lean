import StreamMix.Lib.Machine
import StreamMix.Lib.BigEndian
import StreamMix.Lib.JsNumber
import StreamMix.Wire.Header
import StreamMix.Wire.Layout
import StreamMix.Extension.Graph
import StreamMix.Extension.Routing
import StreamMix.Extension.Mount
import StreamMix.Lib.GoChan
import StreamMix.Relay.Hub
import StreamMix.Relay.Slot
import StreamMix.Relay.Subscribers
import StreamMix.Relay.Delivery
import StreamMix.Relay.Registry
import StreamMix.Relay.Sessions
import StreamMix.Relay.OneHub
import StreamMix.Lib.Unicode
import StreamMix.Lib.Json
import StreamMix.Wire.Messages
import StreamMix.Publisher.Cli
import StreamMix.Publisher.Announce
import StreamMix.Lib.Precedence
import StreamMix.Publisher.WsClient
import StreamMix.Relay.Streams
import StreamMix.Session
import StreamMix.Wire.Codec
import StreamMix.Relay.RateLimit
import StreamMix.Lib.Base64
import StreamMix.Lib.GoTime
import StreamMix.Relay.Auth
import StreamMix.Publisher.Accepted
import StreamMix.Publisher.Slugs
import StreamMix.Extension.Prefs
import StreamMix.Lib.KeyedLoop
import StreamMix.Extension.Mixer
import StreamMix.Extension.Column
import StreamMix.Extension.Ruled
import StreamMix.Extension.Consistent
import StreamMix.Extension.Saved
import StreamMix.Lib.CodePoints
import StreamMix.Lib.JsonText
import StreamMix.Lib.JsonWriter
import StreamMix.Lib.JsonNumber
import StreamMix.Lib.GoJson
import StreamMix.Wire.Payloads
import StreamMix.Lib.JsonUnits
import StreamMix.Wire.Written
import StreamMix.Wire.Checks
import StreamMix.Wire.Interop.Hello
import StreamMix.Wire.Interop.Error
import StreamMix.Wire.Interop.TrackMeta
import StreamMix.Wire.Interop.TrackList
import StreamMix.Wire.Interop.Stats
import StreamMix.Wire.Interop
import StreamMix.Lib.KeyedStore
import StreamMix.Relay.Entries
import StreamMix.Relay.BruteForce
import StreamMix.Relay.Gate
import StreamMix.Relay.Parallel
import StreamMix.Relay.Tracked
import StreamMix.Publisher.Ledger
import StreamMix.Publisher.Reconnect
import StreamMix.Lib.Blocks
import StreamMix.Publisher.Pipeline
import StreamMix.Lib.UrlQuery
import StreamMix.Publisher.PublishUrl
import StreamMix.Publisher.RelayUrl
import StreamMix.Wire.Fields
import StreamMix.Lib.Kebab
import StreamMix.Wire.SlugRule
import StreamMix.Wire.SubTracks
import StreamMix.Wire.Grammar
import StreamMix.Wire.Strict
import StreamMix.Wire.Interop.SubTracks
import StreamMix.Wire.Sizes
import StreamMix.Wire.RoundTrip
import StreamMix.Wire.Sluggify
import StreamMix.Lib.Gaps
import StreamMix.Publisher.Labels
import StreamMix.Publisher.StableSlugs
import StreamMix.Extension.SharedDelay
import StreamMix.Extension.PerTrack
import StreamMix.Extension.Scheduler
import StreamMix.Relay.Metrics
import StreamMix.Extension.Decoder
import StreamMix.Extension.Seated
import StreamMix.Extension.Solo
import StreamMix.Extension.Playback
import StreamMix.Extension.Precedence
import StreamMix.Extension.RelayClient
import StreamMix.Relay.Config
import StreamMix.Extension.Playing
import StreamMix.Extension.Viewer
import StreamMix.Lib.Accounts
import StreamMix.Lib.Classes
import StreamMix.Lib.Progress
import StreamMix.Publisher.Order
import StreamMix.Relay.Answers
import StreamMix.Relay.Blocked
import StreamMix.Relay.Progress
import StreamMix.Session.Order
import StreamMix.Session.Viewing
import StreamMix.Extension.Channels
import StreamMix.Relay.Commands
import StreamMix.Session.Audience
import StreamMix.Wire.Interop.Fingerprint
import StreamMix.Extension.Desk
import StreamMix.Lib.KeyedRows

import OtlpCollectorOidc.Lib.Text
import OtlpCollectorOidc.Lib.Fields
import OtlpCollectorOidc.Lib.Quoted
import OtlpCollectorOidc.Lib.Occurrences
import OtlpCollectorOidc.Lib.Number
import OtlpCollectorOidc.Lib.WallTime
import OtlpCollectorOidc.Lib.Json
import OtlpCollectorOidc.Lib.JsonText
import OtlpCollectorOidc.Lib.Yaml
import OtlpCollectorOidc.Lib.Url
import OtlpCollectorOidc.Lib.Address
import OtlpCollectorOidc.Lib.Redaction
import OtlpCollectorOidc.Lib.Strconv
import OtlpCollectorOidc.Lib.Decimal
import OtlpCollectorOidc.Lib.Numerals
import OtlpCollectorOidc.Lib.ReadBack
import OtlpCollectorOidc.Lib.Shell
import OtlpCollectorOidc.Lib.Maps
import OtlpCollectorOidc.Lib.Grouping
import OtlpCollectorOidc.Lib.Validation
import OtlpCollectorOidc.Lib.Rules
import OtlpCollectorOidc.Lib.Transition
import OtlpCollectorOidc.Lib.Once
import OtlpCollectorOidc.Lib.FileSystem
import OtlpCollectorOidc.Lib.Calls
import OtlpCollectorOidc.Lib.Ottl
import OtlpCollectorOidc.Lib.Unquote
import OtlpCollectorOidc.Lib.Literal
import OtlpCollectorOidc.Lib.ErrorTree
import OtlpCollectorOidc.Lib.Regexp.Lexer
import OtlpCollectorOidc.Lib.Regexp.Parser
import OtlpCollectorOidc.Lib.Regexp.Anchor
import OtlpCollectorOidc.Lib.Regexp.Semantics
import OtlpCollectorOidc.Auth.Rejection
import OtlpCollectorOidc.Auth.Warnings
import OtlpCollectorOidc.Auth.Config
import OtlpCollectorOidc.Auth.Claims
import OtlpCollectorOidc.Auth.Validity
import OtlpCollectorOidc.Auth.Scope
import OtlpCollectorOidc.Auth.KeySet
import OtlpCollectorOidc.Auth.Identity
import OtlpCollectorOidc.Auth.Authenticate
import OtlpCollectorOidc.Auth.TokenProfile
import OtlpCollectorOidc.Auth.System
import OtlpCollectorOidc.Auth.Throttle
import OtlpCollectorOidc.Auth.Freshness
import OtlpCollectorOidc.Auth.Rotation
import OtlpCollectorOidc.Auth.Readiness
import OtlpCollectorOidc.Auth.Progress
import OtlpCollectorOidc.Auth.Undisturbed
import OtlpCollectorOidc.Auth.Provenance
import OtlpCollectorOidc.Upstream.Config
import OtlpCollectorOidc.Upstream.Resolve
import OtlpCollectorOidc.Upstream.WellFormed
import OtlpCollectorOidc.Upstream.Secrets
import OtlpCollectorOidc.Upstream.Blame
import OtlpCollectorOidc.Upstream.Headers
import OtlpCollectorOidc.Upstream.Passwords
import OtlpCollectorOidc.Render.Quote
import OtlpCollectorOidc.Render.Values
import OtlpCollectorOidc.Render.KeyValues
import OtlpCollectorOidc.Render.Identity
import OtlpCollectorOidc.Render.Exporters
import OtlpCollectorOidc.Render.Settings
import OtlpCollectorOidc.Render.Patterns
import OtlpCollectorOidc.Render.Document
import OtlpCollectorOidc.Render.Bounds
import OtlpCollectorOidc.Render.Metrics
import OtlpCollectorOidc.Render.Redaction
import OtlpCollectorOidc.Render.Keys
import OtlpCollectorOidc.Render.OwnLogs
import OtlpCollectorOidc.Render.SignalPath
import OtlpCollectorOidc.Render.Ports
import OtlpCollectorOidc.Render.Startup
import OtlpCollectorOidc.Render.Complaints
import OtlpCollectorOidc.Render.Faults
import OtlpCollectorOidc.Render.Report
import OtlpCollectorOidc.Render.Pipeline
import OtlpCollectorOidc.Render.Literals
import OtlpCollectorOidc.Render.Shutdown
import OtlpCollectorOidc.Render.RenderedFile
import OtlpCollectorOidc.Render.Reload
import OtlpCollectorOidc.Render.OwnLines
import OtlpCollectorOidc.Render.Run
import OtlpCollectorOidc.Receiver.Answer
import OtlpCollectorOidc.Receiver.Refusals
import OtlpCollectorOidc.Receiver.Wire
import OtlpCollectorOidc.Receiver.Export
import OtlpCollectorOidc.Receiver.Factory
import OtlpCollectorOidc.Receiver.Lifecycle
import OtlpCollectorOidc.Receiver.Listener
import OtlpCollectorOidc.Release.Version
import OtlpCollectorOidc.Release.Plan
import OtlpCollectorOidc.Release.History
import OtlpCollectorOidc.Collector

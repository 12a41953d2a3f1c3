import OtlpCollectorOidc.Lib.Validation
import OtlpCollectorOidc.Render.Exporters
import OtlpCollectorOidc.Render.Identity
import OtlpCollectorOidc.Upstream.Resolve

namespace OtlpCollectorOidc.Render

open Text Number Strconv Upstream Validation

structure Addr where
  host : Bytes
  port : Bytes

/-- `net.SplitHostPort`, its errors all alike. -/
def splitHostPort (hostport : Bytes) : Option (Bytes × Bytes) := do
  let (before, port) ← Url.cutLast 0x3A hostport
  match hostport with
  | 0x5B :: rest =>
    let (host, after) ← cut 0x5D rest
    if after = 0x3A :: port && 0x5B ∉ rest && 0x5D ∉ after then some (host, port) else none
  | _ => if 0x3A ∈ before || 0x5B ∈ hostport || 0x5D ∈ hostport then none else some (before, port)

def Addr.unmarshalText (text : Bytes) : Except Bytes Addr :=
  match splitHostPort text with
  | none => .error "must be host:port, such as 0.0.0.0:4318"
  | some (host, port) =>
    if host = [] then .error "must be host:port, such as 0.0.0.0:4318"
    else match parseInt 64 port with
      | some n =>
        if n < 1 || 65535 < n then .error "port must be a number from 1 to 65535" else .ok ⟨host, port⟩
      | none => .error "port must be a number from 1 to 65535"

/-- `net.JoinHostPort`. -/
def Addr.string (a : Addr) : Bytes :=
  if 0x3A ∈ a.host then ofString "[" ++ a.host ++ ofString "]:" ++ a.port else a.host ++
    ofString ":" ++ a.port

def oneOf {α : Type} (options : List α) (string : α → Bytes) (why : Bytes) (text : Bytes) : Except Bytes α :=
  match options.find? (fun o ↦ string o = text) with
  | some o => .ok o
  | none => .error why

inductive LogLevel where
  | debug
  | info
  | warn
  | error

def LogLevel.string : LogLevel → Bytes
  | .debug => "debug"
  | .info => "info"
  | .warn => "warn"
  | .error => "error"

def LogLevel.unmarshalText : Bytes → Except Bytes LogLevel :=
  oneOf [.debug, .info, .warn, .error] LogLevel.string "must be debug, info, warn or error"

inductive LogFormat where
  | json
  | console

def LogFormat.string : LogFormat → Bytes
  | .json => "json"
  | .console => "console"

def LogFormat.unmarshalText : Bytes → Except Bytes LogFormat :=
  oneOf [.json, .console] LogFormat.string "must be json or console"

inductive LogOutput where
  | both
  | otlp
  | stdout
  deriving DecidableEq

def LogOutput.string : LogOutput → Bytes
  | .both => "both"
  | .otlp => "otlp"
  | .stdout => "stdout"

def LogOutput.unmarshalText : Bytes → Except Bytes LogOutput :=
  oneOf [.both, .otlp, .stdout] LogOutput.string "must be both, otlp or stdout"

def LogOutput.upstream : LogOutput → Bool
  | .both | .otlp => true
  | .stdout => false

def LogOutput.writesStdout : LogOutput → Bool
  | .both | .stdout => true
  | .otlp => false

def anchored (pattern : Bytes) : Bytes := ofString "^(?:" ++ pattern ++ ofString ")$"

def compileError : Option Bytes → Bytes
  | some code => ofString "must be a regular expression: " ++ code
  | none => "must be a regular expression"

/-- `ServiceNamePattern.UnmarshalText`: the pattern must stand on its own. -/
def servicePattern (go : Library) (text : Bytes) : Except Bytes Bytes :=
  if text.any (fun c ↦ c < 0x20 || c = 0x7F) then .error "must not contain control characters"
  else match go.compile text with
    | some e => .error (compileError e)
    | none =>
      match go.compile (anchored text) with
      | some e => .error (compileError e)
      | none => .ok text

/-- `MetricNamePattern.UnmarshalText`: an empty pattern drops every metric. -/
def metricPattern (go : Library) (text : Bytes) : Except Bytes Bytes :=
  if text = [] then .ok [] else servicePattern go text

def splitList (raw : Bytes) : List Bytes := ((raw.splitOn 0x2C).map trimSpace).filter (· ≠ [])

def parseText (raw : Bytes) : Except Bytes Bytes := .ok raw

def parseList (raw : Bytes) : Except Bytes (List Bytes) := .ok (splitList raw)

def parsePairs (raw : Bytes) : Except Bytes KeyValueList :=
  (KeyValueList.unmarshalText raw).mapError PairError.error

def durationField (raw : Bytes) : Except Bytes Duration :=
  match parseDuration raw with
  | some d => .ok d
  | none => .error "must be a duration such as 30s or 5m"

def int64Field (raw : Bytes) : Except Bytes ℤ :=
  match parseInt 64 raw with
  | some n => .ok n
  | none => .error "must be a whole number"

def uint32Field (raw : Bytes) : Except Bytes ℕ :=
  match parseUint 32 raw with
  | some n => .ok n
  | none => .error "must be a whole number of MiB, 0 to 4294967295"

/-- One tagged field. -/
structure Variable (α : Type) where
  name : Bytes
  required : Bool := false
  default : Bytes := []
  parse : Bytes → Except Bytes α

/-- The value of a variable, or its default when it is unset or empty. -/
def Variable.selected {α : Type} (v : Variable α) (lookup : Lookup) : Bytes :=
  (nonEmpty lookup v.name).getD v.default

def Variable.load {α : Type} (go : Library) (lookup : Lookup) (v : Variable α) : Validated Fault α :=
  .ofExcept <|
    if v.required && (nonEmpty lookup v.name).isNone then .error (.required v.name)
    else match v.parse (v.selected lookup) with
      | .ok a => .ok a
      | .error why => .error (.invalid v.name (redacted go (v.selected lookup)) why)

namespace Variable

def issuerURL : Variable Bytes := { name := "OIDC_ISSUER_URL", required := true, parse := parseText }

def audience : Variable Bytes := { name := "OIDC_AUDIENCE", required := true, parse := parseText }

def discoveryRetry : Variable Duration :=
  { name := "OIDC_DISCOVERY_RETRY", default := "30s", parse := durationField }

def jwksRefresh : Variable Duration :=
  { name := "OIDC_JWKS_REFRESH", default := "10m", parse := durationField }

def requiredScope : Variable Bytes :=
  { name := "REQUIRED_SCOPE", default := "telemetry:write", parse := parseText }

def requiredClaims : Variable (List Bytes) :=
  { name := "REQUIRED_CLAIMS", default := "sub,preferred_username", parse := parseList }

def claimAttributes : Variable KeyValueList :=
  { name := "CLAIM_ATTRIBUTES"
    default := "sub=user.id,preferred_username=user.name,email=user.email,name=user.full_name"
    parse := parsePairs }

def clientResourceAttrs : Variable KeyValueList :=
  { name := "CLIENT_RESOURCE_ATTRIBUTES", parse := parsePairs }

def clockSkew : Variable Duration := { name := "CLOCK_SKEW", default := "60s", parse := durationField }

def rejectionLogInterval : Variable Duration :=
  { name := "REJECTION_LOG_INTERVAL", default := "60s", parse := durationField }

def listenAddr : Variable Addr :=
  { name := "LISTEN_ADDR", default := "0.0.0.0:4318", parse := Addr.unmarshalText }

def tlsCertFile : Variable Bytes :=
  { name := "TLS_CERT_FILE", default := "/etc/otlp-collector-oidc/tls/cert.pem", parse := parseText }

def tlsKeyFile : Variable Bytes :=
  { name := "TLS_KEY_FILE", default := "/etc/otlp-collector-oidc/tls/key.pem", parse := parseText }

def tlsReloadInterval : Variable Duration :=
  { name := "TLS_RELOAD_INTERVAL", default := "1m", parse := durationField }

def maxRequestBodyBytes : Variable ℤ :=
  { name := "MAX_REQUEST_BODY_BYTES", default := "4194304", parse := int64Field }

def corsAllowedOrigins : Variable (List Bytes) := { name := "CORS_ALLOWED_ORIGINS", parse := parseList }

def allowedServiceNames (go : Library) : Variable Bytes :=
  { name := "ALLOWED_SERVICE_NAMES", required := true, parse := servicePattern go }

def maxFutureSkew : Variable Duration :=
  { name := "MAX_FUTURE_SKEW", default := "5m", parse := durationField }

def maxPastAge : Variable Duration := { name := "MAX_PAST_AGE", default := "48h", parse := durationField }

def allowedNames (go : Library) : Variable Bytes :=
  { name := "ALLOWED_METRIC_NAMES", parse := metricPattern go }

def allowedAttributeKeys : Variable (List Bytes) :=
  { name := "ALLOWED_METRIC_ATTRIBUTE_KEYS", parse := parseList }

def maxStreams : Variable ℤ := { name := "MAX_METRIC_STREAMS", default := "2000", parse := int64Field }

def deltaMaxStale : Variable Duration :=
  { name := "DELTA_MAX_STALE", default := "10m", parse := durationField }

def memoryLimitMiB : Variable ℕ := { name := "MEMORY_LIMIT_MIB", default := "64", parse := uint32Field }

def memorySpikeLimitMiB : Variable ℕ :=
  { name := "MEMORY_SPIKE_LIMIT_MIB", default := "16", parse := uint32Field }

def batchTimeout : Variable Duration := { name := "BATCH_TIMEOUT", default := "5s", parse := durationField }

def healthAddr : Variable Addr :=
  { name := "HEALTH_ADDR", default := "127.0.0.1:13133", parse := Addr.unmarshalText }

def selfMetricsAddr : Variable Addr :=
  { name := "SELF_METRICS_ADDR", default := "0.0.0.0:8888", parse := Addr.unmarshalText }

def level : Variable LogLevel := { name := "LOG_LEVEL", default := "info", parse := LogLevel.unmarshalText }

def format : Variable LogFormat :=
  { name := "LOG_FORMAT", default := "json", parse := LogFormat.unmarshalText }

def output : Variable LogOutput :=
  { name := "LOG_OUTPUT", default := "both", parse := LogOutput.unmarshalText }

def serviceName : Variable Bytes := { name := "OTEL_SERVICE_NAME", parse := parseText }

def resourceAttributes : Variable KeyValueList := { name := "OTEL_RESOURCE_ATTRIBUTES", parse := parsePairs }

end Variable

/-- What Load reports: a variable at fault, or a rule of a group or across groups. -/
inductive LoadError where
  | variable (f : Fault)
  | identity (e : IdentityError)
  | certificatePair
  | futureSkew (d : Duration)
  | pastAge (d : Duration)
  | maxStreams (n : ℤ)
  | deltaStale (d : Duration)
  | memorySpike (spike limit : ℕ)
  | ownLogsUnverified

def LoadError.error (go : Library) : LoadError → Bytes
  | .variable f => f.error go
  | .identity e => e.error
  | .certificatePair => "TLS_CERT_FILE and TLS_KEY_FILE must be set together"
  | .futureSkew d => ofString "MAX_FUTURE_SKEW (" ++ durationString d ++ ofString ") must not be negative"
  | .pastAge d => ofString "MAX_PAST_AGE (" ++ durationString d ++ ofString ") must be positive"
  | .maxStreams n => ofString "MAX_METRIC_STREAMS (" ++ formatInt n ++ ofString ") must be at least 1"
  | .deltaStale d => ofString "DELTA_MAX_STALE (" ++ durationString d ++ ofString ") must be positive"
  | .memorySpike spike limit =>
    ofString "MEMORY_SPIKE_LIMIT_MIB (" ++ formatInt spike ++
      ofString ") must be less than MEMORY_LIMIT_MIB (" ++ formatInt limit ++ ofString ")"
  | .ownLogsUnverified =>
    ofString "UPSTREAM_TLS_INSECURE_SKIP_VERIFY cannot apply to the process's own logs, " ++
      ofString "whose exporter always verifies: set LOG_OUTPUT=stdout, or trust " ++
      ofString "the upstream with OTEL_EXPORTER_OTLP_LOGS_CERTIFICATE"

structure IdentityProviderSettings extends IdentitySettings where
  issuerURL : Bytes
  audience : Bytes
  discoveryRetry : Duration
  jwksRefresh : Duration
  requiredScope : Bytes
  requiredClaims : List Bytes
  clockSkew : Duration
  rejectionLogInterval : Duration

structure ListenerSettings where
  listenAddr : Addr
  tlsCertFile : Bytes
  tlsKeyFile : Bytes
  tlsReloadInterval : Duration
  maxRequestBodyBytes : ℤ
  corsAllowedOrigins : List Bytes

structure BoundsSettings where
  allowedServiceNames : Bytes
  maxFutureSkew : Duration
  maxPastAge : Duration

structure MetricSettings where
  allowedNames : Bytes
  allowedAttributeKeys : List Bytes
  maxStreams : ℤ
  deltaMaxStale : Duration

structure ResourceSettings where
  memoryLimitMiB : ℕ
  memorySpikeLimitMiB : ℕ
  batchTimeout : Duration

structure SelfSettings where
  healthAddr : Addr
  selfMetricsAddr : Addr

structure LogSettings where
  level : LogLevel
  format : LogFormat

structure OwnSettings where
  output : LogOutput
  serviceName : Bytes
  resourceAttributes : KeyValueList

structure Settings where
  identity : IdentityProviderSettings
  upstream : UpstreamSettings
  listener : ListenerSettings
  bounds : BoundsSettings
  metrics : MetricSettings
  resources : ResourceSettings
  self : SelfSettings
  logs : LogSettings
  own : OwnSettings
  instanceID : Bytes := []

/-- Half a mounted pair would be matched with half the embedded one. -/
def ListenerSettings.validate (s : ListenerSettings) : List LoadError :=
  if decide (s.tlsCertFile = Variable.tlsCertFile.default) != decide
      (s.tlsKeyFile = Variable.tlsKeyFile.default) then
    [.certificatePair] else []

def BoundsSettings.validate (s : BoundsSettings) : List LoadError :=
  (if s.maxFutureSkew < 0 then [.futureSkew s.maxFutureSkew] else []) ++
  (if s.maxPastAge ≤ 0 then [.pastAge s.maxPastAge] else [])

def MetricSettings.validate (s : MetricSettings) : List LoadError :=
  (if s.maxStreams < 1 then [.maxStreams s.maxStreams] else []) ++
  (if s.deltaMaxStale ≤ 0 then [.deltaStale s.deltaMaxStale] else [])

def ResourceSettings.validate (s : ResourceSettings) : List LoadError :=
  if s.memoryLimitMiB ≤ s.memorySpikeLimitMiB then
    [.memorySpike s.memorySpikeLimitMiB s.memoryLimitMiB] else []

/-- The own logs' exporter always verifies. -/
def Settings.validate (s : Settings) : List LoadError :=
  if s.own.output.upstream then
    match s.upstream.logs with
    | some cfg => if !cfg.plaintext && cfg.skipVerify then [.ownLogsUnverified] else []
    | none => []
  else []

section Load

variable (go : Library) (lookup : Lookup)

def Variable.field {α : Type} (v : Variable α) : Validated LoadError α :=
  (v.load go lookup).mapErrors .variable

def readIdentity : Validated LoadError IdentityProviderSettings :=
  .ok (fun issuerURL audience discoveryRetry jwksRefresh requiredScope requiredClaims claimAttributes
      clientResourceAttrs clockSkew rejectionLogInterval ↦
      { issuerURL, audience, discoveryRetry, jwksRefresh, requiredScope, requiredClaims, claimAttributes,
        clientResourceAttrs, clockSkew, rejectionLogInterval })
    <*> Variable.issuerURL.field go lookup
    <*> Variable.audience.field go lookup
    <*> Variable.discoveryRetry.field go lookup
    <*> Variable.jwksRefresh.field go lookup
    <*> Variable.requiredScope.field go lookup
    <*> Variable.requiredClaims.field go lookup
    <*> Variable.claimAttributes.field go lookup
    <*> Variable.clientResourceAttrs.field go lookup
    <*> Variable.clockSkew.field go lookup
    <*> Variable.rejectionLogInterval.field go lookup

def loadIdentity : Validated LoadError IdentityProviderSettings :=
  (readIdentity go lookup).check (fun s ↦ s.toIdentitySettings.validate.map .identity)

def pipelineSignals : List Signal := [.traces, .logs, .metrics]

theorem resolve_error_ne_nil {errs : List Fault} (h : resolve go lookup pipelineSignals = .error errs) :
    errs ≠ [] := by
  obtain ⟨hf, hc⟩ := resolve_error nodup_signals h
  exact fun he ↦ hf (hc.eq_nil_iff.mp he)

def loadUpstream : Validated LoadError UpstreamSettings :=
  match h : resolve go lookup pipelineSignals with
  | .ok m => .ok ⟨m⟩
  | .error errs =>
    .fail (errs.map .variable) (fun he ↦ resolve_error_ne_nil go lookup h (List.map_eq_nil_iff.mp he))

def readListener : Validated LoadError ListenerSettings :=
  .ok ListenerSettings.mk
    <*> Variable.listenAddr.field go lookup
    <*> Variable.tlsCertFile.field go lookup
    <*> Variable.tlsKeyFile.field go lookup
    <*> Variable.tlsReloadInterval.field go lookup
    <*> Variable.maxRequestBodyBytes.field go lookup
    <*> Variable.corsAllowedOrigins.field go lookup

def loadListener : Validated LoadError ListenerSettings :=
  (readListener go lookup).check ListenerSettings.validate

def readBounds : Validated LoadError BoundsSettings :=
  .ok BoundsSettings.mk
    <*> (Variable.allowedServiceNames go).field go lookup
    <*> Variable.maxFutureSkew.field go lookup
    <*> Variable.maxPastAge.field go lookup

def loadBounds : Validated LoadError BoundsSettings := (readBounds go lookup).check BoundsSettings.validate

def readMetrics : Validated LoadError MetricSettings :=
  .ok MetricSettings.mk
    <*> (Variable.allowedNames go).field go lookup
    <*> Variable.allowedAttributeKeys.field go lookup
    <*> Variable.maxStreams.field go lookup
    <*> Variable.deltaMaxStale.field go lookup

def loadMetrics : Validated LoadError MetricSettings := (readMetrics go lookup).check MetricSettings.validate

def readResources : Validated LoadError ResourceSettings :=
  .ok ResourceSettings.mk
    <*> Variable.memoryLimitMiB.field go lookup
    <*> Variable.memorySpikeLimitMiB.field go lookup
    <*> Variable.batchTimeout.field go lookup

def loadResources : Validated LoadError ResourceSettings :=
  (readResources go lookup).check ResourceSettings.validate

def loadSelf : Validated LoadError SelfSettings :=
  .ok SelfSettings.mk <*> Variable.healthAddr.field go lookup <*> Variable.selfMetricsAddr.field go lookup

def loadLogs : Validated LoadError LogSettings :=
  .ok LogSettings.mk <*> Variable.level.field go lookup <*> Variable.format.field go lookup

def loadOwn : Validated LoadError OwnSettings :=
  .ok OwnSettings.mk
    <*> Variable.output.field go lookup
    <*> Variable.serviceName.field go lookup
    <*> Variable.resourceAttributes.field go lookup

def loadGroups : Validated LoadError Settings :=
  .ok (fun identity upstream listener bounds metrics resources self logs own ↦
      { identity, upstream, listener, bounds, metrics, resources, self, logs, own })
    <*> loadIdentity go lookup
    <*> loadUpstream go lookup
    <*> loadListener go lookup
    <*> loadBounds go lookup
    <*> loadMetrics go lookup
    <*> loadResources go lookup
    <*> loadSelf go lookup
    <*> loadLogs go lookup
    <*> loadOwn go lookup

/-- Load into Settings: the groups, then the rules across them. -/
def load : Validated LoadError Settings := (loadGroups go lookup).check Settings.validate

end Load

structure Grouped (go : Library) (lookup : Lookup) (s : Settings) : Prop where
  identity : (loadIdentity go lookup).value = some s.identity
  upstream : (loadUpstream go lookup).value = some s.upstream
  listener : (loadListener go lookup).value = some s.listener
  bounds : (loadBounds go lookup).value = some s.bounds
  metrics : (loadMetrics go lookup).value = some s.metrics
  resources : (loadResources go lookup).value = some s.resources
  self : (loadSelf go lookup).value = some s.self
  logs : (loadLogs go lookup).value = some s.logs
  own : (loadOwn go lookup).value = some s.own
  instanceID : s.instanceID = []

structure Loaded (go : Library) (lookup : Lookup) (s : Settings) : Prop extends Grouped go lookup s where
  rules : s.validate = []

section Loaded

open Validated

variable {go : Library} {lookup : Lookup} {s : Settings}

theorem loadGroups_value : (loadGroups go lookup).value = some s ↔ Grouped go lookup s := by
  constructor
  · intro h
    obtain ⟨_, own, htoOwn, hown, rfl⟩ := value_seq.mp h
    obtain ⟨_, logs, htoLogs, hlogs, rfl⟩ := value_seq.mp htoOwn
    obtain ⟨_, self, htoSelf, hself, rfl⟩ := value_seq.mp htoLogs
    obtain ⟨_, resources, htoResources, hresources, rfl⟩ := value_seq.mp htoSelf
    obtain ⟨_, metrics, htoMetrics, hmetrics, rfl⟩ := value_seq.mp htoResources
    obtain ⟨_, bounds, htoBounds, hbounds, rfl⟩ := value_seq.mp htoMetrics
    obtain ⟨_, listener, htoListener, hlistener, rfl⟩ := value_seq.mp htoBounds
    obtain ⟨_, upstream, htoUpstream, hupstream, rfl⟩ := value_seq.mp htoListener
    obtain ⟨_, identity, htoIdentity, hidentity, rfl⟩ := value_seq.mp htoUpstream
    cases value_ok.mp htoIdentity
    exact ⟨hidentity, hupstream, hlistener, hbounds, hmetrics, hresources, hself, hlogs, hown, rfl⟩
  · intro h
    have hs : s = { s with instanceID := [] } := by rw [← h.instanceID]
    rw [hs]
    exact value_seq.mpr ⟨_, _,
      value_seq.mpr ⟨_, _, value_seq.mpr
        ⟨_, _, value_seq.mpr ⟨_, _,
          value_seq.mpr ⟨_, _, value_seq.mpr
            ⟨_, _, value_seq.mpr ⟨_, _, value_seq.mpr ⟨_, _, value_seq.mpr ⟨_, _, value_ok.mpr rfl,
      h.identity, rfl⟩, h.upstream, rfl⟩, h.listener, rfl⟩, h.bounds, rfl⟩, h.metrics, rfl⟩,
        h.resources, rfl⟩, h.self,
      rfl⟩, h.logs, rfl⟩, h.own, rfl⟩

theorem loaded_of_load (h : (load go lookup).value = some s) : Loaded go lookup s := by
  obtain ⟨hgroups, hrules⟩ := value_check.mp h
  exact ⟨loadGroups_value.mp hgroups, hrules⟩

theorem resolve_of_loadUpstream {u : UpstreamSettings} (h : (loadUpstream go lookup).value = some u) :
    resolve go lookup pipelineSignals = .ok u.bySignal := by
  unfold loadUpstream at h
  split at h
  · rename_i m hm
    rw [hm, ← value_ok.mp h]
  · cases h

/-- Each signal's upstream in loaded settings is what its variables say. -/
theorem Loaded.signalConfig (h : Loaded go lookup s) (sig : Signal) :
    ∃ cfg, s.upstream.bySignal sig = some cfg ∧ Upstream.signalConfig lookup sig = some cfg := by
  obtain ⟨hm, hf⟩ := resolve_ok nodup_signals (resolve_of_loadUpstream h.upstream)
  obtain ⟨cfg, hcfg⟩ := signalConfig_of_ok hf (mem_signals sig)
  refine ⟨cfg, ?_, hcfg⟩
  rw [hm, resolvedMap, if_pos (mem_signals sig), hcfg]

/-- The variables behind a signal's upstream. -/
theorem Loaded.parses (h : Loaded go lookup s) {sig : Signal} {cfg : ExporterConfig}
    (hcfg : s.upstream.bySignal sig = some cfg) :
    ∃ p, Parses (fun x ↦ value lookup x sig) p ∧ cfg = p.config (fun x ↦ value lookup x sig) := by
  obtain ⟨cfg', hcfg', hs⟩ := h.signalConfig sig
  cases hcfg.symm.trans hcfg'
  unfold Upstream.signalConfig at hs
  split at hs
  · cases hs
  · rename_i p hp
    split_ifs at hs
    exact ⟨p, parsed_eq_some.mp hp, (Option.some.inj hs).symm⟩

theorem identity_lists {i : IdentityProviderSettings} (h : (readIdentity go lookup).value = some i) :
    (Variable.claimAttributes.field go lookup).value = some i.claimAttributes ∧
    (Variable.clientResourceAttrs.field go lookup).value = some i.clientResourceAttrs := by
  obtain ⟨_, _, h₁, _, he⟩ := value_seq.mp h
  obtain ⟨_, _, h₂, _, rfl⟩ := value_seq.mp h₁
  obtain ⟨_, resources, h₃, hresources, rfl⟩ := value_seq.mp h₂
  obtain ⟨_, claims, h₄, hclaims, rfl⟩ := value_seq.mp h₃
  obtain ⟨_, _, h₅, _, rfl⟩ := value_seq.mp h₄
  obtain ⟨_, _, h₆, _, rfl⟩ := value_seq.mp h₅
  obtain ⟨_, _, h₇, _, rfl⟩ := value_seq.mp h₆
  obtain ⟨_, _, h₈, _, rfl⟩ := value_seq.mp h₇
  obtain ⟨_, _, h₉, _, rfl⟩ := value_seq.mp h₈
  obtain ⟨_, _, h₁₀, _, rfl⟩ := value_seq.mp h₉
  cases value_ok.mp h₁₀
  rw [← he]
  exact ⟨hclaims, hresources⟩

theorem Loaded.claimAttributes (h : Loaded go lookup s) :
    (Variable.claimAttributes.field go lookup).value = some s.identity.claimAttributes :=
  (identity_lists (value_check.mp h.identity).1).1

theorem Loaded.resourceAttributes (h : Loaded go lookup s) :
    (Variable.resourceAttributes.field go lookup).value = some s.own.resourceAttributes := by
  obtain ⟨_, attrs, h₁, hattrs, he⟩ := value_seq.mp h.own
  obtain ⟨_, _, h₂, _, rfl⟩ := value_seq.mp h₁
  obtain ⟨_, _, h₃, _, rfl⟩ := value_seq.mp h₂
  cases value_ok.mp h₃
  rw [← he]
  exact hattrs

/-- A field of loaded settings is what its variable's selected value parses to. -/
theorem parse_of_field {α : Type} {v : Variable α} {a : α} (h : (v.field go lookup).value = some a) :
    v.parse (v.selected lookup) = .ok a := by
  unfold Variable.field Variable.load Validated.ofExcept at h
  rw [value_mapErrors] at h
  split at h
  · rename_i b hb
    split_ifs at hb
    split at hb
    · rename_i hp
      cases hb
      rw [hp, value_ok.mp h]
    · cases hb
  · cases h

end Loaded

def environment (vars : List (String × String)) : Lookup := fun name ↦
  ((vars ++ [("OIDC_ISSUER_URL", "https://issuer"), ("OIDC_AUDIENCE", "collector"),
    ("ALLOWED_SERVICE_NAMES", ".*"),
      ("OTEL_EXPORTER_OTLP_ENDPOINT", "http://collector:4317")]).find? (fun v ↦ ofString v.1 = name)).map
    (fun v ↦ ofString v.2)

end OtlpCollectorOidc.Render

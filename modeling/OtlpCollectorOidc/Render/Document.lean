import OtlpCollectorOidc.Render.Quote
import OtlpCollectorOidc.Render.Settings

namespace OtlpCollectorOidc.Render

open Text Number Strconv Upstream Yaml

section Ottl

def ottlString (s : Bytes) : Bytes :=
  0x22 :: s.flatMap (fun c ↦ if c = 0x22 || c = 0x5C then [0x5C, c] else [c]) ++ [0x22]

def ottlList (items : List Bytes) : Bytes :=
  ofString "[" ++ join (ofString ", ") (items.map ottlString) ++ ofString "]"

def ottlDuration (d : Duration) : Bytes :=
  ofString "Duration(" ++ ottlString (durationString d) ++ ofString ")"

/-- Drops a resource whose service.name is absent, not a string, or not matched. -/
def serviceNameFilter (pattern : Bytes) : Bytes :=
  ofString "not IsString(resource.attributes[\"service.name\"]) or " ++
    ofString "not IsMatch(resource.attributes[\"service.name\"], " ++
    ottlString (anchored pattern) ++ ofString ")"

def pastAgeSpanFilter (maxAge : Duration) : Bytes :=
  ofString "span.start_time < Now() - " ++ ottlDuration maxAge

def pastAgeLogFilter (maxAge : Duration) : Bytes :=
  ofString "log.time_unix_nano != 0 and log.time < Now() - " ++ ottlDuration maxAge

/-- Set each timestamp further ahead than the skew to now, the start first. -/
def futureSkewSpanClamps (skew : Duration) : List Bytes :=
  [ofString "set(span.start_time, Now()) where span.start_time > Now() + " ++ ottlDuration skew,
    ofString "set(span.end_time, span.start_time) where span.end_time > Now() + " ++ ottlDuration skew ++
      ofString " and span.start_time > Now()",
    ofString "set(span.end_time, Now()) where span.end_time > Now() + " ++ ottlDuration skew]

def futureSkewLogClamps (skew : Duration) : List Bytes :=
  [ofString "set(log.time, Now()) where log.time > Now() + " ++ ottlDuration skew]

/-- Drops a metric whose name the pattern does not match, or every metric when there is none. -/
def metricNameFilter (pattern : Bytes) : Bytes :=
  if pattern = [] then "true"
  else ofString "not IsMatch(metric.name, " ++ ottlString (anchored pattern) ++ ofString ")"

def metricResourceReduce : Bytes :=
  ofString "keep_keys(resource.attributes, " ++ ottlList ["service.name", "service.version"] ++ ofString ")"

def metricStrip : List Bytes :=
  ["keep_keys(scope.attributes, [])", "keep_keys(metric.metadata, [])", "set(datapoint.exemplars, nil)"]

def identityKey (key : Bytes) (claims : KeyValueList) : Bool :=
  ["user.", "session.", "enduser."].any (fun p ↦ (ofString p).isPrefixOf key) ||
    claims.pairs.any (fun kv ↦ kv.value = key)

def metricKeepKeys (allowed : List Bytes) (claims : KeyValueList) : Bytes :=
  ofString "keep_keys(datapoint.attributes, " ++
    ottlList (allowed.filter (fun key ↦ !identityKey key claims)) ++ ofString ")"

end Ottl

def identityProcessors : List Bytes :=
  ["memory_limiter", "filter/bounds", "transform/bounds", "attributes/identity", "resource/identity", "batch"]

def metricProcessors (clientResource : KeyValueList) : List Bytes :=
  ["memory_limiter", "filter/metrics", "transform/metrics"] ++
    (if clientResource.pairs = [] then [] else ["resource/metrics"]) ++ ["deltatocumulative", "batch"]

def q (v : Bytes) : Node := .scalar (quote v)

def word (s : Bytes) : Node := .scalar s

def number (n : ℤ) : Node := .scalar (formatInt n)

def flag (b : Bool) : Node := .scalar (if b then "true" else "false")

def list (items : List Bytes) : Node := .seq (items.map q)

def entry (key : String) (x : Node) : Key × Node := (.plain key, x)

def member (key : String) (x : Node) : Key × Node := (.quoted (quote key), x)

/-- An entry whose key comes from a variable. -/
def pairEntry (kv : KeyValue) : Key × Node := (.quoted (quote kv.key), q kv.value)

def optional (key : String) (v : Bytes) : List (Key × Node) := if v = [] then [] else [entry key (q v)]

def nonEmptyMember (key : String) (v : Bytes) : List (Key × Node) := if v = [] then [] else [member key (q v)]

def Action.word : Action → Bytes
  | .delete => "delete"
  | .upsert => "upsert"

section OwnLogs

/-- The fields this product sets of the SDK's OTLP log exporter. -/
structure OtlpExporter where
  protocol : Bytes
  endpoint : Bytes
  insecure : Bool
  certificate : Bytes
  clientCertificate : Bytes
  clientKey : Bytes
  headers : List Header
  compression : Bytes
  timeout : ℤ

/-- The logs upstream as the SDK reads it: a URL whose scheme decides TLS, and for
HTTP the full path. -/
def selfLogsExporter (cfg : ExporterConfig) : OtlpExporter where
  protocol := cfg.protocol.string
  endpoint :=
    match cfg.protocol with
    | .grpc => (if cfg.plaintext then ofString "http://" else ofString "https://") ++ cfg.endpoint
    | .httpProtobuf =>
      if cfg.signalPath then trimSuffix "/" cfg.endpoint ++ ofString "/v1/logs" else cfg.endpoint
  insecure := cfg.plaintext
  certificate := if cfg.plaintext then [] else cfg.caFile
  clientCertificate := if cfg.plaintext then [] else cfg.clientCertFile
  clientKey := if cfg.plaintext then [] else cfg.clientKeyFile
  headers := cfg.headers.pairs
  compression := cfg.compression.string
  timeout := cfg.timeout.tdiv (10 ^ 6)

/-- The own-logs export, or none when LOG_OUTPUT keeps the lines on stdout alone. -/
def Settings.selfLogProcessors (s : Settings) : Option OtlpExporter :=
  if s.own.output.upstream then s.upstream.logs.map selfLogsExporter else none

def jsonHeader (h : Header) : Node := .map [member "name" (q h.name), member "value" (q h.value)]

def OtlpExporter.node (e : OtlpExporter) : Node :=
  .map ([member "protocol" (q e.protocol), member "endpoint" (q e.endpoint)] ++
    (if e.insecure then [member "insecure" (flag true)] else []) ++
    nonEmptyMember "certificate" e.certificate ++
    nonEmptyMember "client_certificate" e.clientCertificate ++
    nonEmptyMember "client_key" e.clientKey ++
    (if e.headers = [] then [] else [member "headers" (.seq (e.headers.map jsonHeader))]) ++
    [member "compression" (q e.compression), member "timeout" (number e.timeout)])

def processorsNode (e : OtlpExporter) : Node :=
  .seq [.map [member "batch" (.map [member "exporter" (.map [member "otlp" e.node])])]]

end OwnLogs

section Template

variable (s : Settings)

def receivers : Node :=
  .map [entry "otlpsingleport" (.map ([
    entry "endpoint" (q s.listener.listenAddr.string),
    entry "max_request_body_size" (number s.listener.maxRequestBodyBytes),
    entry "tls" (.map [
      entry "cert_file" (q s.listener.tlsCertFile),
      entry "key_file" (q s.listener.tlsKeyFile),
      entry "reload_interval" (q (durationString s.listener.tlsReloadInterval))])] ++
    (if s.listener.corsAllowedOrigins = [] then [] else [entry "cors" (.map [
      entry "allowed_origins" (list s.listener.corsAllowedOrigins),
      entry "allowed_headers" (list ["Authorization", "Content-Type", "Content-Encoding"])])]) ++
    [entry "auth" (.map [entry "authenticator" (word "oidcclientauth")])]))]

def attributeActionNode (a : AttributeAction) : Node :=
  .map ([entry "key" (q a.key), entry "action" (word a.action.word)] ++ optional "from_context" a.fromContext)

def resourceActionNode (a : ResourceAction) : Node :=
  .map ([entry "key" (q a.key), entry "action" (word a.action.word)] ++
    (if a.action = .upsert then [entry "value" (q a.value)] else []))

def metricResourceNode (kv : KeyValue) : Node :=
  .map [entry "key" (q kv.key), entry "value" (q kv.value), entry "action" (word "upsert")]

def processors : Node :=
  .map ([
    entry "memory_limiter" (.map [
      entry "check_interval" (word "1s"),
      entry "limit_mib" (number s.resources.memoryLimitMiB),
      entry "spike_limit_mib" (number s.resources.memorySpikeLimitMiB)]),
    entry "filter/bounds" (.map [
      entry "error_mode" (word "ignore"),
      entry "traces" (.map [
        entry "resource" (list [serviceNameFilter s.bounds.allowedServiceNames]),
        entry "span" (list [pastAgeSpanFilter s.bounds.maxPastAge])]),
      entry "logs" (.map [
        entry "resource" (list [serviceNameFilter s.bounds.allowedServiceNames]),
        entry "log_record" (list [pastAgeLogFilter s.bounds.maxPastAge])])]),
    entry "transform/bounds" (.map [
      entry "error_mode" (word "ignore"),
      entry "trace_statements" (list (futureSkewSpanClamps s.bounds.maxFutureSkew)),
      entry "log_statements" (list (futureSkewLogClamps s.bounds.maxFutureSkew))]),
    entry "attributes/identity" (.map [
      entry "actions" (.seq ((identityActions s.identity.claimAttributes).map attributeActionNode))]),
    entry "resource/identity" (.map [
      entry "attributes" (.seq ((resourceActions s.identity.claimAttributes
        s.identity.clientResourceAttrs).map
        resourceActionNode))]),
    entry "filter/metrics" (.map [
      entry "error_mode" (word "ignore"),
      entry "metrics" (.map [
        entry "resource" (list [serviceNameFilter s.bounds.allowedServiceNames]),
        entry "metric" (list [metricNameFilter s.metrics.allowedNames])])]),
    entry "transform/metrics" (.map [
      entry "error_mode" (word "ignore"),
      entry "metric_statements" (list ([metricResourceReduce,
        metricKeepKeys s.metrics.allowedAttributeKeys s.identity.claimAttributes] ++ metricStrip))])] ++
    (if s.identity.clientResourceAttrs.pairs = [] then [] else [
      entry "resource/metrics" (.map [
        entry "attributes" (.seq (s.identity.clientResourceAttrs.pairs.map metricResourceNode))])]) ++ [
    entry "deltatocumulative" (.map [
      entry "max_streams" (number s.metrics.maxStreams),
      entry "max_stale" (q (durationString s.metrics.deltaMaxStale))]),
    entry "batch" (.map [entry "timeout" (q (durationString s.resources.batchTimeout))])])

def headerNode (h : Header) : Node := .map [entry "name" (q h.name), entry "value" (q h.value)]

def tlsNode (cfg : ExporterConfig) : Node :=
  .map ([entry "insecure" (flag cfg.plaintext)] ++
    (if cfg.plaintext then [] else
      [entry "insecure_skip_verify" (flag cfg.skipVerify)] ++ optional "ca_file" cfg.caFile ++
      optional "cert_file" cfg.clientCertFile ++ optional "key_file" cfg.clientKeyFile))

def exporterNode (e : Exporter) : Node :=
  .map (e.endpoints.map (fun x ↦ (.plain x.key, q x.value)) ++
    [entry "tls" (tlsNode e.config)] ++
    (if e.headers = [] then [] else [entry "headers" (.seq (e.headers.map headerNode))]) ++ [
    entry "timeout" (q (durationString e.config.timeout)),
    entry "compression" (q e.config.compression.string),
    entry "sending_queue" (.map [entry "queue_size" (number e.config.queueSize)]),
    entry "retry_on_failure" (.map [
      entry "enabled" (flag true),
      entry "initial_interval" (q (durationString e.config.retryInitialInterval)),
      entry "max_elapsed_time" (q (durationString e.config.retryMaxElapsed)),
      entry "max_interval" (q (durationString e.config.retryMaxInterval))])])

def exportersNode : Node := .map (s.upstream.exporters.map (fun e ↦ (.plain e.id, exporterNode e)))

def extensions : Node :=
  .map [
    entry "health_check" (.map [entry "endpoint" (q s.self.healthAddr.string)]),
    entry "oidcclientauth" (.map [
      entry "issuer_url" (q s.identity.issuerURL),
      entry "audience" (q s.identity.audience),
      entry "discovery_retry" (q (durationString s.identity.discoveryRetry)),
      entry "jwks_refresh" (q (durationString s.identity.jwksRefresh)),
      entry "required_scope" (q s.identity.requiredScope),
      entry "required_claims" (list s.identity.requiredClaims),
      entry "claim_attributes" (.map (s.identity.claimAttributes.pairs.map pairEntry)),
      entry "clock_skew" (q (durationString s.identity.clockSkew)),
      entry "rejection_log_interval" (q (durationString s.identity.rejectionLogInterval))])]

def KeyValueList.without (l : KeyValueList) (keys : List Bytes) : List KeyValue :=
  l.pairs.filter (fun kv ↦ kv.key ∉ keys)

def Settings.fallbackServiceName : Bytes :=
  match s.own.resourceAttributes.pairs.find? (fun kv ↦ kv.key = ofString "service.name") with
  | some kv => kv.value
  | none => "otlp-collector-oidc"

def resourceNode : Node :=
  .map ([member "service.name"
    (q (if s.own.serviceName = [] then s.fallbackServiceName else s.own.serviceName))] ++
      nonEmptyMember "service.instance.id" s.instanceID ++
    (s.own.resourceAttributes.without ["service.name", "service.version"]).map pairEntry)

def logsNode : Node :=
  .map ([
    entry "level" (q s.logs.level.string),
    entry "encoding" (q s.logs.format.string),
    entry "output_paths" (list (if s.own.output.writesStdout then ["stdout"] else [])),
    entry "error_output_paths" (list ["stderr"])] ++
    (s.selfLogProcessors.map (fun e ↦ entry "processors" (processorsNode e))).toList)

def metricsNode : Node :=
  .map [entry "readers" (.seq [.map [entry "pull" (.map [entry "exporter" (.map [entry "prometheus" (.map [
    entry "host" (q s.self.selfMetricsAddr.host),
    entry "port" (word s.self.selfMetricsAddr.port)])])])]])]

def pipelineNode (chain : List Bytes) (exporter : Bytes) : Node :=
  .map [
    entry "receivers" (.seq [word "otlpsingleport"]),
    entry "processors" (.seq (chain.map word)),
    entry "exporters" (.seq [word exporter])]

def service (traces logs metrics : Bytes) : Node :=
  .map [
    entry "extensions" (.seq [word "health_check", word "oidcclientauth"]),
    entry "telemetry" (.map [
      entry "resource" (resourceNode s),
      entry "logs" (logsNode s),
      entry "metrics" (metricsNode s)]),
    entry "pipelines" (.map [
      entry "traces" (pipelineNode identityProcessors traces),
      entry "logs" (pipelineNode identityProcessors logs),
      entry "metrics" (pipelineNode (metricProcessors s.identity.clientResourceAttrs) metrics)])]

/-- The shipped pipeline, its comments left out. -/
def document (traces logs metrics : Bytes) : Node :=
  .map [
    entry "receivers" (receivers s),
    entry "processors" (processors s),
    entry "exporters" (exportersNode s),
    entry "extensions" (extensions s),
    entry "service" (service s traces logs metrics)]

def render : Except Bytes Node := do
  let traces ← s.upstream.exporterFor "traces"
  let logs ← s.upstream.exporterFor "logs"
  let metrics ← s.upstream.exporterFor "metrics"
  .ok (document s traces logs metrics)

end Template

/-- Every signal has an upstream, so that Render succeeds. -/
theorem render_eq {s : Settings} (hall : ∀ sig, ∃ cfg, s.upstream.bySignal sig = some cfg) :
    ∃ ids : Signal → Bytes, (∀ sig, s.upstream.exporterFor sig.string = .ok (ids sig)) ∧
      render s = .ok (document s (ids .traces) (ids .logs) (ids .metrics)) := by
  choose cfg hcfg using hall
  refine ⟨fun sig ↦ (s.upstream.exporter (cfg sig) (s.upstream.served (cfg sig))).id,
    fun sig ↦ exporterFor_eq (hcfg sig), ?_⟩
  have htraces := exporterFor_eq (hcfg .traces)
  have hlogs := exporterFor_eq (hcfg .logs)
  have hmetrics := exporterFor_eq (hcfg .metrics)
  simp only [Signal.string] at htraces hlogs hmetrics
  simp only [render, htraces, hlogs, hmetrics]
  rfl

end OtlpCollectorOidc.Render

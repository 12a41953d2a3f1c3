import OtlpCollectorOidc.Lib.Strconv
import OtlpCollectorOidc.Upstream.Config

namespace OtlpCollectorOidc.Upstream

open Text Number Strconv

/-- What of Go's library is not spelled out: `strconv.Quote`, the text of `url.URL.Redacted`,
the refusals of `regexp.Compile`, a syntax error with its code, and the schemes, other than
http and https, for which `url.Parse` puts up with several colons in a host. -/
structure Library where
  quote : Bytes → Bytes
  redacted : Bytes → Bytes
  compile : Bytes → Option (Option Bytes)
  severalColons : Bytes → Bool
  strictColons : severalColons "http" = false ∧ severalColons "https" = false

abbrev Lookup := Bytes → Option Bytes

def exporterPrefix : Bytes := "OTEL_EXPORTER_OTLP_"

inductive Setting where
  | endpoint
  | protocol
  | headers
  | timeout
  | compression
  | certificate
  | clientCertificate
  | clientKey
  | insecure
  | skipVerify
  | queueSize
  | retryMaxElapsed
  deriving DecidableEq

def settings : List Setting :=
  [.endpoint, .protocol, .headers, .timeout, .compression, .certificate, .clientCertificate, .clientKey,
    .insecure, .skipVerify, .queueSize, .retryMaxElapsed]

namespace Setting

def suffix : Setting → Bytes
  | endpoint => "ENDPOINT"
  | protocol => "PROTOCOL"
  | headers => "HEADERS"
  | timeout => "TIMEOUT"
  | compression => "COMPRESSION"
  | certificate => "CERTIFICATE"
  | clientCertificate => "CLIENT_CERTIFICATE"
  | clientKey => "CLIENT_KEY"
  | insecure => "INSECURE"
  | skipVerify => "UPSTREAM_TLS_INSECURE_SKIP_VERIFY"
  | queueSize => "UPSTREAM_QUEUE_SIZE"
  | retryMaxElapsed => "UPSTREAM_RETRY_MAX_ELAPSED"

/-- Whether the setting has a form for each signal, read before the base one. -/
def perSignal : Setting → Bool
  | skipVerify | queueSize | retryMaxElapsed => false
  | _ => true

/-- Whether the value is never shown in an error or a log line. -/
def secret : Setting → Bool
  | headers => true
  | _ => false

/-- Whether the setting is meaningless for a plaintext upstream. -/
def tlsFile : Setting → Bool
  | certificate | clientCertificate | clientKey => true
  | _ => false

def default : Setting → Bytes
  | protocol => Protocol.grpc.string
  | timeout => "10000"
  | compression => Compression.gzip.string
  | insecure => "false"
  | skipVerify => "false"
  | queueSize => "1000"
  | retryMaxElapsed => "60s"
  | _ => []

def baseName (s : Setting) : Bytes := if s.perSignal then exporterPrefix ++ s.suffix else s.suffix

def signalName (s : Setting) (sig : Signal) : Bytes :=
  if s.perSignal then exporterPrefix ++ sig.variablePart ++ s.suffix else s.suffix

end Setting

/-- A variable that is missing, malformed, or in conflict with another. -/
inductive Fault where
  | required (name : Bytes)
  | invalid (name value why : Bytes)
  | insecureUnused
  | insecureHTTP (insecure endpoint : Bytes)
  | unpaired (certificate key : Bytes)
  | tlsFilePlaintext (name : Bytes) (sig : Signal)
  | tlsFileUnused (name : Bytes)
  deriving DecidableEq

def Fault.error (go : Library) : Fault → Bytes
  | .required name => name ++ ofString " is required"
  | .invalid name value why =>
    if value = [] then ofString "invalid " ++ name ++ ofString ": " ++ why
    else ofString "invalid " ++ name ++ ofString " " ++ go.quote value ++ ofString ": " ++ why
  | .insecureUnused =>
    Setting.insecure.baseName ++ ofString "=true, but no upstream uses grpc, the only protocol it applies to"
  | .insecureHTTP insecure endpoint =>
    insecure ++ ofString "=true applies to grpc only: for plaintext http/protobuf, make " ++ endpoint ++
      ofString " an http:// URL"
  | .unpaired certificate key => certificate ++ ofString " and " ++ key ++ ofString " must be set together"
  | .tlsFilePlaintext name sig =>
    name ++ ofString " is set, but the " ++ sig.string ++ ofString " upstream is plaintext"
  | .tlsFileUnused name => name ++ ofString " is set, but every upstream is plaintext"

/-- A value as an error may show it: a URL's password is masked. -/
def redacted (go : Library) (raw : Bytes) : Bytes :=
  if (Url.parseWith go.severalColons raw).isSome && Url.hasUser raw then go.redacted raw else raw

def shown (go : Library) (s : Setting) (raw : Bytes) : Bytes := if s.secret then [] else redacted go raw

/-- One setting's value for a signal: the variable it came from, or the base
name, and whether that is the signal's own. -/
structure Read where
  setting : Setting
  name : Bytes
  raw : Bytes
  perSignal : Bool := false

def nonEmpty (lookup : Lookup) (name : Bytes) : Option Bytes := (lookup name).filter (· ≠ [])

def baseValue (lookup : Lookup) (s : Setting) : Read :=
  match nonEmpty lookup s.baseName with
  | some raw => { setting := s, name := s.baseName, raw := raw }
  | none => { setting := s, name := s.baseName, raw := s.default }

def value (lookup : Lookup) (s : Setting) (sig : Signal) : Read :=
  if s.perSignal then
    match nonEmpty lookup (s.signalName sig) with
    | some raw => { setting := s, name := s.signalName sig, raw := raw, perSignal := true }
    | none => baseValue lookup s
  else baseValue lookup s

theorem setting_value (lookup : Lookup) (s : Setting) (sig : Signal) : (value lookup s sig).setting = s := by
  have hbase : (baseValue lookup s).setting = s := by
    unfold baseValue
    split <;> rfl
  unfold value
  split_ifs
  · split
    · rfl
    · exact hbase
  · exact hbase

def Read.invalid (go : Library) (v : Read) (why : Bytes) : Fault :=
  .invalid v.name (shown go v.setting v.raw) why

structure EndpointParts where
  plaintext : Bool
  endpoint : Bytes
  signalPath : Bool

def setEndpoint (p : Protocol) (raw : Bytes) (perSignal : Bool) : Except Bytes EndpointParts :=
  match Url.parse raw with
  | none => .error "must be an http:// or https:// URL, such as http://collector:4317"
  | some u =>
    if (u.scheme ≠ ofString "http" && u.scheme ≠ ofString "https") || u.hostname = [] then
      .error "must be an http:// or https:// URL, such as http://collector:4317"
    else match p with
      | .grpc =>
        if u.port = [] then .error "must name a port, such as http://collector:4317"
        else if Url.hasUser raw || (u.path ≠ [] && u.path ≠ ofString "/") || u.rawQuery ≠ [] ||
            u.fragment ≠ [] then
          .error "must be scheme://host:port only, with no credentials, path or query"
        else .ok { plaintext := u.scheme = ofString "http", endpoint := u.host, signalPath := false }
      | .httpProtobuf =>
        if Url.hasUser raw || u.rawQuery ≠ [] || u.fragment ≠ [] then
          .error "must be a URL with no credentials, query or fragment"
        else .ok { plaintext := u.scheme = ofString "http", endpoint := raw, signalPath := !perSignal }

/-- The SDK's spelling of a boolean, in any case. -/
def parseBool (raw : Bytes) : Except Bytes Bool :=
  if toLower raw = ofString "true" then .ok true
  else if toLower raw = ofString "false" then .ok false
  else .error "must be true or false"

def parseProtocol (raw : Bytes) : Except Bytes Protocol :=
  match Protocol.parse raw with
  | some p => .ok p
  | none => .error "must be grpc or http/protobuf"

def parseCompression (raw : Bytes) : Except Bytes Compression :=
  match Compression.parse raw with
  | some c => .ok c
  | none => .error "must be gzip or none"

def parseTimeout (raw : Bytes) : Except Bytes Duration :=
  match parseInt 64 raw with
  | some ms =>
    if ms < 1 || 3600000 < ms then .error "must be a whole number of milliseconds, 1 to 3600000"
      else .ok (ms * 10 ^ 6)
  | none => .error "must be a whole number of milliseconds, 1 to 3600000"

def parseQueueSize (raw : Bytes) : Except Bytes ℤ :=
  match parseInt 64 raw with
  | some n => if n < 1 then .error "must be a whole number, at least 1" else .ok n
  | none => .error "must be a whole number, at least 1"

def parseRetry (raw : Bytes) : Except Bytes Duration :=
  match parseDuration raw with
  | some d => if d < 0 then .error "must be a duration such as 60s, or 0s for no limit" else .ok d
  | none => .error "must be a duration such as 60s, or 0s for no limit"

/-- A duration, or the limit when that is shorter; a zero limit is no limit. -/
def capped (d limit : Duration) : Duration := if 0 < limit && limit < d then limit else d

def Read.faults {α : Type} (go : Library) (v : Read) : Except Bytes α → List Fault
  | .ok _ => []
  | .error why => [v.invalid go why]

section Signal

variable (go : Library) (vals : Setting → Read)

/-- A missing endpoint; or a malformed one, once the protocol it is read by is known. -/
def endpointFaults : List Fault :=
  if (vals .endpoint).raw = [] then [.required (vals .endpoint).name]
  else match parseProtocol (vals .protocol).raw with
    | .error _ => []
    | .ok p => (vals .endpoint).faults go (setEndpoint p (vals .endpoint).raw (vals .endpoint).perSignal)

/-- Each variable of a signal on its own, in the order they are read. -/
def parseFaults : List Fault :=
  (vals .protocol).faults go (parseProtocol (vals .protocol).raw) ++
  endpointFaults go vals ++
  (vals .insecure).faults go (parseBool (vals .insecure).raw) ++
  (vals .skipVerify).faults go (parseBool (vals .skipVerify).raw) ++
  (vals .headers).faults go ((parseHeaders (vals .headers).raw).mapError HeaderError.error) ++
  (vals .timeout).faults go (parseTimeout (vals .timeout).raw) ++
  (vals .compression).faults go (parseCompression (vals .compression).raw) ++
  (vals .queueSize).faults go (parseQueueSize (vals .queueSize).raw) ++
  (vals .retryMaxElapsed).faults go (parseRetry (vals .retryMaxElapsed).raw)

structure Parsed where
  protocol : Protocol
  parts : EndpointParts
  forcePlaintext : Bool
  skipVerify : Bool
  headers : Headers
  timeout : Duration
  compression : Compression
  queueSize : ℤ
  retryMaxElapsed : Duration

def readEndpoint (p : Protocol) : Option EndpointParts :=
  if (vals .endpoint).raw = [] then none
  else (setEndpoint p (vals .endpoint).raw (vals .endpoint).perSignal).toOption

def parsed : Option Parsed := do
  let protocol ← (parseProtocol (vals .protocol).raw).toOption
  let parts ← readEndpoint vals protocol
  let forcePlaintext ← (parseBool (vals .insecure).raw).toOption
  let skipVerify ← (parseBool (vals .skipVerify).raw).toOption
  let headers ← (parseHeaders (vals .headers).raw).toOption
  let timeout ← (parseTimeout (vals .timeout).raw).toOption
  let compression ← (parseCompression (vals .compression).raw).toOption
  let queueSize ← (parseQueueSize (vals .queueSize).raw).toOption
  let retryMaxElapsed ← (parseRetry (vals .retryMaxElapsed).raw).toOption
  some { protocol, parts, forcePlaintext, skipVerify, headers, timeout, compression, queueSize,
         retryMaxElapsed }

namespace Parsed

variable (p : Parsed)

/-- No TLS at all; over gRPC the INSECURE variable can say so too. -/
def plaintext : Bool := p.parts.plaintext || (p.protocol = .grpc && p.forcePlaintext)

/-- The rules across a signal's variables. INSECURE does not apply to HTTP, so an
inherited base value is for the gRPC signals and the signal's own is a mistake; a
base file is for the TLS signals. -/
def crossFaults (sig : Signal) : List Fault :=
  (if p.protocol = .httpProtobuf && p.forcePlaintext && !p.parts.plaintext && (vals .insecure).perSignal then
    [.insecureHTTP (vals .insecure).name (vals .endpoint).name] else []) ++
  (if decide ((vals .clientCertificate).raw = []) != decide ((vals .clientKey).raw = []) then
    [.unpaired (vals .clientCertificate).name (vals .clientKey).name] else []) ++
  (if p.plaintext then
    [vals .certificate, vals .clientCertificate, vals .clientKey].filterMap (fun v ↦
      if v.raw ≠ [] && v.perSignal then some (.tlsFilePlaintext v.name sig) else none)
  else [])

def config : ExporterConfig where
  protocol := p.protocol
  endpoint := p.parts.endpoint
  signalPath := p.parts.signalPath
  plaintext := p.plaintext
  skipVerify := !p.plaintext && p.skipVerify
  caFile := if p.plaintext then [] else (vals .certificate).raw
  clientCertFile := if p.plaintext then [] else (vals .clientCertificate).raw
  clientKeyFile := if p.plaintext then [] else (vals .clientKey).raw
  headers := p.headers
  timeout := p.timeout
  compression := p.compression
  queueSize := p.queueSize
  retryMaxElapsed := p.retryMaxElapsed
  retryInitialInterval := capped (5 * second) p.retryMaxElapsed
  retryMaxInterval := capped (30 * second) p.retryMaxElapsed

end Parsed

end Signal

structure Resolver where
  errs : List Fault := []
  faulted : Bool := false
  anyTLS : Bool := false
  anyGRPC : Bool := false

section Resolve

variable (go : Library) (lookup : Lookup)

def Resolver.fail (r : Resolver) (f : Fault) : Resolver :=
  { r with
    faulted := true
    errs := if f.error go ∈ r.errs.map (Fault.error go) then r.errs else r.errs ++ [f] }

def Resolver.signal (r : Resolver) (sig : Signal) : Resolver × Option ExporterConfig :=
  let vals := fun s ↦ value lookup s sig
  let r := (parseFaults go vals).foldl (Resolver.fail go) { r with faulted := false }
  match r.faulted, parsed vals with
  | true, _ | _, none => (r, none)
  | false, some p =>
    let r := (p.crossFaults vals sig).foldl (Resolver.fail go)
      { r with anyGRPC := r.anyGRPC || p.protocol = .grpc, anyTLS := r.anyTLS || !p.plaintext }
    (r, if r.faulted then none else some (p.config vals))

def resolveStep (s : Resolver × (Signal → Option ExporterConfig)) (sig : Signal) :
    Resolver × (Signal → Option ExporterConfig) :=
  let (r, cfg) := s.1.signal go lookup sig
  (r, if cfg = none then s.2 else Function.update s.2 sig cfg)

def insecureFaults : List Fault :=
  match lookup Setting.insecure.baseName with
  | some raw => if equalFold raw "true" then [.insecureUnused] else []
  | none => []

def tlsFileFaults : List Fault :=
  (settings.filter Setting.tlsFile).filterMap (fun s ↦
    if (nonEmpty lookup s.baseName).isSome then some (.tlsFileUnused s.baseName) else none)

/-- The configuration of each of the signals, or every fault found, each text once. -/
def resolve (sigs : List Signal) : Except (List Fault) (Signal → Option ExporterConfig) :=
  let (r, out) := sigs.foldl (resolveStep go lookup) ({}, fun _ ↦ none)
  let complete := (signals.filter (fun sig ↦ (out sig).isSome)).length = sigs.length
  let r := if complete && !r.anyGRPC then (insecureFaults lookup).foldl (Resolver.fail go) r else r
  let r := if complete && !r.anyTLS then (tlsFileFaults lookup).foldl (Resolver.fail go) r else r
  if r.errs = [] then .ok out else .error r.errs

end Resolve

section Faults

variable {go : Library}

theorem toOption_eq_some {ε α : Type} {e : Except ε α} {a : α} : e.toOption = some a ↔ e = .ok a := by
  cases e <;> simp [Except.toOption]

theorem faults_eq_nil {α : Type} {v : Read} {e : Except Bytes α} : v.faults go e = [] ↔ ∃ a, e = .ok a := by
  cases e <;> simp [Read.faults]

structure Parses (vals : Setting → Read) (p : Parsed) : Prop where
  protocol : parseProtocol (vals .protocol).raw = .ok p.protocol
  present : (vals .endpoint).raw ≠ []
  parts : setEndpoint p.protocol (vals .endpoint).raw (vals .endpoint).perSignal = .ok p.parts
  forcePlaintext : parseBool (vals .insecure).raw = .ok p.forcePlaintext
  skipVerify : parseBool (vals .skipVerify).raw = .ok p.skipVerify
  headers : parseHeaders (vals .headers).raw = .ok p.headers
  timeout : parseTimeout (vals .timeout).raw = .ok p.timeout
  compression : parseCompression (vals .compression).raw = .ok p.compression
  queueSize : parseQueueSize (vals .queueSize).raw = .ok p.queueSize
  retryMaxElapsed : parseRetry (vals .retryMaxElapsed).raw = .ok p.retryMaxElapsed

theorem parsed_eq_some {vals : Setting → Read} {p : Parsed} : parsed vals = some p ↔ Parses vals p := by
  simp only [parsed, Option.bind_eq_bind, Option.bind_eq_some_iff, toOption_eq_some, Option.some.injEq]
  constructor
  · rintro ⟨protocol, hprotocol, parts, hparts, force, hforce, skip, hskip, headers, hheaders, timeout,
      htimeout, compression, hcompression, queue, hqueue, retry, hretry, rfl⟩
    rw [readEndpoint] at hparts
    split_ifs at hparts with h
    exact ⟨hprotocol, h, toOption_eq_some.mp hparts, hforce, hskip, hheaders, htimeout,
      hcompression, hqueue, hretry⟩
  · intro h
    refine ⟨_, h.protocol, _, ?_, _, h.forcePlaintext, _, h.skipVerify, _, h.headers, _, h.timeout, _,
      h.compression, _, h.queueSize, _, h.retryMaxElapsed, rfl⟩
    rw [readEndpoint, if_neg h.present, toOption_eq_some]
    exact h.parts

theorem mapError_eq_ok {ε ε' α : Type} {f : ε → ε'} {e : Except ε α} {a : α} :
    e.mapError f = .ok a ↔ e = .ok a := by
  cases e <;> simp [Except.mapError]

theorem endpointFaults_eq_nil {vals : Setting → Read} {p : Protocol}
    (hp : parseProtocol (vals .protocol).raw = .ok p) :
    endpointFaults go vals = [] ↔ (vals .endpoint).raw ≠ [] ∧
      ∃ parts, setEndpoint p (vals .endpoint).raw (vals .endpoint).perSignal = .ok parts := by
  rw [endpointFaults]
  split_ifs with h
  · simp [h]
  · simp only [hp, faults_eq_nil]
    simp [h]

/-- A signal parses exactly when none of its variables is at fault. -/
theorem parseFaults_eq_nil {vals : Setting → Read} :
    parseFaults go vals = [] ↔ ∃ p, parsed vals = some p := by
  simp only [parsed_eq_some, parseFaults, List.append_eq_nil_iff, faults_eq_nil, mapError_eq_ok]
  constructor
  · rintro ⟨⟨⟨⟨⟨⟨⟨⟨⟨protocol, hprotocol⟩, hendpoint⟩, force, hforce⟩, skip, hskip⟩, headers, hheaders⟩,
      timeout, htimeout⟩, compression, hcompression⟩, queue, hqueue⟩, retry, hretry⟩
    obtain ⟨hne, parts, hparts⟩ := (endpointFaults_eq_nil hprotocol).mp hendpoint
    exact ⟨⟨protocol, parts, force, skip, headers, timeout, compression, queue, retry⟩, hprotocol, hne,
      hparts, hforce, hskip, hheaders, htimeout, hcompression, hqueue, hretry⟩
  · rintro ⟨p, h⟩
    refine ⟨⟨⟨⟨⟨⟨⟨⟨⟨_, h.protocol⟩, ?_⟩, _, h.forcePlaintext⟩, _, h.skipVerify⟩, _, h.headers⟩, _, h.timeout⟩,
      _, h.compression⟩, _, h.queueSize⟩, _, h.retryMaxElapsed⟩
    exact (endpointFaults_eq_nil h.protocol).mpr ⟨h.present, _, h.parts⟩

def signalFaults (go : Library) (lookup : Lookup) (sig : Signal) : List Fault :=
  match parsed (fun s ↦ value lookup s sig) with
  | none => parseFaults go (fun s ↦ value lookup s sig)
  | some p => p.crossFaults (fun s ↦ value lookup s sig) sig

def signalConfig (lookup : Lookup) (sig : Signal) : Option ExporterConfig :=
  match parsed (fun s ↦ value lookup s sig) with
  | none => none
  | some p =>
    if p.crossFaults (fun s ↦ value lookup s sig) sig = [] then
      some (p.config (fun s ↦ value lookup s sig)) else none

theorem signalFaults_eq_nil {lookup : Lookup} {sig : Signal} :
    signalFaults go lookup sig = [] ↔ (signalConfig lookup sig).isSome = true := by
  rw [signalFaults, signalConfig]
  cases hp : parsed (fun s ↦ value lookup s sig) with
  | none =>
    have hne : ¬ parseFaults go (fun s ↦ value lookup s sig) = [] := by
      rw [parseFaults_eq_nil, hp]
      simp
    simp [hne]
  | some p =>
    dsimp only
    split_ifs with h <;> simp [h]

/-- Errors with more faults recorded: nothing is lost, and no text stands twice. -/
structure Collected (go : Library) (fs : List Fault) (errs errs' : List Fault) : Prop where
  texts : ∀ t, t ∈ errs'.map (Fault.error go) ↔ t ∈ errs.map (Fault.error go) ∨ t ∈ fs.map (Fault.error go)
  mem : ∀ f ∈ errs', f ∈ errs ∨ f ∈ fs
  nodup : (errs.map (Fault.error go)).Nodup → (errs'.map (Fault.error go)).Nodup

theorem Collected.refl (errs : List Fault) : Collected go [] errs errs := ⟨by simp, fun _ hf ↦ Or.inl hf, id⟩

theorem Collected.trans {fs gs errs errs' errs'' : List Fault} (h : Collected go fs errs errs')
    (h' : Collected go gs errs' errs'') : Collected go (fs ++ gs) errs errs'' where
  texts t := by rw [h'.texts, h.texts, List.map_append, List.mem_append, or_assoc]
  mem f hf := by
    rw [List.mem_append, ← or_assoc]
    exact (h'.mem f hf).imp_left (h.mem f)
  nodup hn := h'.nodup (h.nodup hn)

theorem Collected.eq_nil_iff {fs errs : List Fault} (h : Collected go fs [] errs) : errs = [] ↔ fs = [] := by
  have ht : errs.map (Fault.error go) = [] ↔ fs.map (Fault.error go) = [] := by
    simp only [List.eq_nil_iff_forall_not_mem, h.texts, List.map_nil, List.not_mem_nil, false_or]
  simpa using ht

theorem collected_fail (r : Resolver) (f : Fault) : Collected go [f] r.errs (r.fail go f).errs := by
  rw [Resolver.fail]
  dsimp only
  split_ifs with h
  · refine ⟨?_, fun x hx ↦ Or.inl hx, id⟩
    intro t
    simp only [List.map_cons, List.map_nil, List.mem_singleton, iff_self_or]
    rintro rfl
    exact h
  · refine ⟨fun t ↦ by rw [List.map_append, List.mem_append], fun x hx ↦ List.mem_append.mp hx, ?_⟩
    intro hn
    rw [List.map_append]
    exact hn.append (List.nodup_singleton _) (List.disjoint_singleton.mpr h)

theorem collected_foldl (go : Library) (fs : List Fault) (r : Resolver) :
    Collected go fs r.errs (fs.foldl (Resolver.fail go) r).errs := by
  induction fs generalizing r with
  | nil => exact Collected.refl r.errs
  | cons f fs ih => exact (collected_fail r f).trans (ih (r.fail go f))

@[simp] theorem faulted_foldl (fs : List Fault) (r : Resolver) :
    (fs.foldl (Resolver.fail go) r).faulted = (r.faulted || !fs.isEmpty) := by
  induction fs generalizing r with
  | nil => simp
  | cons f fs ih => simp [ih, Resolver.fail]

@[simp] theorem anyTLS_foldl (fs : List Fault) (r : Resolver) :
    (fs.foldl (Resolver.fail go) r).anyTLS = r.anyTLS := by
  induction fs generalizing r with
  | nil => rfl
  | cons f fs ih => rw [List.foldl_cons, ih, Resolver.fail]

@[simp] theorem anyGRPC_foldl (fs : List Fault) (r : Resolver) :
    (fs.foldl (Resolver.fail go) r).anyGRPC = r.anyGRPC := by
  induction fs generalizing r with
  | nil => rfl
  | cons f fs ih => rw [List.foldl_cons, ih, Resolver.fail]

end Faults

section Runs

variable {go : Library} {lookup : Lookup}

def usesGRPC (lookup : Lookup) (sig : Signal) : Bool :=
  ((parsed (fun s ↦ value lookup s sig)).map (fun p ↦ decide (p.protocol = .grpc))).getD false

def usesTLS (lookup : Lookup) (sig : Signal) : Bool :=
  ((parsed (fun s ↦ value lookup s sig)).map (fun p ↦ !p.plaintext)).getD false

theorem signal_none {sig : Signal} (hp : parsed (fun s ↦ value lookup s sig) = none) (r : Resolver) :
    r.signal go lookup sig =
      ((parseFaults go (fun s ↦ value lookup s sig)).foldl (Resolver.fail go)
        { r with faulted := false }, none) := by
  simp only [Resolver.signal, hp]
  split <;> simp_all

theorem signal_some {sig : Signal} {p : Parsed} (hp : parsed (fun s ↦ value lookup s sig) = some p)
    (r : Resolver) :
    r.signal go lookup sig =
      ((p.crossFaults (fun s ↦ value lookup s sig) sig).foldl (Resolver.fail go)
        ⟨r.errs, false, r.anyTLS || !p.plaintext, r.anyGRPC || p.protocol = .grpc⟩,
          signalConfig lookup sig) := by
  have hnil : parseFaults go (fun s ↦ value lookup s sig) = [] := parseFaults_eq_nil.mpr ⟨p, hp⟩
  simp only [Resolver.signal, signalConfig, hp, hnil, List.foldl_nil, faulted_foldl]
  cases p.crossFaults (fun s ↦ value lookup s sig) sig <;> rfl

/-- One signal's turn: its own configuration and faults, whatever was resolved before it. -/
theorem signal_spec (go : Library) (lookup : Lookup) (r : Resolver) (sig : Signal) :
    (r.signal go lookup sig).2 = signalConfig lookup sig ∧
    Collected go (signalFaults go lookup sig) r.errs (r.signal go lookup sig).1.errs ∧
    (r.signal go lookup sig).1.anyGRPC = (r.anyGRPC || usesGRPC lookup sig) ∧
    (r.signal go lookup sig).1.anyTLS = (r.anyTLS || usesTLS lookup sig) := by
  cases hp : parsed (fun s ↦ value lookup s sig) with
  | none =>
    rw [signal_none hp, signalConfig, signalFaults, usesGRPC, usesTLS, hp]
    exact ⟨rfl, collected_foldl go _ { r with faulted := false }, by simp, by simp⟩
  | some p =>
    rw [signal_some hp, signalFaults, usesGRPC, usesTLS, hp]
    exact ⟨rfl, collected_foldl go _ ⟨r.errs, false, _, _⟩, by simp, by simp⟩

theorem resolveStep_fst (go : Library) (lookup : Lookup) (s : Resolver × (Signal → Option ExporterConfig))
    (sig : Signal) :
    (resolveStep go lookup s sig).1 = (s.1.signal go lookup sig).1 := rfl

/-- The signals' turns taken together, in the order of the list. -/
theorem foldl_spec (go : Library) (lookup : Lookup) (sigs : List Signal)
    (s : Resolver × (Signal → Option ExporterConfig)) :
    (∀ sig, (sigs.foldl (resolveStep go lookup) s).2 sig =
      if sig ∈ sigs ∧ (signalConfig lookup sig).isSome then signalConfig lookup sig else s.2 sig) ∧
    Collected go (sigs.flatMap (signalFaults go lookup)) s.1.errs
      (sigs.foldl (resolveStep go lookup) s).1.errs ∧
    (sigs.foldl (resolveStep go lookup) s).1.anyGRPC = (s.1.anyGRPC || sigs.any (usesGRPC lookup)) ∧
    (sigs.foldl (resolveStep go lookup) s).1.anyTLS = (s.1.anyTLS || sigs.any (usesTLS lookup)) := by
  induction sigs generalizing s with
  | nil => exact ⟨by simp, Collected.refl _, by simp, by simp⟩
  | cons x sigs ih =>
    obtain ⟨hcfg, hcollected, hgrpc, htls⟩ := signal_spec go lookup s.1 x
    obtain ⟨ihcfg, ihcollected, ihgrpc, ihtls⟩ := ih (resolveStep go lookup s x)
    rw [resolveStep_fst] at ihcollected ihgrpc ihtls
    rw [List.foldl_cons, List.flatMap_cons]
    refine ⟨?_, hcollected.trans ihcollected, ?_, ?_⟩
    · intro sig
      rw [ihcfg]
      simp only [resolveStep, hcfg]
      by_cases hx : sig = x
      · subst hx
        cases signalConfig lookup sig <;> simp
      · have hne : (if signalConfig lookup x = none then s.2
            else Function.update s.2 x (signalConfig lookup x)) sig = s.2 sig := by
          split_ifs
          · rfl
          · exact Function.update_of_ne hx _ _
        simp [hne, hx]
    · rw [ihgrpc, List.any_cons, ← Bool.or_assoc, hgrpc]
    · rw [ihtls, List.any_cons, ← Bool.or_assoc, htls]

/-- Everything at fault for a list of signals. INSECURE and the TLS files are
judged only once every signal has a configuration. -/
def allFaults (go : Library) (lookup : Lookup) (sigs : List Signal) : List Fault :=
  let complete := sigs.all (fun sig ↦ (signalConfig lookup sig).isSome)
  sigs.flatMap (signalFaults go lookup) ++
  (if complete && !sigs.any (usesGRPC lookup) then insecureFaults lookup else []) ++
  (if complete && !sigs.any (usesTLS lookup) then tlsFileFaults lookup else [])

def resolvedMap (lookup : Lookup) (sigs : List Signal) (sig : Signal) : Option ExporterConfig :=
  if sig ∈ sigs then signalConfig lookup sig else none

theorem nodup_signals : signals.Nodup := by decide

theorem complete_iff {sigs : List Signal} (hn : sigs.Nodup) :
    (signals.filter (fun sig ↦ (resolvedMap lookup sigs sig).isSome)).length = sigs.length ↔
      sigs.all (fun sig ↦ (signalConfig lookup sig).isSome) = true := by
  have hmem : ∀ sig, sig ∈ signals.filter (fun sig ↦ (resolvedMap lookup sigs sig).isSome) ↔
      sig ∈ sigs ∧ (signalConfig lookup sig).isSome = true := by
    intro sig
    rw [List.mem_filter, resolvedMap]
    by_cases h : sig ∈ sigs <;> simp [h, mem_signals]
  have hnodup : (signals.filter (fun sig ↦ (resolvedMap lookup sigs sig).isSome)).Nodup :=
    nodup_signals.filter _
  rw [List.all_eq_true]
  constructor
  · intro hlen sig hsig
    have hsub := List.subperm_of_subset hnodup (fun x hx ↦ ((hmem x).mp hx).1)
    exact ((hmem sig).mp ((hsub.perm_of_length_le hlen.ge).mem_iff.mpr hsig)).2
  · intro hall
    apply List.Perm.length_eq
    rw [List.perm_ext_iff_of_nodup hnodup hn]
    exact fun sig ↦ (hmem sig).trans ⟨And.left, fun h ↦ ⟨h, hall sig h⟩⟩

theorem foldl_fail_if (c : Bool) (fs : List Fault) (r : Resolver) :
    (if c then fs.foldl (Resolver.fail go) r else r) = (if c then fs else []).foldl (Resolver.fail go) r := by
  cases c <;> rfl

/-- What Resolve returns, in terms of each signal alone. -/
theorem resolve_spec (go : Library) (lookup : Lookup) {sigs : List Signal} (hn : sigs.Nodup) :
    (resolve go lookup sigs = .ok (resolvedMap lookup sigs) ∧ allFaults go lookup sigs = []) ∨
    ∃ errs, resolve go lookup sigs = .error errs ∧ allFaults go lookup sigs ≠ [] ∧
      Collected go (allFaults go lookup sigs) [] errs := by
  obtain ⟨hout, hcollected, hgrpc, htls⟩ := foldl_spec go lookup sigs ({}, fun _ ↦ none)
  have hmap : (sigs.foldl (resolveStep go lookup) ({}, fun _ ↦ none)).2 = resolvedMap lookup sigs := by
    funext sig
    rw [hout, resolvedMap]
    by_cases h : sig ∈ sigs <;> cases signalConfig lookup sig <;> simp [h]
  generalize hs : sigs.foldl (resolveStep go lookup) ({}, fun _ ↦ none) = s at hcollected hgrpc htls hmap
  have hcomplete : decide ((signals.filter (fun sig ↦ (resolvedMap lookup sigs sig).isSome)).length =
    sigs.length) =
      sigs.all (fun sig ↦ (signalConfig lookup sig).isSome) := by
    rw [Bool.eq_iff_iff, decide_eq_true_iff]
    exact complete_iff hn
  let insecure := if sigs.all (fun sig ↦ (signalConfig lookup sig).isSome) && !sigs.any (usesGRPC lookup) then
    insecureFaults lookup else []
  let files := if sigs.all (fun sig ↦ (signalConfig lookup sig).isSome) && !sigs.any (usesTLS lookup) then
    tlsFileFaults lookup else []
  let errs := (files.foldl (Resolver.fail go) (insecure.foldl (Resolver.fail go) s.1)).errs
  have hall : Collected go (allFaults go lookup sigs) [] errs :=
    (hcollected.trans (collected_foldl go insecure s.1)).trans (collected_foldl go files _)
  have hres : resolve go lookup sigs = if errs = [] then .ok (resolvedMap lookup sigs) else .error errs := by
    simp only [resolve, hs, hcomplete, foldl_fail_if, anyTLS_foldl, hgrpc, htls, Bool.false_or, hmap]
    rfl
  by_cases h : allFaults go lookup sigs = []
  · exact Or.inl ⟨hres.trans (if_pos (hall.eq_nil_iff.mpr h)), h⟩
  · exact Or.inr ⟨errs, hres.trans (if_neg (fun he ↦ h (hall.eq_nil_iff.mp he))), h, hall⟩

theorem resolve_ok {go : Library} {sigs : List Signal} (hn : sigs.Nodup) {m : Signal → Option ExporterConfig}
    (h : resolve go lookup sigs = .ok m) : m = resolvedMap lookup sigs ∧ allFaults go lookup sigs = [] := by
  obtain ⟨hok, hf⟩ | ⟨errs, herr, _⟩ := resolve_spec go lookup hn
  · exact ⟨Except.ok.inj (h.symm.trans hok), hf⟩
  · cases h.symm.trans herr

theorem resolve_error {go : Library} {sigs : List Signal} (hn : sigs.Nodup) {errs : List Fault}
    (h : resolve go lookup sigs = .error errs) :
    allFaults go lookup sigs ≠ [] ∧ Collected go (allFaults go lookup sigs) [] errs := by
  obtain ⟨hok, _⟩ | ⟨errs', herr, hf, hc⟩ := resolve_spec go lookup hn
  · cases h.symm.trans hok
  · cases h.symm.trans herr
    exact ⟨hf, hc⟩

theorem signalConfig_of_ok {sigs : List Signal} (hf : allFaults go lookup sigs = []) {sig : Signal}
    (hsig : sig ∈ sigs) :
    ∃ cfg, signalConfig lookup sig = some cfg := by
  have hnil :=
    List.flatMap_eq_nil_iff.mp (List.append_eq_nil_iff.mp (List.append_eq_nil_iff.mp hf).1).1 sig hsig
  exact Option.isSome_iff_exists.mp (signalFaults_eq_nil.mp hnil)

/-- The same outcome, the order of the errors apart. -/
def Alike (go : Library) :
    Except (List Fault) (Signal → Option ExporterConfig) →
      Except (List Fault) (Signal → Option ExporterConfig) → Prop
  | .ok m, .ok m' => m = m'
  | .error errs, .error errs' => ∀ t, t ∈ errs.map (Fault.error go) ↔ t ∈ errs'.map (Fault.error go)
  | _, _ => False

theorem alike_of_faults {go : Library} {lookup lookup' : Lookup} {sigs sigs' : List Signal} (hn : sigs.Nodup)
    (hn' : sigs'.Nodup) (hm : resolvedMap lookup sigs = resolvedMap lookup' sigs')
    (hf : ∀ f, f ∈ allFaults go lookup sigs ↔ f ∈ allFaults go lookup' sigs') :
    Alike go (resolve go lookup sigs) (resolve go lookup' sigs') := by
  have hnil : allFaults go lookup sigs = [] ↔ allFaults go lookup' sigs' = [] := by
    simp only [List.eq_nil_iff_forall_not_mem, hf]
  obtain ⟨hok, h⟩ | ⟨errs, herr, h, hc⟩ := resolve_spec go lookup hn
  · obtain ⟨hok', _⟩ | ⟨_, _, h', _⟩ := resolve_spec go lookup' hn'
    · rw [hok, hok']
      exact hm
    · exact absurd (hnil.mp h) h'
  · obtain ⟨_, h'⟩ | ⟨errs', herr', _, hc'⟩ := resolve_spec go lookup' hn'
    · exact absurd (hnil.mpr h') h
    · rw [herr, herr']
      intro t
      simp only [hc.texts, hc'.texts, List.map_nil, List.not_mem_nil, false_or, List.mem_map, hf]

theorem allFaults_perm {sigs sigs' : List Signal} (h : sigs.Perm sigs') (f : Fault) :
    f ∈ allFaults go lookup sigs ↔ f ∈ allFaults go lookup sigs' := by
  have hall (p : Signal → Bool) : sigs.all p = sigs'.all p := by
    rw [Bool.eq_iff_iff, List.all_eq_true, List.all_eq_true]
    simp only [h.mem_iff]
  have hany (p : Signal → Bool) : sigs.any p = sigs'.any p := by
    rw [Bool.eq_iff_iff, List.any_eq_true, List.any_eq_true]
    simp only [h.mem_iff]
  simp only [allFaults, List.mem_append, List.mem_flatMap, h.mem_iff, hall, hany]

/-- A signal's own variable is no base variable and no other signal's. -/
theorem signalName_ne : ∀ s ∈ settings, s.perSignal = true → ∀ sig ∈ signals, ∀ s' ∈ settings,
    s'.baseName ≠ s.signalName sig ∧ ∀ sig' ∈ signals, sig' ≠ sig →
      s'.signalName sig' ≠ s.signalName sig := by
  decide +kernel

theorem mem_settings (s : Setting) : s ∈ settings := by cases s <;> decide

theorem resolve_reads (go : Library) {sigs : List Signal} {lookup lookup' : Lookup}
    (hbase : ∀ s : Setting, lookup s.baseName = lookup' s.baseName)
    (hown : ∀ s : Setting, ∀ sig ∈ sigs, lookup (s.signalName sig) = lookup' (s.signalName sig)) :
    resolvedMap lookup sigs = resolvedMap lookup' sigs ∧
      allFaults go lookup sigs = allFaults go lookup' sigs := by
  have hvalue : ∀ sig ∈ sigs, (fun s ↦ value lookup s sig) = fun s ↦ value lookup' s sig := by
    intro sig hsig
    funext s
    rw [value, value, baseValue, baseValue, nonEmpty, nonEmpty, nonEmpty, nonEmpty, hbase s, hown s sig hsig]
  have hconfig : ∀ sig ∈ sigs, signalConfig lookup sig = signalConfig lookup' sig := by
    intro sig hsig
    rw [signalConfig, signalConfig, hvalue sig hsig]
  have hfaults : ∀ sig ∈ sigs, signalFaults go lookup sig = signalFaults go lookup' sig := by
    intro sig hsig
    rw [signalFaults, signalFaults, hvalue sig hsig]
  have hall : sigs.all (fun sig ↦ (signalConfig lookup sig).isSome) =
      sigs.all (fun sig ↦ (signalConfig lookup' sig).isSome) := by
    rw [Bool.eq_iff_iff, List.all_eq_true, List.all_eq_true]
    exact forall₂_congr (fun sig hsig ↦ by rw [hconfig sig hsig])
  have hgrpc : sigs.any (usesGRPC lookup) = sigs.any (usesGRPC lookup') := by
    rw [Bool.eq_iff_iff, List.any_eq_true, List.any_eq_true]
    exact exists_congr (fun sig ↦ and_congr_right (fun hsig ↦ by rw [usesGRPC, usesGRPC, hvalue sig hsig]))
  have htls : sigs.any (usesTLS lookup) = sigs.any (usesTLS lookup') := by
    rw [Bool.eq_iff_iff, List.any_eq_true, List.any_eq_true]
    exact exists_congr (fun sig ↦ and_congr_right (fun hsig ↦ by rw [usesTLS, usesTLS, hvalue sig hsig]))
  have hinsecure : insecureFaults lookup = insecureFaults lookup' := by
    rw [insecureFaults, insecureFaults, hbase]
  have hfiles : tlsFileFaults lookup = tlsFileFaults lookup' := by
    have hs (s : Setting) : nonEmpty lookup s.baseName = nonEmpty lookup' s.baseName := by
      rw [nonEmpty, nonEmpty, hbase]
    exact congrArg (List.filterMap · _) (funext (fun s ↦ by rw [hs]))
  refine ⟨?_, ?_⟩
  · funext sig
    rw [resolvedMap, resolvedMap]
    split_ifs with hsig
    · exact hconfig sig hsig
    · rfl
  · rw [allFaults, allFaults, hall, hgrpc, htls, hinsecure, hfiles, List.flatMap_congr hfaults]

/-- Signals with no variable of their own are configured by the base variables alone. -/
theorem value_of_unset {lookup : Lookup} {sig : Signal}
    (h : ∀ s : Setting, s.perSignal = true → nonEmpty lookup (s.signalName sig) = none) (s : Setting) :
    value lookup s sig = baseValue lookup s := by
  rw [value]
  split_ifs with hs
  · rw [h s hs]
  · rfl

theorem signalConfig_of_unset {lookup : Lookup} {sig sig' : Signal} {cfg cfg' : ExporterConfig}
    (h : ∀ s : Setting, s.perSignal = true → nonEmpty lookup (s.signalName sig) = none)
    (h' : ∀ s : Setting, s.perSignal = true → nonEmpty lookup (s.signalName sig') = none)
    (hcfg : signalConfig lookup sig = some cfg) (hcfg' : signalConfig lookup sig' = some cfg') :
    cfg = cfg' := by
  rw [signalConfig, funext (value_of_unset h)] at hcfg
  rw [signalConfig, funext (value_of_unset h')] at hcfg'
  cases hp : parsed (baseValue lookup) with
  | none => simp [hp] at hcfg
  | some p =>
    simp only [hp, Option.ite_none_right_eq_some, Option.some.injEq] at hcfg hcfg'
    exact hcfg.2.symm.trans hcfg'.2

end Runs

/-- Resolve treats signals alike and each alone: neither the order of the list nor
another signal's variables matter, a signal's configuration is the same in every list,
and signals with no variable of their own share one. -/
theorem resolve_independent (go : Library) (lookup : Lookup) (sigs : List Signal) (hn : sigs.Nodup) :
    (∀ sigs', sigs.Perm sigs' → Alike go (resolve go lookup sigs) (resolve go lookup sigs')) ∧
    (∀ lookup' : Lookup, (∀ name, lookup name ≠ lookup' name →
        ∃ s : Setting, s.perSignal = true ∧ ∃ sig, sig ∉ sigs ∧ name = s.signalName sig) →
      Alike go (resolve go lookup sigs) (resolve go lookup' sigs)) ∧
    (∀ sigs' m m', sigs'.Nodup → resolve go lookup sigs = .ok m → resolve go lookup sigs' = .ok m' →
      ∀ sig ∈ sigs, sig ∈ sigs' → ∃ cfg, m sig = some cfg ∧ m' sig = some cfg) ∧
    ∀ m, resolve go lookup sigs = .ok m → ∀ sig ∈ sigs, ∀ sig' ∈ sigs,
      (∀ s : Setting, s.perSignal = true → nonEmpty lookup (s.signalName sig) = none) →
      (∀ s : Setting, s.perSignal = true → nonEmpty lookup (s.signalName sig') = none) →
      ∃ cfg, m sig = some cfg ∧ m sig' = some cfg := by
  refine ⟨?_, ?_, ?_, ?_⟩
  · intro sigs' hperm
    refine alike_of_faults hn (hperm.nodup_iff.mp hn) ?_ (allFaults_perm hperm)
    funext sig
    simp only [resolvedMap, hperm.mem_iff]
  · intro lookup' hother
    have hbase (s : Setting) : lookup s.baseName = lookup' s.baseName := by
      by_contra hne
      obtain ⟨s', hs', sig, _, he⟩ := hother _ hne
      exact (signalName_ne s' (mem_settings s') hs' sig (mem_signals sig) s (mem_settings s)).1 he
    have hown : ∀ s : Setting, ∀ sig ∈ sigs, lookup (s.signalName sig) = lookup' (s.signalName sig) := by
      intro s sig hsig
      by_contra hne
      obtain ⟨s', hs', sig', hsig', he⟩ := hother _ hne
      exact (signalName_ne s' (mem_settings s') hs' sig' (mem_signals sig') s (mem_settings s)).2 sig
        (mem_signals sig)
        (fun h ↦ hsig' (h ▸ hsig)) he
    obtain ⟨hm, hf⟩ := resolve_reads go hbase hown
    exact alike_of_faults hn hn hm (fun f ↦ by rw [hf])
  · intro sigs' m m' hn' hm hm' sig hsig hsig'
    obtain ⟨rfl, hf⟩ := resolve_ok hn hm
    obtain ⟨rfl, _⟩ := resolve_ok hn' hm'
    obtain ⟨cfg, hcfg⟩ := signalConfig_of_ok hf hsig
    exact ⟨cfg, by rw [resolvedMap, if_pos hsig, hcfg], by rw [resolvedMap, if_pos hsig', hcfg]⟩
  · intro m hm sig hsig sig' hsig' hu hu'
    obtain ⟨rfl, hf⟩ := resolve_ok hn hm
    obtain ⟨cfg, hcfg⟩ := signalConfig_of_ok hf hsig
    obtain ⟨cfg', hcfg'⟩ := signalConfig_of_ok hf hsig'
    have he := signalConfig_of_unset hu hu' hcfg hcfg'
    exact ⟨cfg, by rw [resolvedMap, if_pos hsig, hcfg], by rw [resolvedMap, if_pos hsig', hcfg', he]⟩

def exampleLibrary : Library := ⟨fun v ↦ v, fun v ↦ v, fun _ ↦ none, fun _ ↦ false, rfl, rfl⟩

def exampleLookup : Lookup := fun name ↦
  if name = ofString "OTEL_EXPORTER_OTLP_ENDPOINT" then some "http://collector:4317"
  else if name = ofString "OTEL_EXPORTER_OTLP_LOGS_HEADERS" then some "authorization=Bearer%20t"
  else none

theorem traces_and_metrics_share_upstream :
    Alike exampleLibrary (resolve exampleLibrary exampleLookup signals)
      (resolve exampleLibrary exampleLookup [.metrics, .logs, .traces]) ∧
    ∃ m cfg, resolve exampleLibrary exampleLookup signals = .ok m ∧ m .traces = some cfg ∧
      m .metrics = some cfg := by
  obtain ⟨hperm, _, _, hshared⟩ := resolve_independent exampleLibrary exampleLookup signals (by decide)
  refine ⟨hperm _ (by decide), ?_⟩
  have hok : (resolve exampleLibrary exampleLookup signals).toOption.isSome = true := by decide +kernel
  obtain ⟨m, hm⟩ := Option.isSome_iff_exists.mp hok
  have hm' := toOption_eq_some.mp hm
  obtain ⟨cfg, hcfg⟩ := hshared m hm' .traces (by decide) .metrics (by decide)
    (by intro s _; cases s <;> decide) (by intro s _; cases s <;> decide)
  exact ⟨m, cfg, hm', hcfg⟩

end OtlpCollectorOidc.Upstream

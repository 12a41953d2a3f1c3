import OtlpCollectorOidc.Render.Document

namespace OtlpCollectorOidc.Render

open Text Number Upstream

structure Sender where
  protocol : Bytes
  url : Bytes
  plaintext : Bool
  caFile : Bytes
  clientCertFile : Bytes
  clientKeyFile : Bytes
  skipVerify : Bool
  headers : List Header
  compression : Bytes
  timeout : Duration

def signalURL (base : Bytes) (sig : Signal) : Bytes :=
  (if base.getLast? = some 0x2F then base else base ++ [0x2F]) ++ ofString "v1/" ++ sig.string

def grpcURL (plaintext : Bool) (endpoint : Bytes) : Bytes :=
  (if plaintext then ofString "http://" else ofString "https://") ++ endpoint

/-- The address a rendered exporter sends a signal to. otlp_grpc dials its endpoint,
with TLS or without; otlp_http takes the signal's own URL as it stands. -/
def Exporter.url (e : Exporter) (sig : Signal) : Option Bytes :=
  match e.config.protocol with
  | .grpc =>
    (e.endpoints.find? (fun x ↦ x.key = ofString "endpoint")).map (fun x ↦ grpcURL e.config.plaintext x.value)
  | .httpProtobuf =>
    match e.endpoints.find? (fun x ↦ x.key = endpointKey sig) with
    | some x => some x.value
    | none => (e.endpoints.find? (fun x ↦ x.key = ofString "endpoint")).map (fun x ↦ signalURL x.value sig)

def Exporter.sender (e : Exporter) (sig : Signal) : Option Sender :=
  (e.url sig).map (fun url ↦ {
    protocol := e.config.protocol.string
    url := url
    plaintext := e.config.plaintext
    caFile := if e.config.plaintext then [] else e.config.caFile
    clientCertFile := if e.config.plaintext then [] else e.config.clientCertFile
    clientKeyFile := if e.config.plaintext then [] else e.config.clientKeyFile
    skipVerify := !e.config.plaintext && e.config.skipVerify
    headers := e.headers
    compression := e.config.compression.string
    timeout := e.config.timeout })

def OtlpExporter.sender (e : OtlpExporter) : Sender where
  protocol := e.protocol
  url := e.endpoint
  plaintext := Url.schemeOf e.endpoint = ofString "http"
  caFile := e.certificate
  clientCertFile := e.clientCertificate
  clientKeyFile := e.clientKey
  skipVerify := false
  headers := e.headers
  compression := e.compression
  timeout := e.timeout * 10 ^ 6

theorem trimSuffix_slash (base : Bytes) :
    trimSuffix [0x2F] base ++ [0x2F] = if base.getLast? = some 0x2F then base else base ++ [0x2F] := by
  split_ifs with h
  · obtain ⟨init, rfl⟩ := List.getLast?_eq_some_iff.mp h
    rw [trimSuffix_append]
  · have hn : ¬ [0x2F] <:+ base := by
      rintro ⟨init, rfl⟩
      simp at h
    rw [trimSuffix, if_neg (by rwa [List.isSuffixOf_iff_suffix])]

theorem signalURL_logs (base : Bytes) :
    trimSuffix "/" base ++ ofString "/v1/logs" = signalURL base .logs := by
  rw [signalURL, ← trimSuffix_slash, List.append_assoc, List.append_assoc]
  rfl

/-- The logs exporter's address is the one the SDK is given. -/
theorem url_exporter (u : UpstreamSettings) (cfg : ExporterConfig) {sigs : List Signal} (h : .logs ∈ sigs) :
    (u.exporter cfg sigs).url .logs = some (selfLogsExporter cfg).endpoint := by
  have hends : (u.exporter cfg sigs).endpoints = endpoints cfg sigs := rfl
  have hcfg : (u.exporter cfg sigs).config = cfg := rfl
  rw [Exporter.url, hends, hcfg, selfLogsExporter]
  cases hp : cfg.protocol with
  | grpc => simp [endpoints, hp, grpcURL]
  | httpProtobuf =>
    by_cases hs : cfg.signalPath = true
    · have hne : ofString "endpoint" ≠ endpointKey .logs := (endpointKey_ne .logs).symm
      simp [endpoints, hs, hne, signalURL_logs]
    · have hb : ¬ (cfg.protocol = .grpc || cfg.signalPath) = true := by simp [hp, hs]
      simp [find_endpointKey hb h, hs]

theorem isScheme_http : Url.IsScheme "http" := ⟨⟨_, _, rfl, rfl⟩, List.all_eq_true.mp (by decide)⟩

theorem isScheme_https : Url.IsScheme "https" := ⟨⟨_, _, rfl, rfl⟩, List.all_eq_true.mp (by decide)⟩

theorem schemeOf_grpcURL (plaintext : Bool) (endpoint : Bytes) :
    Url.schemeOf (grpcURL plaintext endpoint) = if plaintext then ofString "http" else ofString "https" := by
  cases plaintext with
  | true => exact Url.schemeOf_append isScheme_http (ofString "//" ++ endpoint)
  | false => exact Url.schemeOf_append isScheme_https (ofString "//" ++ endpoint)

/-- Appending a path to an address keeps its scheme. -/
theorem schemeOf_signalURL {s : Bytes} (hs : Url.IsScheme s) (rest : Bytes) (sig : Signal) :
    Url.schemeOf (signalURL (s ++ 0x3A :: rest) sig) = toLower s := by
  rw [signalURL]
  split_ifs
  · rw [List.append_assoc, List.append_assoc, List.cons_append]
    exact Url.schemeOf_append hs _
  · rw [List.append_assoc, List.append_assoc, List.append_assoc, List.cons_append]
    exact Url.schemeOf_append hs _

/-- An HTTP endpoint is kept as it is written, and its scheme says whether it is plaintext. -/
theorem scheme_of_setEndpoint {raw : Bytes} {perSignal : Bool} {parts : EndpointParts}
    (h : setEndpoint .httpProtobuf raw perSignal = .ok parts) :
    ∃ s rest, Url.IsScheme s ∧ parts.endpoint = s ++ 0x3A :: rest ∧
      parts.plaintext = decide (toLower s = ofString "http") := by
  unfold setEndpoint at h
  dsimp only at h
  split at h
  · cases h
  · rename_i u hu
    split_ifs at h with hscheme
    have hne : u.scheme ≠ [] := by
      intro he
      rw [he] at hscheme
      exact hscheme (Bool.or_eq_true_iff.mpr (Or.inl (by decide)))
    obtain ⟨s, rest, hs, hraw, hlower⟩ := Url.scheme_of_parse hu hne
    cases h
    exact ⟨s, rest, hs, hraw, by simp only [hlower]⟩

/-- The scheme of the address the SDK is given says what the configuration does. -/
theorem plaintext_selfLogsExporter {vals : Setting → Read} {p : Parsed} (hp : Parses vals p) :
    decide (Url.schemeOf (selfLogsExporter (p.config vals)).endpoint = ofString "http") =
      (p.config vals).plaintext := by
  have hparts := hp.parts
  cases hprotocol : p.protocol with
  | grpc =>
    have hurl : (selfLogsExporter (p.config vals)).endpoint = grpcURL p.plaintext p.parts.endpoint := by
      simp [selfLogsExporter, Parsed.config, hprotocol, grpcURL]
    simp only [hurl, schemeOf_grpcURL]
    change _ = p.plaintext
    cases p.plaintext <;> decide
  | httpProtobuf =>
    rw [hprotocol] at hparts
    obtain ⟨s, rest, hs, hend, hplain⟩ := scheme_of_setEndpoint hparts
    have hconfig : (p.config vals).plaintext = p.parts.plaintext := by
      simp [Parsed.config, Parsed.plaintext, hprotocol]
    have hscheme : Url.schemeOf (selfLogsExporter (p.config vals)).endpoint = toLower s := by
      by_cases hpath : p.parts.signalPath = true
      · have hurl : (selfLogsExporter (p.config vals)).endpoint = signalURL (s ++ 0x3A :: rest) .logs := by
          simp [selfLogsExporter, Parsed.config, hprotocol, hpath, signalURL_logs, hend]
        rw [hurl, schemeOf_signalURL hs]
      · have hurl : (selfLogsExporter (p.config vals)).endpoint = s ++ 0x3A :: rest := by
          simp [selfLogsExporter, Parsed.config, hprotocol, hpath, hend]
        rw [hurl, Url.schemeOf_append hs]
    rw [hconfig, hplain]
    simp only [hscheme]

/-- A timeout is a whole number of milliseconds. -/
theorem timeout_parseTimeout {raw : Bytes} {d : Duration} (h : parseTimeout raw = .ok d) :
    d.tdiv (10 ^ 6) * 10 ^ 6 = d := by
  unfold parseTimeout at h
  split at h
  · rename_i ms _
    split_ifs at h
    cases h
    rw [Int.mul_tdiv_cancel _ (by norm_num)]
  · cases h

theorem upstream_of_ne_stdout {o : LogOutput} (h : o ≠ .stdout) : o.upstream = true := by
  cases o with
  | both => rfl
  | otlp => rfl
  | stdout => exact absurd rfl h

/-- The process's own logs go exactly where client logs go: the exporter the SDK is
given and the one the logs pipeline names send alike, and neither skips verification. -/
theorem own_logs_follow_client_logs (go : Library) (lookup : Lookup) (s : Settings)
    (hload : (load go lookup).value = some s) (hout : s.own.output ≠ .stdout) :
    ∃ e own, e ∈ s.upstream.exporters ∧ s.upstream.exporterFor "logs" = .ok e.id ∧
      s.selfLogProcessors = some own ∧ e.sender .logs = some own.sender ∧ own.sender.skipVerify = false := by
  have hl := loaded_of_load hload
  obtain ⟨cfg, hcfg, _⟩ := hl.signalConfig .logs
  obtain ⟨p, hp, hpcfg⟩ := hl.parses hcfg
  have hup := upstream_of_ne_stdout hout
  have hlogs : s.upstream.logs = some cfg := hcfg
  have hskip : (!cfg.plaintext && cfg.skipVerify) = false := by
    have hrules := hl.rules
    simp only [Settings.validate, hup, if_true, hlogs] at hrules
    split_ifs at hrules with hc
    exact Bool.eq_false_iff.mpr hc
  have hplain : decide (Url.schemeOf (selfLogsExporter cfg).endpoint = ofString "http") = cfg.plaintext := by
    rw [hpcfg]
    exact plaintext_selfLogsExporter hp
  have htimeout : cfg.timeout.tdiv (10 ^ 6) * 10 ^ 6 = cfg.timeout := by
    rw [hpcfg]
    exact timeout_parseTimeout hp.timeout
  refine ⟨(s.upstream.exporter cfg (s.upstream.served cfg)).toExporter, selfLogsExporter cfg,
    List.mem_map_of_mem (mem_all.mpr ⟨.logs, cfg, hcfg, rfl⟩), exporterFor_eq hcfg, ?_, ?_, rfl⟩
  · rw [Settings.selfLogProcessors, if_pos hup, hlogs]
    rfl
  · rw [Exporter.sender, url_exporter s.upstream cfg (mem_served.mpr hcfg), Option.map_some,
      OtlpExporter.sender, hplain]
    change some (Sender.mk cfg.protocol.string _ cfg.plaintext _ _ _ (!cfg.plaintext &&
      cfg.skipVerify) _ _ cfg.timeout) =
      some (Sender.mk _ _ _ _ _ _ _ _ _ (cfg.timeout.tdiv (10 ^ 6) * 10 ^ 6))
    rw [hskip, htimeout]
    rfl

def slashLookup : Lookup :=
  environment [("OTEL_EXPORTER_OTLP_PROTOCOL", "http/protobuf"),
    ("OTEL_EXPORTER_OTLP_ENDPOINT", "https://collector/otlp/"),
      ("OTEL_EXPORTER_OTLP_HEADERS", "authorization=a")]

theorem slash_logs_follow_client_logs : ∃ s e own, (load exampleLibrary slashLookup).value = some s ∧
    e ∈ s.upstream.exporters ∧ s.selfLogProcessors = some own ∧ e.sender .logs = some own.sender ∧
    own.endpoint = ofString "https://collector/otlp/v1/logs" := by
  obtain ⟨s, hs, hown⟩ :=
    Option.map_eq_some_iff.mp (by decide +kernel : (load exampleLibrary slashLookup).value.map
    (fun s ↦ (s.own.output, s.selfLogProcessors.map OtlpExporter.endpoint)) =
      some (.both, some (ofString "https://collector/otlp/v1/logs")))
  simp only [Prod.mk.injEq] at hown
  obtain ⟨hout, hend⟩ := hown
  obtain ⟨e, own, he, _, hself, hsender, _⟩ :=
    own_logs_follow_client_logs exampleLibrary slashLookup s hs (by rw [hout]; decide)
  rw [hself] at hend
  exact ⟨s, e, own, hs, he, hself, hsender, Option.some.inj hend⟩

end OtlpCollectorOidc.Render

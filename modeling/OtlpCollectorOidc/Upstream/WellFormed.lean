import OtlpCollectorOidc.Upstream.Resolve

namespace OtlpCollectorOidc.Upstream

open Text Number

/-- An address with a port ends in a colon and it. -/
theorem splitHostPort_port {hostPort : Bytes} (hport : (Url.splitHostPort hostPort).2 ≠ [])
    (hhost : (Url.splitHostPort hostPort).1 ≠ []) :
    ∃ host port, hostPort = host ++ 0x3A :: port ∧ host ≠ [] ∧ port ≠ [] := by
  rw [Url.splitHostPort] at hport hhost
  cases hc : Url.cutLast 0x3A hostPort with
  | none =>
    simp only [hc] at hport
    split at hport <;> exact absurd rfl hport
  | some p =>
    obtain ⟨host, port⟩ := p
    by_cases hd : port.all Url.isDigit = true
    · simp only [hc, if_pos hd] at hport hhost
      refine ⟨host, port, (Url.cutLast_eq_some hc).1, ?_, ?_⟩
      · rintro rfl
        exact hhost rfl
      · split at hport <;> exact hport
    · simp only [hc, if_neg hd] at hport
      split at hport <;> exact absurd rfl hport

/-- Over gRPC an endpoint is a host and a port, and plaintext by its scheme or by INSECURE. -/
structure GrpcEndpoint (raw : Bytes) (insecure : Bool) (cfg : ExporterConfig) : Prop where
  hostPort : ∃ host port, cfg.endpoint = host ++ 0x3A :: port ∧ host ≠ [] ∧ port ≠ []
  noPath : cfg.signalPath = false
  plaintext : ∃ u, Url.parse raw = some u ∧ u.host = cfg.endpoint ∧
    (cfg.plaintext = true ↔ u.scheme = ofString "http" ∨ insecure = true)

/-- Over HTTP it is a URL, the signal's own or a base one the signal's path is added to. -/
structure HttpEndpoint (lookup : Lookup) (sig : Signal) (cfg : ExporterConfig) : Prop where
  plaintext : ∃ u, Url.parse cfg.endpoint = some u ∧
    (u.scheme = ofString "http" ∨ u.scheme = ofString "https") ∧
      (cfg.plaintext = true ↔ u.scheme = ofString "http")
  base : cfg.signalPath = true → nonEmpty lookup (Setting.endpoint.signalName sig) = none ∧
    nonEmpty lookup Setting.endpoint.baseName = some cfg.endpoint
  own : cfg.signalPath = false → nonEmpty lookup (Setting.endpoint.signalName sig) = some cfg.endpoint

/-- An exporter configuration in normal form. -/
structure ExporterConfig.WellFormed (lookup : Lookup) (sig : Signal) (cfg : ExporterConfig) : Prop where
  timeout : ∃ ms : ℤ, 1 ≤ ms ∧ ms ≤ 3600000 ∧ cfg.timeout = ms * 10 ^ 6
  queueSize : 1 ≤ cfg.queueSize
  intervals : cfg.retryInitialInterval ≤ cfg.retryMaxInterval
  elapsed : cfg.retryMaxElapsed ≠ 0 →
    cfg.retryInitialInterval ≤ cfg.retryMaxElapsed ∧ cfg.retryMaxInterval ≤ cfg.retryMaxElapsed
  paired : cfg.clientCertFile = [] ↔ cfg.clientKeyFile = []
  plaintext : cfg.plaintext = true →
    cfg.skipVerify = false ∧ cfg.caFile = [] ∧ cfg.clientCertFile = [] ∧ cfg.clientKeyFile = []
  grpc : cfg.protocol = .grpc → GrpcEndpoint (value lookup .endpoint sig).raw
    (toLower (value lookup .insecure sig).raw = ofString "true") cfg
  http : cfg.protocol = .httpProtobuf → HttpEndpoint lookup sig cfg

section Parse

variable {raw : Bytes}

theorem parseTimeout_ok {d : Duration} (h : parseTimeout raw = .ok d) :
    ∃ ms : ℤ, 1 ≤ ms ∧ ms ≤ 3600000 ∧ d = ms * 10 ^ 6 := by
  rw [parseTimeout] at h
  split at h
  · next ms _ =>
    split_ifs at h with hms
    cases h
    simp only [Bool.or_eq_true, decide_eq_true_eq, not_or, not_lt] at hms
    exact ⟨ms, hms.1, hms.2, rfl⟩
  · cases h

theorem parseQueueSize_ok {n : ℤ} (h : parseQueueSize raw = .ok n) : 1 ≤ n := by
  rw [parseQueueSize] at h
  split at h
  · split_ifs at h with hn
    cases h
    exact not_lt.mp hn
  · cases h

theorem parseRetry_ok {d : Duration} (h : parseRetry raw = .ok d) : 0 ≤ d := by
  rw [parseRetry] at h
  split at h
  · split_ifs at h with hd
    cases h
    exact not_lt.mp hd
  · cases h

theorem parseBool_ok {b : Bool} (h : parseBool raw = .ok b) : b = true ↔ toLower raw = ofString "true" := by
  rw [parseBool] at h
  split_ifs at h with ht hf
  · cases h
    exact ⟨fun _ ↦ ht, fun _ ↦ rfl⟩
  · cases h
    exact ⟨Bool.noConfusion, fun h ↦ absurd h ht⟩

theorem capped_le {d limit : Duration} (h : 0 ≤ limit) (hne : limit ≠ 0) : capped d limit ≤ limit := by
  rw [capped]
  split_ifs with hc
  · exact le_rfl
  · simp only [Bool.and_eq_true, decide_eq_true_eq, not_and, not_lt] at hc
    exact hc (lt_of_le_of_ne h (Ne.symm hne))

theorem capped_mono {d d' : Duration} (limit : Duration) (h : d ≤ d') : capped d limit ≤ capped d' limit := by
  simp only [capped, Bool.and_eq_true, decide_eq_true_eq]
  split_ifs with hd hd' hd'
  · exact le_rfl
  · exact hd.2.le.trans h
  · by_contra hlt
    exact hd ⟨hd'.1, not_le.mp hlt⟩
  · exact h

/-- What every accepted endpoint is. -/
theorem setEndpoint_ok {p : Protocol} {perSignal : Bool} {parts : EndpointParts}
    (h : setEndpoint p raw perSignal = .ok parts) :
    ∃ u, Url.parse raw = some u ∧ (u.scheme = ofString "http" ∨ u.scheme = ofString "https") ∧
      u.hostname ≠ [] ∧ (parts.plaintext = true ↔ u.scheme = ofString "http") ∧
      (p = .grpc → u.port ≠ [] ∧ parts.endpoint = u.host ∧ parts.signalPath = false) ∧
      (p = .httpProtobuf → parts.endpoint = raw ∧ parts.signalPath = !perSignal) := by
  rw [setEndpoint] at h
  cases hu : Url.parse raw with
  | none => simp [hu] at h
  | some u =>
    cases p with
    | grpc =>
      simp only [hu] at h
      split_ifs at h with hs hport hrest
      cases h
      simp only [Bool.or_eq_true, Bool.and_eq_true, decide_eq_true_eq, not_or, not_and_or, not_not] at hs
      exact ⟨u, rfl, hs.1, hs.2, decide_eq_true_iff, fun _ ↦ ⟨hport, rfl, rfl⟩, nofun⟩
    | httpProtobuf =>
      simp only [hu] at h
      split_ifs at h with hs hrest
      cases h
      simp only [Bool.or_eq_true, Bool.and_eq_true, decide_eq_true_eq, not_or, not_and_or, not_not] at hs
      exact ⟨u, rfl, hs.1, hs.2, decide_eq_true_iff, nofun, fun _ ↦ ⟨rfl, rfl⟩⟩

end Parse

section Read

variable {lookup : Lookup} {sig : Signal}

theorem raw_baseValue {s : Setting} (hd : s.default = []) (hne : (baseValue lookup s).raw ≠ []) :
    nonEmpty lookup s.baseName = some (baseValue lookup s).raw ∧ (baseValue lookup s).perSignal = false := by
  rw [baseValue] at hne ⊢
  cases h : nonEmpty lookup s.baseName with
  | none =>
    rw [h] at hne
    exact absurd hd hne
  | some raw => exact ⟨rfl, rfl⟩

/-- Where a value without a default came from. -/
theorem value_source {s : Setting} (hs : s.perSignal = true) (hd : s.default = [])
    (hne : (value lookup s sig).raw ≠ []) :
    if (value lookup s sig).perSignal then nonEmpty lookup (s.signalName sig) = some (value lookup s sig).raw
    else nonEmpty lookup (s.signalName sig) = none ∧
      nonEmpty lookup s.baseName = some (value lookup s sig).raw := by
  rw [value, if_pos hs] at hne ⊢
  cases h : nonEmpty lookup (s.signalName sig) with
  | some raw => simp
  | none =>
    simp only [h] at hne
    obtain ⟨hbase, hown⟩ := raw_baseValue hd hne
    simp [hown, hbase]

end Read

section Config

variable {lookup : Lookup} {sig : Signal} {p : Parsed}

theorem grpcEndpoint_config (h : Parses (fun s ↦ value lookup s sig) p) (hp : p.protocol = .grpc) :
    GrpcEndpoint (value lookup .endpoint sig).raw (toLower (value lookup .insecure sig).raw = ofString "true")
      (p.config (fun s ↦ value lookup s sig)) := by
  obtain ⟨u, hu, hs, hhost, hplain, hgrpc, -⟩ := setEndpoint_ok h.parts
  obtain ⟨hport, hend, hpath⟩ := hgrpc hp
  refine ⟨?_, hpath, u, hu, hend.symm, ?_⟩
  · rw [Parsed.config, hend]
    exact splitHostPort_port hport hhost
  · rw [Parsed.config, Parsed.plaintext, hp]
    simp only [decide_true, Bool.true_and, Bool.or_eq_true, hplain, decide_eq_true_eq,
      parseBool_ok h.forcePlaintext]

theorem httpEndpoint_config (h : Parses (fun s ↦ value lookup s sig) p) (hp : p.protocol = .httpProtobuf) :
    HttpEndpoint lookup sig (p.config (fun s ↦ value lookup s sig)) := by
  obtain ⟨u, hu, hs, hhost, hplain, -, hhttp⟩ := setEndpoint_ok h.parts
  obtain ⟨hend, hpath⟩ := hhttp hp
  have hsource := value_source (s := .endpoint) rfl rfl h.present
  refine ⟨⟨u, ?_, hs, ?_⟩, ?_, ?_⟩
  · rw [Parsed.config, hend]
    exact hu
  · rw [Parsed.config, Parsed.plaintext, hp]
    simp [hplain]
  · intro hbase
    rw [Parsed.config, hpath] at hbase
    rw [Parsed.config, hend]
    simpa [(Bool.not_eq_true' _).mp hbase] using hsource
  · intro hown
    rw [Parsed.config, hpath] at hown
    rw [Parsed.config, hend]
    simpa [(Bool.not_eq_false' _).mp hown] using hsource

theorem paired_of_crossFaults (vals : Setting → Read) (hc : p.crossFaults vals sig = []) :
    (vals .clientCertificate).raw = [] ↔ (vals .clientKey).raw = [] := by
  have hpair := (List.append_eq_nil_iff.mp (List.append_eq_nil_iff.mp hc).1).2
  split_ifs at hpair with h
  simpa using h

theorem wellFormed_config (h : Parses (fun s ↦ value lookup s sig) p)
    (hc : p.crossFaults (fun s ↦ value lookup s sig) sig = []) :
    (p.config (fun s ↦ value lookup s sig)).WellFormed lookup sig where
  timeout := parseTimeout_ok h.timeout
  queueSize := parseQueueSize_ok h.queueSize
  intervals := capped_mono _ (by decide)
  elapsed hne :=
    ⟨capped_le (parseRetry_ok h.retryMaxElapsed) hne, capped_le (parseRetry_ok h.retryMaxElapsed) hne⟩
  paired := by
    simp only [Parsed.config]
    split_ifs
    · exact Iff.rfl
    · exact paired_of_crossFaults _ hc
  plaintext hp := by
    have hp' : p.plaintext = true := hp
    simp [Parsed.config, hp']
  grpc := grpcEndpoint_config h
  http := httpEndpoint_config h

end Config

/-- Resolve configures each of the signals and no other, always in normal form. -/
theorem resolved_configs_well_formed (go : Library) (lookup : Lookup) (sigs : List Signal) (hn : sigs.Nodup)
    (m : Signal → Option ExporterConfig) (hm : resolve go lookup sigs = .ok m) :
    (∀ sig, (m sig).isSome = true ↔ sig ∈ sigs) ∧ ∀ sig cfg, m sig = some cfg →
      cfg.WellFormed lookup sig := by
  obtain ⟨rfl, hf⟩ := resolve_ok hn hm
  refine ⟨?_, ?_⟩
  · intro sig
    rw [resolvedMap]
    split_ifs with hsig
    · obtain ⟨cfg, hcfg⟩ := signalConfig_of_ok hf hsig
      simp [hcfg, hsig]
    · simp [hsig]
  · intro sig cfg hcfg
    rw [resolvedMap, Option.ite_none_right_eq_some, signalConfig] at hcfg
    cases hp : parsed (fun s ↦ value lookup s sig) with
    | none => simp [hp] at hcfg
    | some p =>
      simp only [hp, Option.ite_none_right_eq_some, Option.some.injEq] at hcfg
      obtain ⟨_, hc, rfl⟩ := hcfg
      exact wellFormed_config (parsed_eq_some.mp hp) hc

def mixedLookup : Lookup := fun name ↦
  if name = ofString "OTEL_EXPORTER_OTLP_ENDPOINT" then some "http://collector:4317"
  else if name = ofString "OTEL_EXPORTER_OTLP_LOGS_ENDPOINT" then some "https://logs.example/v1/logs"
  else if name = ofString "OTEL_EXPORTER_OTLP_LOGS_PROTOCOL" then some "http/protobuf"
  else if name = ofString "UPSTREAM_RETRY_MAX_ELAPSED" then some "10s"
  else none

theorem mixed_configs_well_formed :
    ∃ m, resolve exampleLibrary mixedLookup signals = .ok m ∧
      ∀ sig, ∃ cfg, m sig = some cfg ∧ cfg.WellFormed mixedLookup sig := by
  have hok : (resolve exampleLibrary mixedLookup signals).toOption.isSome = true := by decide +kernel
  obtain ⟨m, hm⟩ := Option.isSome_iff_exists.mp hok
  have hm' := toOption_eq_some.mp hm
  obtain ⟨hsome, hwell⟩ := resolved_configs_well_formed exampleLibrary mixedLookup signals (by decide) m hm'
  refine ⟨m, hm', fun sig ↦ ?_⟩
  obtain ⟨cfg, hcfg⟩ := Option.isSome_iff_exists.mp ((hsome sig).mpr (mem_signals sig))
  exact ⟨cfg, hcfg, hwell sig cfg hcfg⟩

end OtlpCollectorOidc.Upstream

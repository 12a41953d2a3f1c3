import OtlpCollectorOidc.Render.Redaction
import OtlpCollectorOidc.Upstream.Secrets

namespace OtlpCollectorOidc.Render

open Text Number Strconv Upstream Validation Validation.Validated

def KeyValueList.string (l : KeyValueList) : Bytes :=
  join (ofString ",") (l.pairs.map (fun kv ↦ kv.key ++ ofString "=" ++ Url.pathEscape kv.value))

def displayList (items : List Bytes) : Bytes := join (ofString ",") items

section Fields

variable (s : Settings)

def identityFields : List (Bytes × Bytes) :=
  [(Variable.issuerURL.name, s.identity.issuerURL),
    (Variable.audience.name, s.identity.audience),
    (Variable.discoveryRetry.name, durationString s.identity.discoveryRetry),
    (Variable.jwksRefresh.name, durationString s.identity.jwksRefresh),
    (Variable.requiredScope.name, s.identity.requiredScope),
    (Variable.requiredClaims.name, displayList s.identity.requiredClaims),
    (Variable.claimAttributes.name, s.identity.claimAttributes.string),
    (Variable.clientResourceAttrs.name, s.identity.clientResourceAttrs.string),
    (Variable.clockSkew.name, durationString s.identity.clockSkew),
    (Variable.rejectionLogInterval.name, durationString s.identity.rejectionLogInterval)]

def listenerFields : List (Bytes × Bytes) :=
  [(Variable.listenAddr.name, s.listener.listenAddr.string),
    (Variable.tlsCertFile.name, s.listener.tlsCertFile),
    (Variable.tlsKeyFile.name, s.listener.tlsKeyFile),
    (Variable.tlsReloadInterval.name, durationString s.listener.tlsReloadInterval),
    (Variable.maxRequestBodyBytes.name, formatInt s.listener.maxRequestBodyBytes),
    (Variable.corsAllowedOrigins.name, displayList s.listener.corsAllowedOrigins)]

def boundsFields : List (Bytes × Bytes) :=
  [("ALLOWED_SERVICE_NAMES", s.bounds.allowedServiceNames),
    (Variable.maxFutureSkew.name, durationString s.bounds.maxFutureSkew),
    (Variable.maxPastAge.name, durationString s.bounds.maxPastAge)]

def metricsFields : List (Bytes × Bytes) :=
  [("ALLOWED_METRIC_NAMES", s.metrics.allowedNames),
    (Variable.allowedAttributeKeys.name, displayList s.metrics.allowedAttributeKeys),
    (Variable.maxStreams.name, formatInt s.metrics.maxStreams),
    (Variable.deltaMaxStale.name, durationString s.metrics.deltaMaxStale)]

def resourcesFields : List (Bytes × Bytes) :=
  [(Variable.memoryLimitMiB.name, formatInt s.resources.memoryLimitMiB),
    (Variable.memorySpikeLimitMiB.name, formatInt s.resources.memorySpikeLimitMiB),
    (Variable.batchTimeout.name, durationString s.resources.batchTimeout)]

def processFields : List (Bytes × Bytes) :=
  [(Variable.healthAddr.name, s.self.healthAddr.string),
    (Variable.selfMetricsAddr.name, s.self.selfMetricsAddr.string),
    (Variable.level.name, s.logs.level.string),
    (Variable.format.name, s.logs.format.string),
    (Variable.output.name, s.own.output.string),
    (Variable.serviceName.name, s.own.serviceName),
    (Variable.resourceAttributes.name, s.own.resourceAttributes.string)]

/-- The fields of the startup line: every variable with the value it took, and each
signal's upstream as resolved. -/
def resolved : List (Bytes × Bytes) :=
  identityFields s ++ listenerFields s ++ boundsFields s ++ metricsFields s ++ resourcesFields s ++
    processFields s ++ s.upstream.logFields

end Fields

section TwoRuns

variable {lookup lookup' : Lookup} (h : SameButHeaders lookup lookup') (go : Library)
include h

theorem field_same {α : Type} (v : Variable α) (hn : v.name ∉ headersNames) :
    v.field go lookup = v.field go lookup' := by
  have hne : nonEmpty lookup v.name = nonEmpty lookup' v.name := by rw [nonEmpty, nonEmpty, h.eq hn]
  rw [Variable.field, Variable.field, Variable.load, Variable.load, Variable.selected, Variable.selected, hne]

theorem loadIdentity_same : loadIdentity go lookup = loadIdentity go lookup' := by
  have hf {α : Type} (v : Variable α) := field_same h go v
  simp (disch := decide) only [loadIdentity, readIdentity, hf]

theorem loadListener_same : loadListener go lookup = loadListener go lookup' := by
  have hf {α : Type} (v : Variable α) := field_same h go v
  simp (disch := decide) only [loadListener, readListener, hf]

theorem loadBounds_same : loadBounds go lookup = loadBounds go lookup' := by
  have hf {α : Type} (v : Variable α) := field_same h go v
  have hn : ofString "ALLOWED_SERVICE_NAMES" ∉ headersNames := by decide
  rw [loadBounds, readBounds, hf (Variable.allowedServiceNames go) hn]
  simp (disch := decide) only [loadBounds, readBounds, hf]

theorem loadMetrics_same : loadMetrics go lookup = loadMetrics go lookup' := by
  have hf {α : Type} (v : Variable α) := field_same h go v
  have hn : ofString "ALLOWED_METRIC_NAMES" ∉ headersNames := by decide
  rw [loadMetrics, readMetrics, hf (Variable.allowedNames go) hn]
  simp (disch := decide) only [loadMetrics, readMetrics, hf]

theorem loadResources_same : loadResources go lookup = loadResources go lookup' := by
  have hf {α : Type} (v : Variable α) := field_same h go v
  simp (disch := decide) only [loadResources, readResources, hf]

theorem loadSelf_same : loadSelf go lookup = loadSelf go lookup' := by
  have hf {α : Type} (v : Variable α) := field_same h go v
  simp (disch := decide) only [loadSelf, hf]

theorem loadLogs_same : loadLogs go lookup = loadLogs go lookup' := by
  have hf {α : Type} (v : Variable α) := field_same h go v
  simp (disch := decide) only [loadLogs, hf]

theorem loadOwn_same : loadOwn go lookup = loadOwn go lookup' := by
  have hf {α : Type} (v : Variable α) := field_same h go v
  simp (disch := decide) only [loadOwn, hf]

/-- The upstreams fail with the same errors, or load to what shows the same. -/
theorem loadUpstream_same : (loadUpstream go lookup).errors = (loadUpstream go lookup').errors ∧
    ∀ u, (loadUpstream go lookup).value = some u → ∃ u', (loadUpstream go lookup').value = some u' ∧
      ∀ sig, (u.bySignal sig).map visible = (u'.bySignal sig).map visible := by
  have hout := h.resolve go pipelineSignals
  unfold loadUpstream
  split
  · rename_i m hm
    rw [hm] at hout
    split
    · rename_i m' hm'
      rw [hm'] at hout
      refine ⟨rfl, fun u hu ↦ ⟨⟨m'⟩, rfl, ?_⟩⟩
      rw [← value_ok.mp hu]
      exact hout
    · rename_i errs hm'
      rw [hm'] at hout
      exact hout.elim
  · rename_i errs hm
    rw [hm] at hout
    split
    · rename_i m' hm'
      rw [hm'] at hout
      exact hout.elim
    · rename_i errs' hm'
      rw [hm'] at hout
      have hout : errs = errs' := hout
      subst hout
      refine ⟨rfl, ?_⟩
      intro u hu
      cases hu

theorem loadGroups_same : (loadGroups go lookup).errors = (loadGroups go lookup').errors ∧
    ∀ s, (loadGroups go lookup).value = some s →
      ∃ u', (loadGroups go lookup').value = some { s with upstream := u' } ∧
          ∀ sig, (s.upstream.bySignal sig).map visible = (u'.bySignal sig).map visible := by
  obtain ⟨herr, hvalue⟩ := loadUpstream_same h go
  constructor
  · simp only [loadGroups, errors_seq, errors_ok, loadIdentity_same h, herr, loadListener_same h,
      loadBounds_same h, loadMetrics_same h, loadResources_same h, loadSelf_same h,
        loadLogs_same h, loadOwn_same h]
  · intro s hs
    have hg := loadGroups_value.mp hs
    obtain ⟨u', hu', hvisible⟩ := hvalue s.upstream hg.upstream
    refine ⟨u', loadGroups_value.mpr ?_, hvisible⟩
    exact {
      identity := loadIdentity_same h go ▸ hg.identity
      upstream := hu'
      listener := loadListener_same h go ▸ hg.listener
      bounds := loadBounds_same h go ▸ hg.bounds
      metrics := loadMetrics_same h go ▸ hg.metrics
      resources := loadResources_same h go ▸ hg.resources
      self := loadSelf_same h go ▸ hg.self
      logs := loadLogs_same h go ▸ hg.logs
      own := loadOwn_same h go ▸ hg.own
      instanceID := hg.instanceID }

end TwoRuns

section Shown

variable {u u' : UpstreamSettings} (hv : ∀ sig, (u.bySignal sig).map visible = (u'.bySignal sig).map visible)
include hv

theorem redacted_of_visible : u.redacted = u'.redacted := by
  have hb : u.redacted.bySignal = u'.redacted.bySignal := by
    funext sig
    have hfst := congrArg (Option.map Prod.fst) (hv sig)
    rw [Option.map_map, Option.map_map] at hfst
    exact hfst
  exact congrArg UpstreamSettings.mk hb

theorem logFields_of_visible : u.logFields = u'.logFields := by
  have hstring : ∀ cfg cfg', visible cfg = visible cfg' → cfg.string = cfg'.string := by
    intro cfg cfg' hvis
    simp only [visible, Prod.mk.injEq, ExporterConfig.mk.injEq] at hvis
    simp only [ExporterConfig.string, hvis]
  apply List.filterMap_congr
  intro sig _
  have hsig := hv sig
  cases hu : u.bySignal sig with
  | none =>
    rw [hu, Option.map_none, eq_comm, Option.map_eq_none_iff] at hsig
    rw [hsig]
  | some cfg =>
    rw [hu, Option.map_some, eq_comm, Option.map_eq_some_iff] at hsig
    obtain ⟨cfg', hu', hvis⟩ := hsig
    rw [hu', Option.map_some, Option.map_some, hstring cfg' cfg hvis]

/-- The rule across groups does not read the headers. -/
theorem validate_of_visible (s : Settings) (hs : s.upstream = u) :
    s.validate = { s with upstream := u' }.validate := by
  have hlogs : u.logs.map visible = u'.logs.map visible := hv .logs
  rw [Settings.validate, Settings.validate, hs]
  split_ifs
  · cases hu : u.logs with
    | none =>
      rw [hu, Option.map_none, eq_comm, Option.map_eq_none_iff] at hlogs
      dsimp only
      rw [hlogs]
    | some cfg =>
      rw [hu, Option.map_some, eq_comm, Option.map_eq_some_iff] at hlogs
      obtain ⟨cfg', hu', hvis⟩ := hlogs
      simp only [visible, Prod.mk.injEq, ExporterConfig.mk.injEq] at hvis
      dsimp only
      rw [hu']
      simp only [hvis]
  · rfl

end Shown

/-- Header values reach no output: where two environments differ in them alone, Load
reports the same errors, and the startup line and the logged document are the same. -/
theorem header_values_never_shown (go : Library) (lookup lookup' : Lookup)
    (h : SameButHeaders lookup lookup') :
    (load go lookup).errors.map (LoadError.error go) = (load go lookup').errors.map (LoadError.error go) ∧
    ∀ s s', (load go lookup).value = some s → (load go lookup').value = some s' →
      resolved s = resolved s' ∧
      ∀ id, render (Settings.shown { s with instanceID := id }) =
        render (Settings.shown { s' with instanceID := id }) := by
  obtain ⟨herr, hvalue⟩ := loadGroups_same h go
  constructor
  · rw [load, load, errors_check, errors_check, herr]
    cases hs : (loadGroups go lookup).value with
    | none =>
      have hnone : (loadGroups go lookup').value = none := value_eq_none.mpr (herr ▸ value_eq_none.mp hs)
      rw [hnone]
    | some s =>
      obtain ⟨u', hs', hvisible⟩ := hvalue s hs
      rw [hs', Option.map_some, Option.map_some, validate_of_visible hvisible s rfl]
  · intro s s' hs hs'
    obtain ⟨u', hgroups, hvisible⟩ := hvalue s (value_check.mp hs).1
    cases (value_check.mp hs').1.symm.trans hgroups
    have hred := redacted_of_visible hvisible
    refine ⟨?_, ?_⟩
    · rw [resolved, resolved, logFields_of_visible hvisible]
      rfl
    · intro id
      rw [Settings.shown, Settings.shown, hred]

def otherToken : Lookup := environment [("OTEL_EXPORTER_OTLP_HEADERS", "authorization=b")]

theorem tokens_never_shown : ∃ s s', (load exampleLibrary oneToken).value = some s ∧
    (load exampleLibrary otherToken).value = some s' ∧
    s.upstream.exporters ≠ s'.upstream.exporters ∧ resolved s = resolved s' ∧
      render s.shown = render s'.shown := by
  have hsame : SameButHeaders oneToken otherToken := by
    intro name
    by_cases hn : name = ofString "OTEL_EXPORTER_OTLP_HEADERS"
    · subst hn
      refine Or.inr ⟨by decide, "authorization=a", "authorization=b", by decide, by decide, ?_⟩
      exact .cons (Or.inr ⟨by decide, by decide, rfl⟩) (.nil 2)
    · left
      simp [oneToken, otherToken, environment, Ne.symm hn]
  obtain ⟨s, hs, hheaders⟩ :=
    Option.map_eq_some_iff.mp (by decide +kernel : (load exampleLibrary oneToken).value.map
    (fun s ↦ (s.upstream.exporters.map (fun e ↦ e.headers), s.instanceID)) =
      some ([[⟨ofString "authorization", ofString "a"⟩]], []))
  obtain ⟨s', hs', hheaders'⟩ := Option.map_eq_some_iff.mp (by decide +kernel :
    (load exampleLibrary otherToken).value.map
      (fun s ↦ (s.upstream.exporters.map (fun e ↦ e.headers), s.instanceID)) =
        some ([[⟨ofString "authorization", ofString "b"⟩]], []))
  simp only [Prod.mk.injEq] at hheaders hheaders'
  obtain ⟨_, hshown⟩ := header_values_never_shown exampleLibrary oneToken otherToken hsame
  obtain ⟨hfields, hdoc⟩ := hshown s s' hs hs'
  have hid : { s' with instanceID := s.instanceID } = s' := by rw [hheaders.2, ← hheaders'.2]
  refine ⟨s, s', hs, hs', fun he ↦ ?_, hfields, ?_⟩
  · have hne := hheaders.1
    rw [he, hheaders'.1] at hne
    exact absurd hne (by decide)
  · have hrender := hdoc s.instanceID
    rw [hid] at hrender
    exact hrender

end OtlpCollectorOidc.Render

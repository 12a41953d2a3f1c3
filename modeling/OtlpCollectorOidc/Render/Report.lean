import OtlpCollectorOidc.Render.Faults

namespace OtlpCollectorOidc.Render

open Text Upstream Validation Validated

/-- A variable at fault whatever the others are: a required one that is unset, or one
whose selected value its own rule refuses. -/
inductive Bad (go : Library) (lookup : Lookup) : Bytes → Prop where
  | unset {ts : List Tag} {t : Tag} : ts ∈ groups go → t ∈ ts → t.missing lookup = true → Bad go lookup t.name
  | refused {ts : List Tag} {t : Tag} : ts ∈ groups go → t ∈ ts → t.missing lookup = false →
    t.accepts (t.selected lookup) = false → Bad go lookup t.name
  | endpointUnset (sig : Signal) : (value lookup .endpoint sig).raw = [] →
    Bad go lookup (value lookup .endpoint sig).name
  | upstream (s : Setting) (sig : Signal) : s.refuses (value lookup s sig).raw = true →
    Bad go lookup (value lookup s sig).name

/-- Every bad variable is judged where it stands: an endpoint is read by a signal whose
protocol is known, a group's rule is asked about a variable it alone refuses, and the
complaints about CLAIM_ATTRIBUTES and CLIENT_RESOURCE_ATTRIBUTES can be told apart. -/
structure Judged (go : Library) (lookup : Lookup) : Prop where
  endpoint : ∀ sig, (value lookup .endpoint sig).raw ≠ [] →
    Setting.endpoint.refuses (value lookup .endpoint sig).raw = true →
    ∃ sig' p, (value lookup .endpoint sig').name = (value lookup .endpoint sig).name ∧
      parseProtocol (value lookup .protocol sig').raw = .ok p
  rules : ∀ ts ∈ groups go, ∀ t ∈ ts, t.Loads lookup → t.accepts (t.selected lookup) = false →
    ∀ t' ∈ ts, t'.Loads lookup
  words : (∀ t ∈ identityTags, t.Loads lookup) → ∀ claims resources,
    parsePairs (Variable.claimAttributes.selected lookup) = .ok claims →
    parsePairs (Variable.clientResourceAttrs.selected lookup) = .ok resources →
    WordsApart claims.pairs resources.pairs

section Upstream

variable {go : Library} {lookup : Lookup}

theorem errors_loadUpstream :
    (resolve go lookup pipelineSignals = .ok (resolvedMap lookup pipelineSignals) ∧
      allFaults go lookup pipelineSignals = [] ∧ (loadUpstream go lookup).errors = []) ∨
    ∃ errs, resolve go lookup pipelineSignals = .error errs ∧
      Collected go (allFaults go lookup pipelineSignals) [] errs ∧
        (loadUpstream go lookup).errors = errs.map LoadError.variable := by
  unfold loadUpstream
  split
  · rename_i m hm
    obtain ⟨rfl, hf⟩ := resolve_ok nodup_signals hm
    exact Or.inl ⟨hm, hf, rfl⟩
  · rename_i errs herr
    exact Or.inr ⟨errs, herr, (resolve_error nodup_signals herr).2, rfl⟩

variable (go lookup) in
theorem origin_of_mem_errors {e : LoadError} (h : e ∈ (loadUpstream go lookup).errors) :
    ∃ f, e = .variable f ∧ Origin go lookup f := by
  obtain ⟨_, _, hnil⟩ | ⟨errs, _, hc, heq⟩ := errors_loadUpstream
  · rw [hnil] at h
    cases h
  · rw [heq] at h
    obtain ⟨f, hf, rfl⟩ := List.mem_map.mp h
    exact ⟨f, rfl, origin_of_mem ((hc.mem f hf).resolve_left List.not_mem_nil)⟩

variable (go lookup) in
theorem upstream_texts : ((loadUpstream go lookup).errors.map (LoadError.error go)).Nodup := by
  obtain ⟨_, _, hnil⟩ | ⟨errs, _, hc, heq⟩ := errors_loadUpstream
  · rw [hnil]
    exact List.nodup_nil
  · rw [heq, List.map_map]
    exact hc.nodup List.nodup_nil

theorem upstream_named {sig : Signal} {s : Setting} {f : Fault}
    (hf : f ∈ ownFaults go (fun s ↦ value lookup s sig) s) :
    ∃ e ∈ (loadUpstream go lookup).errors, (value lookup s sig).name ∈ e.subjects := by
  obtain ⟨_, hnil, _⟩ | ⟨errs, herr, _, heq⟩ := errors_loadUpstream
  · have hmem := mem_allFaults (mem_signals sig) (mem_parseFaults.mpr ⟨s, hf⟩)
    exact absurd (hnil ▸ hmem) List.not_mem_nil
  · obtain ⟨e, he, hname⟩ := named_of_ownFaults nodup_signals herr (mem_signals sig) hf
    exact ⟨.variable e, heq ▸ List.mem_map_of_mem he, hname⟩

theorem endpoint_named {sig : Signal} (h : (value lookup .endpoint sig).raw = []) :
    ∃ e ∈ (loadUpstream go lookup).errors, (value lookup .endpoint sig).name ∈ e.subjects := by
  have hf : .required (value lookup .endpoint sig).name ∈
      ownFaults go (fun s ↦ value lookup s sig) .endpoint := by
    rw [ownFaults, endpointFaults, if_pos h]
    exact List.mem_singleton.mpr rfl
  exact upstream_named hf

theorem upstream_fails {s : Setting} {sig : Signal} (hr : s.refuses (value lookup s sig).raw = true) :
    (loadUpstream go lookup).errors ≠ [] := by
  have hparsed : parsed (fun s ↦ value lookup s sig) = none := parsed_of_refuses go hr
  have hne : parseFaults go (fun s ↦ value lookup s sig) ≠ [] := by
    intro hnil
    obtain ⟨p, hp⟩ := parseFaults_eq_nil.mp hnil
    cases hparsed.symm.trans hp
  obtain ⟨f, hf⟩ := List.exists_mem_of_ne_nil _ hne
  obtain ⟨s', hs'⟩ := mem_parseFaults.mp hf
  obtain ⟨e, he, _⟩ := upstream_named hs'
  exact List.ne_nil_of_mem he

end Upstream

section Reports

variable (go : Library) (lookup : Lookup)

/-- The errors of each group, with the variables it reads. -/
def reports : List (List Bytes × List LoadError) :=
  [(identityTags.map Tag.name, (loadIdentity go lookup).errors),
    (variableNames, (loadUpstream go lookup).errors),
    (listenerTags.map Tag.name, (loadListener go lookup).errors),
    ((boundsTags go).map Tag.name, (loadBounds go lookup).errors),
    ((metricsTags go).map Tag.name, (loadMetrics go lookup).errors),
    (resourcesTags.map Tag.name, (loadResources go lookup).errors),
    (selfTags.map Tag.name, (loadSelf go lookup).errors),
    (logsTags.map Tag.name, (loadLogs go lookup).errors),
    (ownTags.map Tag.name, (loadOwn go lookup).errors)]

theorem errors_loadGroups : (loadGroups go lookup).errors = (reports go lookup).flatMap Prod.snd := by
  simp [loadGroups, reports]

/-- No variable is read by two groups. -/
theorem names_disjoint : [identityTags.map Tag.name, variableNames, listenerTags.map Tag.name,
    [ofString "ALLOWED_SERVICE_NAMES", Variable.maxFutureSkew.name, Variable.maxPastAge.name],
    [ofString "ALLOWED_METRIC_NAMES", Variable.allowedAttributeKeys.name, Variable.maxStreams.name,
      Variable.deltaMaxStale.name], resourcesTags.map Tag.name, selfTags.map Tag.name, logsTags.map Tag.name,
    ownTags.map Tag.name].Pairwise (fun names names' ↦ ∀ x ∈ names, x ∉ names') := by
  decide +kernel

theorem reports_disjoint : (reports go lookup).Pairwise (fun b b' ↦ ∀ x ∈ b.1, x ∉ b'.1) := by
  have h : ((reports go lookup).map Prod.fst).Pairwise (fun names names' ↦ ∀ x ∈ names, x ∉ names') :=
    names_disjoint
  rwa [List.pairwise_map] at h

variable {go lookup}

theorem leads_of_mem_reports {b : List Bytes × List LoadError} (hb : b ∈ reports go lookup) {e : LoadError}
    (he : e ∈ b.2) :
    Leads go e ∧ ∀ x ∈ e.subjects, x ∈ b.1 := by
  simp only [reports, List.mem_cons, List.not_mem_nil, or_false] at hb
  obtain rfl | rfl | rfl | rfl | rfl | rfl | rfl | rfl | rfl := hb
  · exact ⟨(identity_report go lookup).leads e he, (identity_report go lookup).subjects e he⟩
  · obtain ⟨f, rfl, horigin⟩ := origin_of_mem_errors go lookup he
    exact ⟨horigin.leading, horigin.subjects⟩
  · exact ⟨(listener_report go lookup).leads e he, (listener_report go lookup).subjects e he⟩
  · exact ⟨(bounds_report go lookup).leads e he, (bounds_report go lookup).subjects e he⟩
  · exact ⟨(metrics_report go lookup).leads e he, (metrics_report go lookup).subjects e he⟩
  · exact ⟨(resources_report go lookup).leads e he, (resources_report go lookup).subjects e he⟩
  · exact ⟨(self_report go lookup).leads e he, (self_report go lookup).subjects e he⟩
  · exact ⟨(logs_report go lookup).leads e he, (logs_report go lookup).subjects e he⟩
  · exact ⟨(own_report go lookup).leads e he, (own_report go lookup).subjects e he⟩

theorem report_of_group {ts : List Tag} (hts : ts ∈ groups go) :
    ∃ errs, (ts.map Tag.name, errs) ∈ reports go lookup ∧ GroupReport go lookup ts errs := by
  simp only [groups, List.mem_cons, List.not_mem_nil, or_false] at hts
  obtain rfl | rfl | rfl | rfl | rfl | rfl | rfl | rfl := hts
  · exact ⟨_, by simp [reports], identity_report go lookup⟩
  · exact ⟨_, by simp [reports], listener_report go lookup⟩
  · exact ⟨_, by simp [reports], bounds_report go lookup⟩
  · exact ⟨_, by simp [reports], metrics_report go lookup⟩
  · exact ⟨_, by simp [reports], resources_report go lookup⟩
  · exact ⟨_, by simp [reports], self_report go lookup⟩
  · exact ⟨_, by simp [reports], logs_report go lookup⟩
  · exact ⟨_, by simp [reports], own_report go lookup⟩

/-- An error that names a variable is reported by the group that reads it. -/
theorem mem_report {b : List Bytes × List LoadError} (hb : b ∈ reports go lookup) {e : LoadError}
    (he : e ∈ (loadGroups go lookup).errors) {x : Bytes} (hx : x ∈ e.subjects) (hxb : x ∈ b.1) : e ∈ b.2 := by
  rw [errors_loadGroups] at he
  obtain ⟨b', hb', he⟩ := List.mem_flatMap.mp he
  have hxb' := (leads_of_mem_reports hb' he).2 x hx
  by_contra hne
  have : Std.Symm (fun b b' : List Bytes × List LoadError ↦ ∀ x ∈ b.1, x ∉ b'.1) :=
    ⟨fun _ _ h x hx hx' ↦ h x hx' hx⟩
  refine (reports_disjoint go lookup).forall hb hb' ?_ x hxb hxb'
  rintro rfl
  exact hne he

theorem texts_nodup_groups : ((loadGroups go lookup).errors.map (LoadError.error go)).Nodup ↔
    ((loadIdentity go lookup).errors.map (LoadError.error go)).Nodup := by
  rw [errors_loadGroups, List.map_flatMap, List.nodup_flatMap]
  constructor
  · rintro ⟨h, _⟩
    exact h (identityTags.map Tag.name, (loadIdentity go lookup).errors) List.mem_cons_self
  · intro hidentity
    refine ⟨?_, (reports_disjoint go lookup).imp_of_mem ?_⟩
    · intro b hb
      simp only [reports, List.mem_cons, List.not_mem_nil, or_false] at hb
      obtain rfl | rfl | rfl | rfl | rfl | rfl | rfl | rfl | rfl := hb
      · exact hidentity
      · exact upstream_texts go lookup
      · exact listener_texts go lookup
      · exact bounds_texts go lookup
      · exact metrics_texts go lookup
      · exact resources_texts go lookup
      · exact self_texts go lookup
      · exact logs_texts go lookup
      · exact own_texts go lookup
    · intro b b' hb hb' hdisjoint t ht ht'
      obtain ⟨e, he, rfl⟩ := List.mem_map.mp ht
      obtain ⟨e', he', htext⟩ := List.mem_map.mp ht'
      obtain ⟨hlead, hsubjects⟩ := leads_of_mem_reports hb he
      obtain ⟨hlead', hsubjects'⟩ := leads_of_mem_reports hb' he'
      rw [Leads, htext] at hlead'
      exact hdisjoint _ (hsubjects _ (List.mem_of_head? hlead)) (hsubjects' _ (List.mem_of_head? hlead'))

theorem errors_load {e : LoadError} (h : e ∈ (loadGroups go lookup).errors) :
    (load go lookup).errors = (loadGroups go lookup).errors := by
  rw [load, errors_check, value_eq_none.mpr (List.ne_nil_of_mem h)]
  simp

theorem mem_loadGroups {b : List Bytes × List LoadError} (hb : b ∈ reports go lookup) {e : LoadError}
    (he : e ∈ b.2) :
    e ∈ (loadGroups go lookup).errors := by
  rw [errors_loadGroups]
  exact List.mem_flatMap.mpr ⟨b, hb, he⟩

theorem upstream_mem_reports : (variableNames, (loadUpstream go lookup).errors) ∈ reports go lookup := by
  simp [reports]

theorem mem_loadGroups_of_upstream {e : LoadError} (he : e ∈ (loadUpstream go lookup).errors) :
    e ∈ (loadGroups go lookup).errors :=
  mem_loadGroups (b := (variableNames, (loadUpstream go lookup).errors)) upstream_mem_reports he

/-- A field that does not load is named by the fault that loading it reports. -/
theorem GroupReport.field_named {ts : List Tag} {errs : List LoadError}
    (h : GroupReport go lookup ts errs) {t : Tag} (ht : t ∈ ts) (hload : ¬ t.Loads lookup) :
    ∃ e ∈ errs, t.name ∈ e.subjects := by
  obtain ⟨e, he⟩ := List.exists_mem_of_ne_nil _ (mt faults_eq_nil_iff.mp hload : t.faults go lookup ≠ [])
  obtain ⟨f, rfl, hf⟩ := subjects_of_mem_tag he
  refine ⟨.variable f, ?_, ?_⟩
  · rw [h.fields t ht hload]
    exact List.mem_flatMap.mpr ⟨t, ht, he⟩
  · rw [LoadError.subjects, hf]
    exact List.mem_singleton.mpr rfl

/-- While another field does not load, a field that does is not named. -/
theorem GroupReport.not_named {ts : List Tag} {errs : List LoadError} (h : GroupReport go lookup ts errs)
    (hn : (ts.map Tag.name).Nodup) {t t' : Tag} (ht : t ∈ ts) (hload : t.Loads lookup) (ht' : t' ∈ ts)
    (hload' : ¬ t'.Loads lookup) : ∀ e ∈ errs, t.name ∉ e.subjects := by
  intro e he hname
  rw [h.fields t' ht' hload'] at he
  obtain ⟨u, hu, he⟩ := List.mem_flatMap.mp he
  obtain ⟨f, rfl, hf⟩ := subjects_of_mem_tag he
  rw [LoadError.subjects, hf, List.mem_singleton] at hname
  obtain rfl : t = u := List.inj_on_of_nodup_map hn ht hu hname
  rw [faults_eq_nil_iff.mpr hload] at he
  cases he

theorem not_loads_of_missing {t : Tag} (h : t.missing lookup = true) : ¬ t.Loads lookup := by
  intro hl
  cases h.symm.trans hl.1

theorem nodup_names {ts : List Tag} (hts : ts ∈ groups go) : (ts.map Tag.name).Nodup := by
  simp only [groups, List.mem_cons, List.not_mem_nil, or_false] at hts
  obtain rfl | rfl | rfl | rfl | rfl | rfl | rfl | rfl := hts
  · decide
  · decide
  · rw [names_boundsTags]
    decide
  · rw [names_metricsTags]
    decide
  all_goals decide

/-- A bad variable is an error of some group, though not always one that names it. -/
theorem Bad.fails {x : Bytes} (h : Bad go lookup x) : ∃ e, e ∈ (loadGroups go lookup).errors := by
  cases h with
  | unset hts ht hmissing =>
    obtain ⟨errs, hb, hr⟩ := report_of_group hts
    obtain ⟨e, he, _⟩ := hr.field_named ht (not_loads_of_missing hmissing)
    exact ⟨e, mem_loadGroups hb he⟩
  | @refused ts t hts ht hmissing hacc =>
    obtain ⟨errs, hb, hr⟩ := report_of_group hts
    by_cases hall : ∀ t ∈ ts, t.Loads lookup
    · obtain ⟨e, he, _⟩ := hr.rules hall t ht hacc
      exact ⟨e, mem_loadGroups hb he⟩
    · push Not at hall
      obtain ⟨t', ht', hload⟩ := hall
      obtain ⟨e, he, _⟩ := hr.field_named ht' hload
      exact ⟨e, mem_loadGroups hb he⟩
  | endpointUnset sig hraw =>
    obtain ⟨e, he, _⟩ := endpoint_named hraw
    exact ⟨e, mem_loadGroups_of_upstream he⟩
  | upstream s sig hr =>
    obtain ⟨e, he⟩ := List.exists_mem_of_ne_nil _ (upstream_fails hr)
    exact ⟨e, mem_loadGroups_of_upstream he⟩

theorem Bad.named {x : Bytes} (h : Bad go lookup x) (hj : Judged go lookup) :
    ∃ e ∈ (loadGroups go lookup).errors, x ∈ e.subjects := by
  cases h with
  | unset hts ht hmissing =>
    obtain ⟨errs, hb, hr⟩ := report_of_group hts
    obtain ⟨e, he, hname⟩ := hr.field_named ht (not_loads_of_missing hmissing)
    exact ⟨e, mem_loadGroups hb he, hname⟩
  | @refused ts t hts ht hmissing hacc =>
    obtain ⟨errs, hb, hr⟩ := report_of_group hts
    by_cases hload : t.Loads lookup
    · obtain ⟨e, he, hname⟩ := hr.rules (hj.rules ts hts t ht hload hacc) t ht hacc
      exact ⟨e, mem_loadGroups hb he, hname⟩
    · obtain ⟨e, he, hname⟩ := hr.field_named ht hload
      exact ⟨e, mem_loadGroups hb he, hname⟩
  | endpointUnset sig hraw =>
    obtain ⟨e, he, hname⟩ := endpoint_named hraw
    exact ⟨e, mem_loadGroups_of_upstream he, hname⟩
  | upstream s sig hr =>
    have hnamed : ∃ e ∈ (loadUpstream go lookup).errors, (value lookup s sig).name ∈ e.subjects := by
      by_cases hs : s = .endpoint
      · subst hs
        by_cases hraw : (value lookup .endpoint sig).raw = []
        · exact endpoint_named hraw
        · obtain ⟨sig', p, hname, hp⟩ := hj.endpoint sig hraw hr
          rw [← raw_of_name hname] at hr
          obtain ⟨f, hf⟩ := ownFaults_of_refuses go (fun s ↦ value lookup s sig') hr (fun _ ↦ Or.inr ⟨p, hp⟩)
          exact hname ▸ upstream_named hf
      · obtain ⟨f, hf⟩ := ownFaults_of_refuses go (fun s ↦ value lookup s sig) hr (fun h ↦ absurd h hs)
        exact upstream_named hf
    obtain ⟨e, he, hname⟩ := hnamed
    exact ⟨e, mem_loadGroups_of_upstream he, hname⟩

theorem rules_texts (s : Settings) : (s.validate.map (LoadError.error go)).Nodup := by
  unfold Settings.validate
  split_ifs
  · split
    · split_ifs <;> simp
    · exact List.nodup_nil
  · exact List.nodup_nil

theorem texts_nodup_of_words (hw : (∀ t ∈ identityTags, t.Loads lookup) → ∀ claims resources,
      parsePairs (Variable.claimAttributes.selected lookup) = .ok claims →
      parsePairs (Variable.clientResourceAttrs.selected lookup) = .ok resources →
      WordsApart claims.pairs resources.pairs) :
    ((loadGroups go lookup).errors.map (LoadError.error go)).Nodup := by
  rw [texts_nodup_groups]
  by_cases hall : ∀ t ∈ identityTags, t.Loads lookup
  · exact (identity_texts_iff go lookup hall).mpr (hw hall)
  · push Not at hall
    obtain ⟨t, ht, hload⟩ := hall
    exact identity_texts_of_field go lookup ht hload

end Reports

/-- A failed start names every bad variable and says nothing twice exactly when each is judged where it
stands. -/
theorem failed_start_names_every_bad_variable_iff (go : Library) (lookup : Lookup) :
    ((load go lookup).errors ≠ [] →
      (∀ x, Bad go lookup x → ∃ e ∈ (load go lookup).errors, x ∈ e.subjects ∧ x <:+: e.error go) ∧
      ((load go lookup).errors.map (LoadError.error go)).Nodup) ↔
    Judged go lookup := by
  constructor
  · intro h
    have hnamed {x : Bytes} (hbad : Bad go lookup x) :
        ∃ e ∈ (loadGroups go lookup).errors, x ∈ e.subjects := by
      obtain ⟨e, he⟩ := hbad.fails
      rw [errors_load he] at h
      obtain ⟨e', he', hx, _⟩ := (h (List.ne_nil_of_mem he)).1 x hbad
      exact ⟨e', he', hx⟩
    refine ⟨?_, ?_, ?_⟩
    · intro sig hraw hr
      by_contra hnone
      push Not at hnone
      obtain ⟨e, he, hx⟩ := hnamed (.upstream .endpoint sig hr)
      obtain ⟨f, rfl, horigin⟩ :=
        origin_of_mem_errors go lookup (mem_report upstream_mem_reports he hx (name_mem lookup .endpoint sig))
      exact horigin.not_endpoint hraw (fun sig' hname p hp ↦ hnone sig' p hname hp) hx
    · intro ts hts t ht hload hacc t' ht'
      by_contra hload'
      obtain ⟨errs, hb, hr⟩ := report_of_group hts
      obtain ⟨e, he, hx⟩ := hnamed (.refused hts ht hload.1 hacc)
      exact hr.not_named (nodup_names hts) ht hload ht' hload' e
        (mem_report hb he hx (List.mem_map_of_mem ht)) hx
    · intro hall
      rw [← identity_texts_iff go lookup hall, ← texts_nodup_groups]
      by_cases hne : (loadGroups go lookup).errors = []
      · rw [hne]
        exact List.nodup_nil
      · obtain ⟨e, he⟩ := List.exists_mem_of_ne_nil _ hne
        rw [errors_load he] at h
        exact (h hne).2
  · intro hj hne
    by_cases hgroups : (loadGroups go lookup).errors = []
    · refine ⟨fun x hbad ↦ ?_, ?_⟩
      · obtain ⟨e, he⟩ := hbad.fails
        exact absurd (hgroups ▸ he) List.not_mem_nil
      · rw [load, errors_check, hgroups]
        cases (loadGroups go lookup).value with
        | none => exact List.nodup_nil
        | some s => exact rules_texts s
    · obtain ⟨e, he⟩ := List.exists_mem_of_ne_nil _ hgroups
      rw [errors_load he]
      refine ⟨fun x hbad ↦ ?_, texts_nodup_of_words hj.words⟩
      obtain ⟨e', he', hx⟩ := hbad.named hj
      exact ⟨e', he', hx, e'.infix_error go hx⟩

def startupTexts (lookup : Lookup) : List Bytes :=
  (load exampleLibrary lookup).errors.map (LoadError.error exampleLibrary)

def badProtocolAndEndpoint : Lookup :=
  environment [("OTEL_EXPORTER_OTLP_PROTOCOL", "udp"), ("OTEL_EXPORTER_OTLP_ENDPOINT", "ftp://collector")]

def missingNamesAndBadAge : Lookup := environment [("ALLOWED_SERVICE_NAMES", ""), ("MAX_PAST_AGE", "-1h")]

def twoClaimsOfTheClient : Lookup := environment [("CLAIM_ATTRIBUTES", "sub=service.name,name=service.name")]

/-- A malformed PROTOCOL hides an ENDPOINT that no protocol accepts, a missing variable
hides an age that is never positive, and two claims for one name of the client's are
reported in the same words. -/
theorem bad_variables_go_unnamed :
    (startupTexts badProtocolAndEndpoint =
        [ofString "invalid OTEL_EXPORTER_OTLP_PROTOCOL udp: must be grpc or http/protobuf"] ∧
      Bad exampleLibrary badProtocolAndEndpoint (ofString "OTEL_EXPORTER_OTLP_ENDPOINT")) ∧
    (startupTexts missingNamesAndBadAge = [ofString "ALLOWED_SERVICE_NAMES is required"] ∧
      Bad exampleLibrary missingNamesAndBadAge (ofString "MAX_PAST_AGE")) ∧
    startupTexts twoClaimsOfTheClient =
      [ofString "CLAIM_ATTRIBUTES: service.name is the client's, not a claim's",
        ofString "CLAIM_ATTRIBUTES: service.name is the client's, not a claim's"] := by
  refine ⟨⟨by decide +kernel, ?_⟩, ⟨by decide +kernel, ?_⟩, by decide +kernel⟩
  · exact .upstream .endpoint .traces (by decide +kernel)
  · have hage : Variable.maxPastAge.ruled (fun d ↦ 0 < d) ∈ boundsTags exampleLibrary := by simp [boundsTags]
    have hbounds : boundsTags exampleLibrary ∈ groups exampleLibrary := by simp [groups]
    exact .refused hbounds hage (by decide +kernel) (by decide +kernel)

end OtlpCollectorOidc.Render

import OtlpCollectorOidc.Lib.ReadBack
import OtlpCollectorOidc.Render.KeyValues
import OtlpCollectorOidc.Render.Ports
import OtlpCollectorOidc.Upstream.Blame

namespace OtlpCollectorOidc.Render

open Text Number Strconv Upstream Validation Validation.Validated

section Groups

variable {go : Library} {lookup : Lookup}

theorem readIdentity_value {i : IdentityProviderSettings} : (readIdentity go lookup).value = some i ↔
    (Variable.issuerURL.field go lookup).value = some i.issuerURL ∧
    (Variable.audience.field go lookup).value = some i.audience ∧
    (Variable.discoveryRetry.field go lookup).value = some i.discoveryRetry ∧
    (Variable.jwksRefresh.field go lookup).value = some i.jwksRefresh ∧
    (Variable.requiredScope.field go lookup).value = some i.requiredScope ∧
    (Variable.requiredClaims.field go lookup).value = some i.requiredClaims ∧
    (Variable.claimAttributes.field go lookup).value = some i.claimAttributes ∧
    (Variable.clientResourceAttrs.field go lookup).value = some i.clientResourceAttrs ∧
    (Variable.clockSkew.field go lookup).value = some i.clockSkew ∧
    (Variable.rejectionLogInterval.field go lookup).value = some i.rejectionLogInterval := by
  obtain ⟨⟨claims, resources⟩, _⟩ := i
  simp only [readIdentity, value_seq, value_ok, exists_and_left, exists_eq_left', exists_exists_and_eq_and,
    exists_exists_and_exists_and_eq_and, ↓existsAndEq, and_true, and_assoc, IdentityProviderSettings.mk.injEq,
    IdentitySettings.mk.injEq, true_and]

theorem readListener_value {l : ListenerSettings} : (readListener go lookup).value = some l ↔
    (Variable.listenAddr.field go lookup).value = some l.listenAddr ∧
    (Variable.tlsCertFile.field go lookup).value = some l.tlsCertFile ∧
    (Variable.tlsKeyFile.field go lookup).value = some l.tlsKeyFile ∧
    (Variable.tlsReloadInterval.field go lookup).value = some l.tlsReloadInterval ∧
    (Variable.maxRequestBodyBytes.field go lookup).value = some l.maxRequestBodyBytes ∧
    (Variable.corsAllowedOrigins.field go lookup).value = some l.corsAllowedOrigins := by
  cases l
  simp [readListener, value_seq, value_ok, and_assoc]

theorem readBounds_value {b : BoundsSettings} : (readBounds go lookup).value = some b ↔
    ((Variable.allowedServiceNames go).field go lookup).value = some b.allowedServiceNames ∧
    (Variable.maxFutureSkew.field go lookup).value = some b.maxFutureSkew ∧
    (Variable.maxPastAge.field go lookup).value = some b.maxPastAge := by
  cases b
  simp [readBounds, value_seq, value_ok]

theorem readMetrics_value {m : MetricSettings} : (readMetrics go lookup).value = some m ↔
    ((Variable.allowedNames go).field go lookup).value = some m.allowedNames ∧
    (Variable.allowedAttributeKeys.field go lookup).value = some m.allowedAttributeKeys ∧
    (Variable.maxStreams.field go lookup).value = some m.maxStreams ∧
    (Variable.deltaMaxStale.field go lookup).value = some m.deltaMaxStale := by
  cases m
  simp [readMetrics, value_seq, value_ok, and_assoc]

theorem readResources_value {r : ResourceSettings} : (readResources go lookup).value = some r ↔
    (Variable.memoryLimitMiB.field go lookup).value = some r.memoryLimitMiB ∧
    (Variable.memorySpikeLimitMiB.field go lookup).value = some r.memorySpikeLimitMiB ∧
    (Variable.batchTimeout.field go lookup).value = some r.batchTimeout := by
  cases r
  simp [readResources, value_seq, value_ok]

theorem loadSelf_value {x : SelfSettings} : (loadSelf go lookup).value = some x ↔
    (Variable.healthAddr.field go lookup).value = some x.healthAddr ∧
    (Variable.selfMetricsAddr.field go lookup).value = some x.selfMetricsAddr := by
  cases x
  simp [loadSelf, value_seq, value_ok]

theorem loadLogs_value {x : LogSettings} : (loadLogs go lookup).value = some x ↔
    (Variable.level.field go lookup).value = some x.level ∧
    (Variable.format.field go lookup).value = some x.format := by
  cases x
  simp [loadLogs, value_seq, value_ok]

theorem loadOwn_value {o : OwnSettings} : (loadOwn go lookup).value = some o ↔
    (Variable.output.field go lookup).value = some o.output ∧
    (Variable.serviceName.field go lookup).value = some o.serviceName ∧
    (Variable.resourceAttributes.field go lookup).value = some o.resourceAttributes := by
  cases o
  simp [loadOwn, value_seq, value_ok]

end Groups

/-- Setting the variable to this text has its field read as it is. -/
def Variable.Keeps {α : Type} (v : Variable α) (a : α) (text : Bytes) : Prop :=
  text ≠ [] ∧ v.parse text = .ok a ∨ text = [] ∧ v.required = false ∧ v.parse v.default = .ok a

section Keeps

variable {go : Library} {lookup : Lookup} {α : Type} {v : Variable α} {a : α} {text : Bytes}

/-- A field has a value when what is required is set and what was selected parses. -/
theorem field_value : (v.field go lookup).value = some a ↔
    (v.required = true → (nonEmpty lookup v.name).isSome = true) ∧ v.parse (v.selected lookup) = .ok a := by
  rw [Variable.field, value_mapErrors, Variable.load]
  cases hrequired : v.required && (nonEmpty lookup v.name).isNone with
  | true =>
    rw [Bool.and_eq_true, Option.isNone_iff_eq_none] at hrequired
    refine iff_of_false ?_ ?_
    · simp [Validated.ofExcept, fail]
    · simp [hrequired]
  | false =>
    have hset : v.required = true → (nonEmpty lookup v.name).isSome = true := by
      intro h
      simpa [h] using hrequired
    cases hparse : v.parse (v.selected lookup) with
    | ok b => simpa [Validated.ofExcept, value_ok] using fun _ ↦ hset
    | error why => simp [Validated.ofExcept, fail]

theorem Variable.Keeps.field (h : v.Keeps a text) (hset : lookup v.name = some text) :
    (v.field go lookup).value = some a := by
  rw [field_value, Variable.selected, nonEmpty, hset, Option.filter_some]
  obtain ⟨hne, hparse⟩ | ⟨rfl, hrequired, hparse⟩ := h
  · simp [hne, hparse]
  · simp [hrequired, hparse]

theorem selected_ne_nil (h : (v.field go lookup).value = some a) (hnil : v.selected lookup = []) :
    v.required = false ∧ v.default = [] := by
  obtain ⟨hrequired, -⟩ := field_value.mp h
  unfold Variable.selected at hnil
  cases hset : nonEmpty lookup v.name with
  | some raw =>
    rw [hset] at hnil
    obtain ⟨-, hne⟩ := Option.filter_eq_some_iff.mp hset
    simp only [Option.getD_some] at hnil
    simp [hnil] at hne
  | none =>
    rw [hset] at hnil hrequired
    exact ⟨by simpa using hrequired, hnil⟩

/-- A variable that is read again from what it shows. -/
theorem keeps_printed (hagain : v.parse text = .ok a)
    (hnil : text = [] → v.required = false ∧ v.default = []) :
    v.Keeps a text := by
  by_cases htext : text = []
  · obtain ⟨hrequired, hdefault⟩ := hnil htext
    rw [htext] at hagain ⊢
    exact Or.inr ⟨rfl, hrequired, hdefault.symm ▸ hagain⟩
  · exact Or.inl ⟨htext, hagain⟩

/-- A variable that shows the text it was set to. -/
theorem keeps_same {f : α → Bytes} (hshown : ∀ raw a, v.parse raw = .ok a → f a = raw)
    (h : (v.field go lookup).value = some a) : v.Keeps a (f a) := by
  have hparse := parse_of_field h
  rw [hshown _ _ hparse]
  exact keeps_printed hparse (selected_ne_nil h)

end Keeps

section Kinds

variable {go : Library} {lookup : Lookup}

theorem keeps_text {v : Variable Bytes} {a : Bytes} (hv : v.parse = parseText)
    (h : (v.field go lookup).value = some a) :
    v.Keeps a a := by
  refine keeps_same (f := id) ?_ h
  intro raw a hparse
  rw [hv] at hparse
  exact (Except.ok.inj hparse).symm

theorem keeps_duration {v : Variable Duration} {d : Duration} (hv : v.parse = durationField)
    (h : (v.field go lookup).value = some d) : v.Keeps d (durationString d) := by
  have hparse := parse_of_field h
  rw [hv, durationField] at hparse
  refine Or.inl ⟨durationString_ne_nil d, ?_⟩
  split at hparse
  · rename_i d' hd
    cases hparse
    rw [hv, durationField, parseDuration_again hd]
  · cases hparse

theorem keeps_int {v : Variable ℤ} {n : ℤ} (hv : v.parse = int64Field)
    (h : (v.field go lookup).value = some n) :
    v.Keeps n (formatInt n) := by
  have hparse := parse_of_field h
  rw [hv, int64Field] at hparse
  refine Or.inl ⟨formatInt_ne_nil n, ?_⟩
  split at hparse
  · rename_i n' hn
    cases hparse
    rw [hv, int64Field, parseInt_again hn]
  · cases hparse

theorem keeps_uint {v : Variable ℕ} {n : ℕ} (hv : v.parse = uint32Field)
    (h : (v.field go lookup).value = some n) :
    v.Keeps n (formatInt n) := by
  have hparse := parse_of_field h
  rw [hv, uint32Field] at hparse
  refine Or.inl ⟨formatInt_ne_nil n, ?_⟩
  split at hparse
  · rename_i n' hn
    cases hparse
    have hagain : parseUint 32 (formatInt n) = some n := parseUint_decimal (parseUint_lt hn)
    rw [hv, uint32Field, hagain]
  · cases hparse

theorem keeps_addr {v : Variable Addr} {a : Addr} (hv : v.parse = Addr.unmarshalText)
    (h : (v.field go lookup).value = some a) : v.Keeps a a.string := by
  have hparse := parse_of_field h
  rw [hv] at hparse
  refine Or.inl ⟨?_, hv ▸ addr_survives_printing hparse⟩
  have hcolon : ofString ":" ≠ [] ∧ ofString "]:" ≠ [] := by decide
  unfold Addr.string
  split_ifs <;> simp [hcolon]

theorem keeps_pairs {v : Variable KeyValueList} {l : KeyValueList} (hv : v.parse = parsePairs)
    (hnil : l.pairs = [] → v.required = false ∧ v.default = []) (h : (v.field go lookup).value = some l) :
    v.Keeps l l.string := by
  have hparse := parse_of_field h
  rw [hv, parsePairs, mapError_eq_ok] at hparse
  have hagain := KeyValueList.unmarshalText_string (KeyValueList.plain_of_unmarshalText hparse)
  refine keeps_printed (by rw [hv, parsePairs, mapError_eq_ok, hagain]) ?_
  intro hstring
  have hempty : KeyValueList.unmarshalText [] = .ok .empty := rfl
  rw [hstring, hempty] at hagain
  exact hnil (congrArg KeyValueList.pairs (Except.ok.inj hagain).symm)

theorem splitList_displayList (raw : Bytes) : splitList (displayList (splitList raw)) = splitList raw := by
  have hitem : ∀ item ∈ splitList raw, 0x2C ∉ item ∧ trimSpace item = item ∧ item ≠ [] := by
    intro item hitem
    obtain ⟨hmem, hne⟩ := List.mem_filter.mp hitem
    obtain ⟨part, hpart, rfl⟩ := List.mem_map.mp hmem
    refine ⟨fun hcomma ↦ ?_, trimSpace_trimSpace part, by simpa using hne⟩
    exact notMem_of_mem_splitOn hpart (mem_of_mem_trimSpace hcomma)
  have hcomma : ofString "," = [0x2C] := by decide
  generalize splitList raw = l at hitem
  by_cases hnil : l = []
  · subst hnil
    rfl
  · rw [splitList, displayList, join, hcomma,
      List.splitOn_intercalate 0x2C (fun item h ↦ (hitem item h).1) hnil,
        List.map_congr_left (fun item h ↦ (hitem item h).2.1), List.map_id', List.filter_eq_self]
    intro item h
    simpa using (hitem item h).2.2

theorem keeps_list {v : Variable (List Bytes)} {l : List Bytes} (hv : v.parse = parseList)
    (hnil : l = [] → v.required = false ∧ v.default = []) (h : (v.field go lookup).value = some l) :
    v.Keeps l (displayList l) := by
  have hparse := parse_of_field h
  rw [hv, parseList] at hparse
  cases hparse
  have hagain := splitList_displayList (v.selected lookup)
  refine keeps_printed (by rw [hv, parseList, hagain]) ?_
  intro hdisplay
  rw [hdisplay] at hagain
  exact hnil (hagain.symm.trans rfl)

theorem servicePattern_shown {raw text : Bytes} (h : servicePattern go raw = .ok text) : text = raw := by
  unfold servicePattern at h
  split_ifs at h
  split at h
  · cases h
  · split at h
    · cases h
    · exact (Except.ok.inj h).symm

theorem metricPattern_shown {raw text : Bytes} (h : metricPattern go raw = .ok text) : text = raw := by
  unfold metricPattern at h
  split_ifs at h with hnil
  · cases h
    exact hnil.symm
  · exact servicePattern_shown h

theorem oneOf_string {β : Type} {options : List β} {string : β → Bytes} {why text : Bytes} {b : β}
    (h : oneOf options string why text = .ok b) : string b = text := by
  unfold oneOf at h
  split at h
  · rename_i o ho
    cases h
    simpa using List.find?_some ho
  · cases h

end Kinds

section Reload

def shownVariables (s : Settings) : List (Bytes × Bytes) :=
  identityFields s ++ listenerFields s ++ boundsFields s ++ metricsFields s ++
    resourcesFields s ++ processFields s

def reloaded (s : Settings) (lookup : Lookup) : Lookup := fun name ↦
  (((resolved s).find? (fun f ↦ f.1 = name)).map Prod.snd).or (lookup name)

theorem resolved_eq (s : Settings) : resolved s = shownVariables s ++ s.upstream.logFields := rfl

theorem find_key {l : List (Bytes × Bytes)} (hl : (l.map Prod.fst).Nodup) {name text : Bytes}
    (h : (name, text) ∈ l) :
    l.find? (fun f ↦ f.1 = name) = some (name, text) := by
  induction l with
  | nil => cases h
  | cons f l ih =>
    rw [List.map_cons, List.nodup_cons] at hl
    obtain rfl | h := List.mem_cons.mp h
    · simp
    · have hne : f.1 ≠ name := fun he ↦ hl.1 (he ▸ List.mem_map_of_mem (f := Prod.fst) h)
      rw [List.find?_cons_of_neg (by simpa using hne), ih hl.2 h]

theorem shownVariables_others (s : Settings) :
    ((shownVariables s).map Prod.fst).all (fun name ↦ name ∉ variableNames) = true := by
  simp only [shownVariables, identityFields, listenerFields, boundsFields, metricsFields, resourcesFields,
    processFields, List.cons_append, List.nil_append, List.map_cons, List.map_nil]
  decide +kernel

theorem upstreamField_other :
    ∀ sig ∈ signals, ofString "upstream." ++ sig.string ∉ variableNames := by decide +kernel

theorem nodup_shownVariables (s : Settings) : ((shownVariables s).map Prod.fst).Nodup := by
  simp only [shownVariables, identityFields, listenerFields, boundsFields, metricsFields, resourcesFields,
    processFields, List.cons_append, List.nil_append, List.map_cons, List.map_nil]
  decide +kernel

variable {s : Settings} {go : Library} {lookup : Lookup}

theorem reloaded_shown {name text : Bytes} (h : (name, text) ∈ shownVariables s) :
    reloaded s lookup name = some text := by
  rw [reloaded, resolved_eq, List.find?_append, find_key (nodup_shownVariables s) h]
  rfl

/-- No variable of an upstream is shown. -/
theorem reloaded_upstream {name : Bytes} (h : name ∈ variableNames) :
    reloaded s lookup name = lookup name := by
  have hnames : ∀ f ∈ resolved s, f.1 ∉ variableNames := by
    intro f hf
    rw [resolved_eq] at hf
    obtain hf | hf := List.mem_append.mp hf
    · simpa using List.all_eq_true.mp (shownVariables_others s) f.1 (List.mem_map_of_mem hf)
    · obtain ⟨sig, hsig, hcfg⟩ := List.mem_filterMap.mp hf
      obtain ⟨cfg, -, rfl⟩ := Option.map_eq_some_iff.mp hcfg
      exact upstreamField_other sig hsig
  have hnone : (resolved s).find? (fun f ↦ f.1 = name) = none := by
    rw [List.find?_eq_none]
    intro f hf he
    exact hnames f hf (of_decide_eq_true he ▸ h)
  rw [reloaded, hnone]
  rfl

theorem loadUpstream_reloaded {u : UpstreamSettings} (h : (loadUpstream go lookup).value = some u) :
    (loadUpstream go (reloaded s lookup)).value = some u := by
  have hbase : ∀ x : Setting, lookup x.baseName = reloaded s lookup x.baseName := by
    intro x
    exact (reloaded_upstream (List.mem_append_left _ (List.mem_map_of_mem (mem_settings x)))).symm
  have hown : ∀ x : Setting, ∀ sig ∈ pipelineSignals,
      lookup (x.signalName sig) = reloaded s lookup (x.signalName sig) := by
    intro x sig _
    refine (reloaded_upstream
      (List.mem_append_right _ (List.mem_flatMap.mpr ⟨sig, mem_signals sig, ?_⟩))).symm
    exact List.mem_map.mpr ⟨x, mem_settings x, rfl⟩
  obtain ⟨hmap, hfaults⟩ := resolve_reads go hbase hown
  have hnodup : pipelineSignals.Nodup := nodup_signals
  obtain ⟨hresolved, hnone⟩ := resolve_ok hnodup (resolve_of_loadUpstream h)
  obtain ⟨hagain, -⟩ | ⟨_, -, hsome, -⟩ := resolve_spec go (reloaded s lookup) hnodup
  · unfold loadUpstream
    split
    · rename_i m hm
      rw [hagain] at hm
      cases hm
      rw [value_ok, ← hmap, ← hresolved]
    · rename_i errs herr
      rw [hagain] at herr
      cases herr
  · exact absurd (hfaults.symm.trans hnone) hsome

/-- A field of settings is read again from the line, where it stands under its variable's name. -/
theorem field_reloaded {α : Type} {v : Variable α} {a : α} {text : Bytes}
    (h : (v.name, text) ∈ shownVariables s) (hk : v.Keeps a text) :
    (v.field go (reloaded s lookup)).value = some a := hk.field (reloaded_shown h)

theorem loadListener_reloaded (h : Loaded go lookup s) :
    (loadListener go (reloaded s lookup)).value = some s.listener := by
  obtain ⟨hread, hrule⟩ := value_check.mp h.listener
  obtain ⟨haddr, hcert, hkey, hreload, hbody, hcors⟩ := readListener_value.mp hread
  refine value_check.mpr ⟨readListener_value.mpr ⟨?_, ?_, ?_, ?_, ?_, ?_⟩, hrule⟩
  · exact field_reloaded (by simp [shownVariables, listenerFields]) (keeps_addr rfl haddr)
  · exact field_reloaded (by simp [shownVariables, listenerFields]) (keeps_text rfl hcert)
  · exact field_reloaded (by simp [shownVariables, listenerFields]) (keeps_text rfl hkey)
  · exact field_reloaded (by simp [shownVariables, listenerFields]) (keeps_duration rfl hreload)
  · exact field_reloaded (by simp [shownVariables, listenerFields]) (keeps_int rfl hbody)
  · exact field_reloaded (by simp [shownVariables, listenerFields])
      (keeps_list rfl (fun _ ↦ ⟨rfl, rfl⟩) hcors)

theorem loadBounds_reloaded (h : Loaded go lookup s) :
    (loadBounds go (reloaded s lookup)).value = some s.bounds := by
  obtain ⟨hread, hrule⟩ := value_check.mp h.bounds
  obtain ⟨hnames, hskew, hage⟩ := readBounds_value.mp hread
  refine value_check.mpr ⟨readBounds_value.mpr ⟨?_, ?_, ?_⟩, hrule⟩
  · exact field_reloaded (by simp [shownVariables, boundsFields, Variable.allowedServiceNames])
      (keeps_same (f := id) (fun _ _ ↦ servicePattern_shown) hnames)
  · exact field_reloaded (by simp [shownVariables, boundsFields]) (keeps_duration rfl hskew)
  · exact field_reloaded (by simp [shownVariables, boundsFields]) (keeps_duration rfl hage)

theorem loadMetrics_reloaded (h : Loaded go lookup s) :
    (loadMetrics go (reloaded s lookup)).value = some s.metrics := by
  obtain ⟨hread, hrule⟩ := value_check.mp h.metrics
  obtain ⟨hnames, hkeys, hstreams, hstale⟩ := readMetrics_value.mp hread
  refine value_check.mpr ⟨readMetrics_value.mpr ⟨?_, ?_, ?_, ?_⟩, hrule⟩
  · exact field_reloaded (by simp [shownVariables, metricsFields, Variable.allowedNames])
      (keeps_same (f := id) (fun _ _ ↦ metricPattern_shown) hnames)
  · exact field_reloaded (by simp [shownVariables, metricsFields]) (keeps_list rfl (fun _ ↦ ⟨rfl, rfl⟩) hkeys)
  · exact field_reloaded (by simp [shownVariables, metricsFields]) (keeps_int rfl hstreams)
  · exact field_reloaded (by simp [shownVariables, metricsFields]) (keeps_duration rfl hstale)

theorem loadResources_reloaded (h : Loaded go lookup s) :
    (loadResources go (reloaded s lookup)).value = some s.resources := by
  obtain ⟨hread, hrule⟩ := value_check.mp h.resources
  obtain ⟨hlimit, hspike, htimeout⟩ := readResources_value.mp hread
  refine value_check.mpr ⟨readResources_value.mpr ⟨?_, ?_, ?_⟩, hrule⟩
  · exact field_reloaded (by simp [shownVariables, resourcesFields]) (keeps_uint rfl hlimit)
  · exact field_reloaded (by simp [shownVariables, resourcesFields]) (keeps_uint rfl hspike)
  · exact field_reloaded (by simp [shownVariables, resourcesFields]) (keeps_duration rfl htimeout)

theorem loadSelf_reloaded (h : Loaded go lookup s) :
    (loadSelf go (reloaded s lookup)).value = some s.self := by
  obtain ⟨hhealth, hmetrics⟩ := loadSelf_value.mp h.self
  refine loadSelf_value.mpr ⟨?_, ?_⟩
  · exact field_reloaded (by simp [shownVariables, processFields]) (keeps_addr rfl hhealth)
  · exact field_reloaded (by simp [shownVariables, processFields]) (keeps_addr rfl hmetrics)

theorem loadLogs_reloaded (h : Loaded go lookup s) :
    (loadLogs go (reloaded s lookup)).value = some s.logs := by
  obtain ⟨hlevel, hformat⟩ := loadLogs_value.mp h.logs
  refine loadLogs_value.mpr ⟨?_, ?_⟩
  · exact field_reloaded (by simp [shownVariables, processFields])
      (keeps_same (fun _ _ ↦ oneOf_string) hlevel)
  · exact field_reloaded (by simp [shownVariables, processFields])
      (keeps_same (fun _ _ ↦ oneOf_string) hformat)

theorem loadOwn_reloaded (h : Loaded go lookup s) : (loadOwn go (reloaded s lookup)).value = some s.own := by
  obtain ⟨houtput, hname, hattrs⟩ := loadOwn_value.mp h.own
  refine loadOwn_value.mpr ⟨?_, ?_, ?_⟩
  · exact field_reloaded (by simp [shownVariables, processFields])
      (keeps_same (fun _ _ ↦ oneOf_string) houtput)
  · exact field_reloaded (by simp [shownVariables, processFields]) (keeps_text rfl hname)
  · exact field_reloaded (by simp [shownVariables, processFields])
      (keeps_pairs rfl (fun _ ↦ ⟨rfl, rfl⟩) hattrs)

/-- A list of no claims is shown as nothing, which stands for the default. -/
def claimsReloaded (claims : List Bytes) : List Bytes :=
  if claims = [] then splitList Variable.requiredClaims.default else claims

theorem keeps_requiredClaims {claims : List Bytes}
    (h : (Variable.requiredClaims.field go lookup).value = some claims) :
    Variable.requiredClaims.Keeps (claimsReloaded claims) (displayList claims) := by
  by_cases hnil : claims = []
  · subst hnil
    exact Or.inr ⟨rfl, rfl, rfl⟩
  · rw [claimsReloaded, if_neg hnil]
    exact keeps_list rfl (fun hclaims ↦ absurd hclaims hnil) h

theorem loadIdentity_reloaded (h : Loaded go lookup s) : (loadIdentity go (reloaded s lookup)).value =
    some { s.identity with requiredClaims := claimsReloaded s.identity.requiredClaims } := by
  obtain ⟨hread, hrule⟩ := value_check.mp h.identity
  have hclaims : s.identity.claimAttributes.pairs ≠ [] := by
    intro hnil
    simp [IdentitySettings.validate, hnil] at hrule
  obtain ⟨hissuer, haudience, hretry, hrefresh, hscope, hrequired, hattrs, hresources, hskew, hinterval⟩ :=
    readIdentity_value.mp hread
  refine value_check.mpr ⟨readIdentity_value.mpr ⟨?_, ?_, ?_, ?_, ?_, ?_, ?_, ?_, ?_, ?_⟩, hrule⟩
  · exact field_reloaded (by simp [shownVariables, identityFields]) (keeps_text rfl hissuer)
  · exact field_reloaded (by simp [shownVariables, identityFields]) (keeps_text rfl haudience)
  · exact field_reloaded (by simp [shownVariables, identityFields]) (keeps_duration rfl hretry)
  · exact field_reloaded (by simp [shownVariables, identityFields]) (keeps_duration rfl hrefresh)
  · exact field_reloaded (by simp [shownVariables, identityFields]) (keeps_text rfl hscope)
  · exact field_reloaded (by simp [shownVariables, identityFields]) (keeps_requiredClaims hrequired)
  · exact field_reloaded (by simp [shownVariables, identityFields])
      (keeps_pairs rfl (fun hnil ↦ absurd hnil hclaims) hattrs)
  · exact field_reloaded (by simp [shownVariables, identityFields])
      (keeps_pairs rfl (fun _ ↦ ⟨rfl, rfl⟩) hresources)
  · exact field_reloaded (by simp [shownVariables, identityFields]) (keeps_duration rfl hskew)
  · exact field_reloaded (by simp [shownVariables, identityFields]) (keeps_duration rfl hinterval)

end Reload

/-- With every variable set as the startup line shows it, and the upstream's own left as they were, the
settings load again as they are; only a list of required claims that names none comes back as the
default one. -/
theorem startup_line_reloads (go : Library) (lookup : Lookup) (s : Settings)
    (h : (load go lookup).value = some s) :
    (load go (reloaded s lookup)).value =
      some { s with
        identity := { s.identity with requiredClaims := claimsReloaded s.identity.requiredClaims } } ∧
    ((load go (reloaded s lookup)).value = some s ↔ s.identity.requiredClaims ≠ []) := by
  have hs := loaded_of_load h
  have hreload : (load go (reloaded s lookup)).value =
      some { s with
        identity := { s.identity with requiredClaims := claimsReloaded s.identity.requiredClaims } } := by
    refine value_check.mpr ⟨loadGroups_value.mpr ?_, hs.rules⟩
    exact {
      identity := loadIdentity_reloaded hs
      upstream := loadUpstream_reloaded hs.upstream
      listener := loadListener_reloaded hs
      bounds := loadBounds_reloaded hs
      metrics := loadMetrics_reloaded hs
      resources := loadResources_reloaded hs
      self := loadSelf_reloaded hs
      logs := loadLogs_reloaded hs
      own := loadOwn_reloaded hs
      instanceID := hs.instanceID }
  refine ⟨hreload, ?_⟩
  rw [hreload]
  constructor
  · intro hsame hnil
    have hclaims : claimsReloaded s.identity.requiredClaims = s.identity.requiredClaims :=
      congrArg (fun t : Settings ↦ t.identity.requiredClaims) (Option.some.inj hsame)
    rw [hnil] at hclaims
    exact absurd hclaims (by decide)
  · intro hne
    rw [claimsReloaded, if_neg hne]

theorem fractions_reload :
    ∃ s, (load exampleLibrary (environment [("CLOCK_SKEW", "1.5m"), ("BATCH_TIMEOUT", "2500us")])).value =
      some s ∧ (ofString "CLOCK_SKEW", ofString "1m30s") ∈ resolved s ∧
        (ofString "BATCH_TIMEOUT", ofString "2.5ms") ∈ resolved s ∧
      (load exampleLibrary (reloaded s
        (environment [("CLOCK_SKEW", "1.5m"), ("BATCH_TIMEOUT", "2500us")]))).value = some s := by
  obtain ⟨s, hs, hshown⟩ := Option.map_eq_some_iff.mp (by decide +kernel :
    (load exampleLibrary (environment [("CLOCK_SKEW", "1.5m"), ("BATCH_TIMEOUT", "2500us")])).value.map
      (fun s ↦ ((resolved s)[8]?, (resolved s)[25]?, s.identity.requiredClaims)) =
      some (some (ofString "CLOCK_SKEW", ofString "1m30s"), some (ofString "BATCH_TIMEOUT", ofString "2.5ms"),
        [ofString "sub", ofString "preferred_username"]))
  simp only [Prod.mk.injEq] at hshown
  obtain ⟨hskew, htimeout, hclaims⟩ := hshown
  have hreload := (startup_line_reloads exampleLibrary _ s hs).2.mpr (by simp [hclaims])
  exact ⟨s, hs, List.mem_of_getElem? hskew, List.mem_of_getElem? htimeout, hreload⟩

end OtlpCollectorOidc.Render

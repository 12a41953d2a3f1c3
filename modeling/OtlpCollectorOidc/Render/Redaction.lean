import OtlpCollectorOidc.Render.Document

namespace OtlpCollectorOidc.Render

open Text Upstream Yaml Grouping

def Settings.shown (s : Settings) : Settings := { s with upstream := s.upstream.redacted }

def maskHeader : Node → Node
  | .map entries => .map (entries.map (fun e ↦
      if e.1 = .plain "value" || e.1 = .quoted (quote "value") then (e.1, q "<redacted>") else e))
  | x => x

def maskHeaders (key : Key) : Node → Option Node
  | .seq items =>
    if key = .plain "headers" || key = .quoted (quote "headers") then
      some (.seq (items.map maskHeader)) else none
  | _ => none

def masked (doc : Node) : Node := doc.edit maskHeaders

section Masked

theorem masked_entry {key : String} (h : key ≠ "headers") (x : Node) :
    editEntry maskHeaders (entry key x) = entry key (masked x) := by
  cases x with
  | seq items => simp [editEntry, entry, maskHeaders, masked, ofString_inj, h]
  | _ => rfl

@[simp] theorem masked_q (v : Bytes) : masked (q v) = q v := edit_scalar _ _

@[simp] theorem masked_word (v : Bytes) : masked (word v) = word v := edit_scalar _ _

@[simp] theorem masked_number (n : ℤ) : masked (number n) = number n := edit_scalar _ _

@[simp] theorem masked_flag (b : Bool) : masked (flag b) = flag b := edit_scalar _ _

@[simp] theorem masked_seq (items : List Node) : masked (.seq items) = .seq (items.map masked) := edit_seq _ _

@[simp] theorem masked_map (entries : List (Key × Node)) :
    masked (.map entries) = .map (entries.map (editEntry maskHeaders)) := edit_map _ _

@[simp] theorem masked_list (items : List Bytes) : masked (list items) = list items := by
  simp [list]

@[simp] theorem masked_optional {key : String} (h : key ≠ "headers") (v : Bytes) :
    (optional key v).map (editEntry maskHeaders) = optional key v := by
  rw [optional]
  split_ifs <;> simp [masked_entry h]

theorem masked_member_q (key : String) (v : Bytes) :
    editEntry maskHeaders (member key (q v)) = member key (q v) := rfl

theorem masked_nonEmptyMember (key : String) (v : Bytes) :
    (nonEmptyMember key v).map (editEntry maskHeaders) = nonEmptyMember key v := by
  rw [nonEmptyMember]
  split_ifs <;> rfl

theorem masked_pairs (kvs : List KeyValue) :
    (kvs.map pairEntry).map (editEntry maskHeaders) = kvs.map pairEntry := by
  rw [List.map_map]
  rfl

theorem masked_nodes {α : Type} {node : α → Node} (h : ∀ a, masked (node a) = node a) (xs : List α) :
    (xs.map node).map masked = xs.map node := by
  rw [List.map_map]
  exact List.map_congr_left (fun a _ ↦ h a)

variable (s : Settings)

theorem masked_receivers : masked (receivers s) = receivers s := by
  rw [receivers]
  split_ifs <;> simp [masked_entry]

theorem masked_attributeActionNode (a : AttributeAction) :
    masked (attributeActionNode a) = attributeActionNode a := by
  simp [attributeActionNode, masked_entry]

theorem masked_resourceActionNode (a : ResourceAction) :
    masked (resourceActionNode a) = resourceActionNode a := by
  rw [resourceActionNode]
  split_ifs <;> simp [masked_entry]

theorem masked_metricResourceNode (kv : KeyValue) :
    masked (metricResourceNode kv) = metricResourceNode kv := by
  simp [metricResourceNode, masked_entry]

theorem masked_processors : masked (processors s) = processors s := by
  have ha := masked_nodes masked_attributeActionNode (identityActions s.identity.claimAttributes)
  have hr := masked_nodes masked_resourceActionNode
    (resourceActions s.identity.claimAttributes s.identity.clientResourceAttrs)
  have hm := masked_nodes masked_metricResourceNode s.identity.clientResourceAttrs.pairs
  rw [processors]
  split_ifs <;> simp only [masked_map, masked_seq, masked_list, masked_entry, masked_word, masked_number,
    masked_q, List.map_append, List.map_cons, List.map_nil, ha, hr, hm, ne_eq, String.reduceEq,
      not_false_eq_true]

theorem masked_extensions : masked (extensions s) = extensions s := by
  simp only [extensions, masked_map, masked_list, masked_entry, masked_q, masked_pairs, List.map_cons,
    List.map_nil, ne_eq, String.reduceEq, not_false_eq_true]

theorem maskHeader_headerNode (h : Header) : maskHeader (headerNode h) = headerNode (mask h) := rfl

theorem maskHeader_jsonHeader (h : Header) : maskHeader (jsonHeader h) = jsonHeader (mask h) := rfl

theorem masked_tlsNode (cfg : ExporterConfig) : masked (tlsNode cfg) = tlsNode cfg := by
  rw [tlsNode]
  split_ifs <;> simp [masked_entry]

theorem masked_headers {key : Key} (hk : key = .plain "headers" ∨ key = .quoted (quote "headers"))
    {node : Header → Node} (hnode : ∀ h, maskHeader (node h) = node (mask h)) (hs : List Header) :
    editEntry maskHeaders (key, .seq (hs.map node)) = (key, .seq ((hs.map mask).map node)) := by
  have hkey : (key = .plain "headers" || key = .quoted (quote "headers")) = true := by simpa using hk
  simp only [editEntry, maskHeaders, hkey, if_true, Option.getD_some, List.map_map]
  congr 2
  exact List.map_congr_left (fun h _ ↦ hnode h)

/-- Of an exporter's configuration only the headers change. -/
theorem masked_exporterNode (e : Exporter) :
    masked (exporterNode e) = exporterNode { e with headers := e.headers.map mask } := by
  have hends : (e.endpoints.map (fun x ↦ (Key.plain x.key, q x.value))).map (editEntry maskHeaders) =
      e.endpoints.map (fun x ↦ (Key.plain x.key, q x.value)) := by
    rw [List.map_map]
    rfl
  have hheaders : editEntry maskHeaders (entry "headers" (.seq (e.headers.map headerNode))) =
      entry "headers" (.seq ((e.headers.map mask).map headerNode)) :=
    masked_headers (Or.inl rfl) maskHeader_headerNode e.headers
  simp only [exporterNode, List.map_eq_nil_iff]
  split_ifs <;> simp only [masked_map, masked_entry, masked_flag, masked_number, masked_q, masked_tlsNode,
    List.map_append, List.map_cons, List.map_nil, hends, hheaders, ne_eq, String.reduceEq, not_false_eq_true]

theorem masked_otlpExporter (e : OtlpExporter) :
    masked e.node = ({ e with headers := e.headers.map mask } : OtlpExporter).node := by
  have hheaders : editEntry maskHeaders (member "headers" (.seq (e.headers.map jsonHeader))) =
      member "headers" (.seq ((e.headers.map mask).map jsonHeader)) :=
    masked_headers (Or.inr rfl) maskHeader_jsonHeader e.headers
  have hflag : editEntry maskHeaders (member "insecure" (flag true)) = member "insecure" (flag true) := rfl
  have hnumber : editEntry maskHeaders (member "timeout" (number e.timeout)) =
      member "timeout" (number e.timeout) :=
    rfl
  simp only [OtlpExporter.node, List.map_eq_nil_iff]
  split_ifs <;> simp only [masked_map, masked_member_q, masked_nonEmptyMember, List.map_append, List.map_cons,
    List.map_nil, hheaders, hflag, hnumber]

theorem masked_processorsNode (e : OtlpExporter) :
    masked (processorsNode e) = processorsNode { e with headers := e.headers.map mask } := by
  have hmember (key : String) (es : List (Key × Node)) :
      editEntry maskHeaders (member key (.map es)) = member key (masked (.map es)) := rfl
  simp only [processorsNode, masked_seq, masked_map, List.map_cons, List.map_nil, hmember]
  have hnode := masked_otlpExporter e
  rw [OtlpExporter.node] at hnode ⊢
  rw [hmember, hnode]

theorem masked_logsNode (processors : Option OtlpExporter) :
    (processors.map (fun e ↦ entry "processors" (processorsNode e))).toList.map (editEntry maskHeaders) =
      ((processors.map (fun e ↦ { e with headers := e.headers.map mask })).map
        (fun e ↦ entry "processors" (processorsNode e))).toList := by
  cases processors with
  | none => rfl
  | some e => simp [masked_entry, masked_processorsNode]

theorem masked_pipelineNode (chain : List Bytes) (exporter : Bytes) :
    masked (pipelineNode chain exporter) = pipelineNode chain exporter := by
  simp [pipelineNode, masked_entry, masked_nodes masked_word]

theorem masked_resourceNode : masked (resourceNode s) = resourceNode s := by
  simp only [resourceNode, masked_map, List.map_append, List.map_cons, List.map_nil, masked_member_q,
    masked_nonEmptyMember, masked_pairs]

theorem masked_metricsNode : masked (metricsNode s) = metricsNode s := by
  simp [metricsNode, masked_entry]

end Masked

def redactedConfig (cfg : ExporterConfig) : ExporterConfig := { cfg with headers := cfg.headers.redacted }

/-- Two upstreams that differ in nothing but the values of their headers. -/
def SameButValues (cfg cfg' : ExporterConfig) : Prop :=
  { cfg with headers := cfg'.headers } = cfg' ∧ cfg.headers.names = cfg'.headers.names

theorem map_mask (hs : List Header) :
    hs.map mask = (hs.map Header.name).map (fun name ↦ ⟨name, "<redacted>"⟩) := by
  rw [List.map_map]
  rfl

/-- Headers in the form `newHeaders` gives them, which redaction keeps one by one. -/
def Redactable (u : UpstreamSettings) : Prop :=
  ∀ sig cfg, u.bySignal sig = some cfg → cfg.headers.redacted.pairs = cfg.headers.pairs.map mask

/-- No two signals' upstreams differ in header values alone. -/
def ToldApart (u : UpstreamSettings) : Prop :=
  ∀ sig sig' cfg cfg', u.bySignal sig = some cfg → u.bySignal sig' = some cfg' →
    SameButValues cfg cfg' → cfg = cfg'

section Upstream

variable {u : UpstreamSettings}

theorem redacted_eq_iff (hu : Redactable u) {sig sig' : Signal} {cfg cfg' : ExporterConfig}
    (hcfg : u.bySignal sig = some cfg) (hcfg' : u.bySignal sig' = some cfg') :
    redactedConfig cfg = redactedConfig cfg' ↔ SameButValues cfg cfg' := by
  have hnames : cfg.headers.redacted = cfg'.headers.redacted ↔ cfg.headers.names = cfg'.headers.names := by
    constructor
    · intro h
      have hp := congrArg (fun x : Headers ↦ x.pairs.map Header.name) h
      simp only [hu sig cfg hcfg, hu sig' cfg' hcfg', List.map_map] at hp
      exact hp
    · intro h
      rw [Headers.redacted, Headers.redacted, map_mask, map_mask]
      exact congrArg (fun names : List Bytes ↦ newHeaders (names.map (fun name ↦ ⟨name, "<redacted>"⟩))) h
  cases cfg
  cases cfg'
  simp only [redactedConfig, SameButValues, ExporterConfig.mk.injEq, ← hnames]
  tauto

theorem bySignal_redacted (sig : Signal) :
    u.redacted.bySignal sig = (u.bySignal sig).map redactedConfig := rfl

theorem resolved_redacted : u.redacted.resolved = u.resolved := by
  simp only [UpstreamSettings.resolved, bySignal_redacted, Option.isSome_map]

variable (hu : Redactable u) (htold : ToldApart u)
include hu htold

theorem redacted_inj {sig sig' : Signal} {cfg cfg' : ExporterConfig} (hcfg : u.bySignal sig = some cfg)
    (hcfg' : u.bySignal sig' = some cfg') (h : redactedConfig cfg = redactedConfig cfg') : cfg = cfg' :=
  htold sig sig' cfg cfg' hcfg hcfg' ((redacted_eq_iff hu hcfg hcfg').mp h)

theorem served_redacted {sig : Signal} {cfg : ExporterConfig} (hcfg : u.bySignal sig = some cfg) :
    u.redacted.served (redactedConfig cfg) = u.served cfg := by
  apply List.filter_congr
  intro sig' _
  rw [decide_eq_decide, bySignal_redacted, Option.map_eq_some_iff]
  constructor
  · rintro ⟨cfg', hcfg', he⟩
    rw [hcfg', redacted_inj hu htold hcfg' hcfg he]
  · exact fun h ↦ ⟨cfg, h, rfl⟩

theorem order_redacted :
    (group u.redacted.bySignal signals).order = (group u.bySignal signals).order.map redactedConfig :=
  order_group_map (fun _ _ _ _ _ _ hx hy ↦ redacted_inj hu htold hx hy)

/-- Told apart, the upstreams are grouped and named as before. -/
theorem exporter_redacted {sig : Signal} {cfg : ExporterConfig} (hcfg : u.bySignal sig = some cfg) :
    u.redacted.exporter (redactedConfig cfg) (u.redacted.served (redactedConfig cfg)) =
      { u.exporter cfg (u.served cfg) with
        config := redactedConfig cfg
        headers := (u.exporter cfg (u.served cfg)).headers.map mask } := by
  rw [served_redacted hu htold hcfg, UpstreamSettings.exporter, resolved_redacted]
  simp only [UpstreamSettings.exporter, SignalExporter.mk.injEq, Exporter.mk.injEq]
  exact ⟨⟨rfl, trivial, rfl, hu sig cfg hcfg⟩, trivial⟩

theorem all_redacted : u.redacted.all = u.all.map (fun e ↦
    { e with config := redactedConfig e.config, headers := e.headers.map mask }) := by
  rw [all_eq, all_eq, order_redacted hu htold, List.map_map, List.map_map]
  apply List.map_congr_left
  intro cfg hcfg
  obtain ⟨sig, _, hsig⟩ := mem_order_group.mp hcfg
  exact exporter_redacted hu htold hsig

theorem exporterFor_redacted {sig : Signal} {cfg : ExporterConfig} (hcfg : u.bySignal sig = some cfg) :
    u.redacted.exporterFor sig.string = u.exporterFor sig.string := by
  have hred : u.redacted.bySignal sig = some (redactedConfig cfg) := by
    rw [bySignal_redacted, hcfg]
    rfl
  rw [exporterFor_eq hcfg, exporterFor_eq hred, exporter_redacted hu htold hcfg]

end Upstream

section Document

variable {s : Settings}

theorem selfLogProcessors_shown (hu : Redactable s.upstream) :
    s.shown.selfLogProcessors =
      s.selfLogProcessors.map (fun e ↦ { e with headers := e.headers.map mask }) := by
  have hout : s.shown.own = s.own := rfl
  have hlogs : s.shown.upstream.logs = s.upstream.logs.map redactedConfig := rfl
  rw [Settings.selfLogProcessors, Settings.selfLogProcessors, hout, hlogs]
  split_ifs
  · cases hcfg : s.upstream.logs with
    | none => rfl
    | some cfg =>
      have hp : cfg.headers.redacted.pairs = cfg.headers.pairs.map mask := hu .logs cfg hcfg
      simp only [Option.map_some, selfLogsExporter, redactedConfig, hp]
  · rfl

theorem exportersNode_shown (hu : Redactable s.upstream) (htold : ToldApart s.upstream) :
    exportersNode s.shown = masked (exportersNode s) := by
  have hall : s.shown.upstream.exporters = s.upstream.exporters.map (fun e ↦
      { e with config := redactedConfig e.config, headers := e.headers.map mask }) := by
    have hr := all_redacted hu htold
    change s.upstream.redacted.all.map _ = (s.upstream.all.map _).map _
    rw [hr, List.map_map, List.map_map]
    rfl
  have hentry (e : Exporter) (es : List (Key × Node)) (h : exporterNode e = .map es) :
      editEntry maskHeaders (.plain e.id, exporterNode e) = (.plain e.id, masked (exporterNode e)) := by
    rw [h]
    rfl
  rw [exportersNode, exportersNode, hall, masked_map, List.map_map, List.map_map]
  congr 1
  apply List.map_congr_left
  intro e _
  rw [Function.comp_apply, Function.comp_apply, hentry e _ rfl, masked_exporterNode]
  rfl

theorem masked_logsNode_shown (hu : Redactable s.upstream) : masked (logsNode s) = logsNode s.shown := by
  have hprocessors := masked_logsNode s.selfLogProcessors
  rw [← selfLogProcessors_shown hu] at hprocessors
  simp only [logsNode, masked_map, List.map_append, List.map_cons, List.map_nil, masked_entry, masked_q,
    masked_list, hprocessors, ne_eq, String.reduceEq, not_false_eq_true]
  rfl

theorem masked_service (hu : Redactable s.upstream) (traces logs metrics : Bytes) :
    masked (service s traces logs metrics) = service s.shown traces logs metrics := by
  simp only [service, masked_map, List.map_cons, List.map_nil, masked_entry, masked_seq, masked_word,
    masked_pipelineNode, masked_resourceNode, masked_metricsNode, masked_logsNode_shown hu, ne_eq,
      String.reduceEq,
    not_false_eq_true]
  rfl

theorem masked_document (traces logs metrics : Bytes) :
    masked (document s traces logs metrics) = .map [
      entry "receivers" (receivers s),
      entry "processors" (processors s),
      entry "exporters" (masked (exportersNode s)),
      entry "extensions" (extensions s),
      entry "service" (masked (service s traces logs metrics))] := by
  simp only [document, masked_map, List.map_cons, List.map_nil, masked_entry, masked_receivers,
    masked_processors, masked_extensions, ne_eq, String.reduceEq, not_false_eq_true]

/-- The exporters the pipelines of a document name. -/
theorem service_inj {t : Settings} {traces logs metrics traces' logs' metrics' : Bytes}
    (h : service s traces logs metrics = service t traces' logs' metrics') :
    traces = traces' ∧ logs = logs' ∧ metrics = metrics' := by
  simp [service, pipelineNode, entry, word] at h
  tauto

theorem exists_redacted (hall : ∀ sig, ∃ cfg, s.upstream.bySignal sig = some cfg) (sig : Signal) :
    ∃ cfg, s.shown.upstream.bySignal sig = some cfg := by
  obtain ⟨cfg, hcfg⟩ := hall sig
  exact ⟨redactedConfig cfg, (bySignal_redacted sig).trans (congrArg _ hcfg)⟩

/-- Where the logged document is the masked one, its pipelines name the same exporters. -/
theorem exporterFor_of_shown (hu : Redactable s.upstream)
    (hall : ∀ sig, ∃ cfg, s.upstream.bySignal sig = some cfg) (h : render s.shown = (render s).map masked)
    (sig : Signal) :
    s.upstream.redacted.exporterFor sig.string = s.upstream.exporterFor sig.string := by
  obtain ⟨ids, hids, hrender⟩ := render_eq hall
  obtain ⟨ids', hids', hrender'⟩ := render_eq (exists_redacted hall)
  rw [hrender, hrender'] at h
  have hdoc := Except.ok.inj h
  rw [masked_document, masked_service hu] at hdoc
  simp only [document, Node.map.injEq, List.cons.injEq, entry, Prod.mk.injEq] at hdoc
  obtain ⟨htraces, hlogs, hmetrics⟩ := service_inj hdoc.2.2.2.2.1.2
  have hids' : s.upstream.redacted.exporterFor sig.string = .ok (ids' sig) := hids' sig
  rw [hids, hids']
  cases sig with
  | traces => rw [htraces]
  | logs => rw [hlogs]
  | metrics => rw [hmetrics]

theorem shown_of_toldApart (hu : Redactable s.upstream)
    (hall : ∀ sig, ∃ cfg, s.upstream.bySignal sig = some cfg) (htold : ToldApart s.upstream) :
    render s.shown = (render s).map masked := by
  obtain ⟨ids, hids, hrender⟩ := render_eq hall
  obtain ⟨ids', hids', hrender'⟩ := render_eq (exists_redacted hall)
  have hsame : ids' = ids := by
    funext sig
    obtain ⟨cfg, hcfg⟩ := hall sig
    have he := exporterFor_redacted hu htold hcfg
    exact Except.ok.inj ((hids' sig).symm.trans (he.trans (hids sig)))
  rw [hrender, hrender', hsame, Except.map, masked_document, masked_service hu,
    ← exportersNode_shown hu htold]
  rfl

end Document

theorem redactable_of_loaded {go : Library} {lookup : Lookup} {s : Settings} (h : Loaded go lookup s) :
    Redactable s.upstream := by
  intro sig cfg hcfg
  obtain ⟨p, hp, rfl⟩ := h.parses hcfg
  have hheaders := hp.headers
  rw [parseHeaders] at hheaders
  cases hitems : parseItems [] 1 ((value lookup .headers sig).raw.splitOn 0x2C) with
  | error e => simp [hitems, Except.map] at hheaders
  | ok hs =>
    rw [hitems] at hheaders
    have he : newHeaders hs = p.headers := Except.ok.inj hheaders
    change p.headers.redacted.pairs = p.headers.pairs.map mask
    rw [← he, pairs_redacted]

/-- The document logged at debug is the one that runs, its header values masked, just
when no two signals' upstreams differ in header values alone. -/
theorem shown_is_masked_iff (go : Library) (lookup : Lookup) (s : Settings)
    (hload : (load go lookup).value = some s) (id : Bytes) :
    render (Settings.shown { s with instanceID := id }) =
      (render { s with instanceID := id }).map masked ↔ ToldApart s.upstream := by
  have hl := loaded_of_load hload
  have hu := redactable_of_loaded hl
  have hall : ∀ sig, ∃ cfg, s.upstream.bySignal sig = some cfg :=
    fun sig ↦ (hl.signalConfig sig).imp (fun _ h ↦ h.1)
  constructor
  · intro h sig sig' cfg cfg' hcfg hcfg' hsame
    have hred := (redacted_eq_iff hu hcfg hcfg').mpr hsame
    have hcommon : s.upstream.redacted.exporterFor sig.string =
        s.upstream.redacted.exporterFor sig'.string := by
      have hb := (bySignal_redacted sig).trans (congrArg (Option.map redactedConfig) hcfg)
      have hb' := (bySignal_redacted sig').trans (congrArg (Option.map redactedConfig) hcfg')
      rw [exporterFor_eq hb, exporterFor_eq hb', hred]
    have hkept := exporterFor_of_shown (s := { s with instanceID := id }) hu hall h
    have hids : s.upstream.exporterFor sig.string = s.upstream.exporterFor sig'.string :=
      (hkept sig).symm.trans (hcommon.trans (hkept sig'))
    rw [exporterFor_eq hcfg, exporterFor_eq hcfg'] at hids
    exact exporter_id_inj hcfg hcfg' (Except.ok.inj hids)
  · exact shown_of_toldApart (s := { s with instanceID := id }) hu hall

def oneToken : Lookup := environment [("OTEL_EXPORTER_OTLP_HEADERS", "authorization=a")]

def twoTokens : Lookup :=
  environment [("OTEL_EXPORTER_OTLP_HEADERS", "authorization=a"),
    ("OTEL_EXPORTER_OTLP_LOGS_HEADERS", "authorization=b")]

theorem one_token_shown : ∃ s, (load exampleLibrary oneToken).value = some s ∧
    render s.shown = (render s).map masked := by
  obtain ⟨s, hs, hsame⟩ :=
    Option.map_eq_some_iff.mp (by decide +kernel : (load exampleLibrary oneToken).value.map
    (fun s ↦ (decide (s.upstream.bySignal .traces = s.upstream.bySignal .logs),
      decide (s.upstream.bySignal .logs = s.upstream.bySignal .metrics),
        s.instanceID)) = some (true, true, []))
  simp only [Prod.mk.injEq, decide_eq_true_eq] at hsame
  obtain ⟨hlogs, hmetrics, hid⟩ := hsame
  have hone (sig : Signal) : s.upstream.bySignal sig = s.upstream.bySignal .logs := by
    cases sig with
    | traces => exact hlogs
    | logs => rfl
    | metrics => exact hmetrics.symm
  refine ⟨s, hs, ?_⟩
  have h := (shown_is_masked_iff exampleLibrary oneToken s hs []).mpr (by
    intro sig sig' cfg cfg' hcfg hcfg' _
    rw [hone] at hcfg hcfg'
    exact Option.some.inj (hcfg.symm.trans hcfg'))
  rw [← hid] at h
  exact h

/-- Logs sent with another token than traces and metrics: the logged document shows
one exporter where two run. -/
theorem two_tokens_shown_as_one : ∃ s, (load exampleLibrary twoTokens).value = some s ∧
    s.upstream.exporters.map (fun e ↦ e.id) =
      [ofString "otlp_grpc/traces_metrics", ofString "otlp_grpc/logs"] ∧
    s.shown.upstream.exporters.map (fun e ↦ e.id) = [ofString "otlp_grpc"] ∧
    render s.shown ≠ (render s).map masked := by
  obtain ⟨s, hs, hids⟩ :=
    Option.map_eq_some_iff.mp (by decide +kernel : (load exampleLibrary twoTokens).value.map
    (fun s ↦ (s.upstream.exporters.map (fun e ↦ e.id), s.shown.upstream.exporters.map (fun e ↦ e.id),
      (s.upstream.exporterFor "logs").toOption, (s.upstream.redacted.exporterFor "logs").toOption)) =
    some ([ofString "otlp_grpc/traces_metrics", ofString "otlp_grpc/logs"], [ofString "otlp_grpc"],
      some (ofString "otlp_grpc/logs"), some (ofString "otlp_grpc")))
  simp only [Prod.mk.injEq] at hids
  obtain ⟨hrun, hshown, hlogs, hlogs'⟩ := hids
  refine ⟨s, hs, hrun, hshown, fun h ↦ ?_⟩
  have hl := loaded_of_load hs
  have hkept := exporterFor_of_shown (redactable_of_loaded hl)
    (fun sig ↦ (hl.signalConfig sig).imp (fun _ h ↦ h.1)) h .logs
  simp only [Signal.string] at hkept
  rw [hkept, hlogs] at hlogs'
  exact absurd hlogs' (by decide)

end OtlpCollectorOidc.Render

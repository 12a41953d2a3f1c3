import Mathlib.Data.List.Sublists
import OtlpCollectorOidc.Lib.Grouping
import OtlpCollectorOidc.Upstream.Config

namespace OtlpCollectorOidc.Render

open Text Upstream Grouping

structure UpstreamSettings where
  bySignal : Signal → Option ExporterConfig := fun _ ↦ none

structure Endpoint where
  key : Bytes
  value : Bytes
  deriving DecidableEq

/-- One exporter block: the configuration some signals share, and the keys its
endpoint is rendered under. -/
structure Exporter where
  id : Bytes
  config : ExporterConfig
  endpoints : List Endpoint
  headers : List Header
  deriving DecidableEq

structure SignalExporter extends Exporter where
  signals : List Signal
  deriving DecidableEq

def componentType : Protocol → Bytes
  | .grpc => "otlp_grpc"
  | .httpProtobuf => "otlp_http"

def endpointKey (sig : Signal) : Bytes := sig.string ++ ofString "_endpoint"

def endpoints (cfg : ExporterConfig) (sigs : List Signal) : List Endpoint :=
  if cfg.protocol = .grpc || cfg.signalPath then [⟨"endpoint", cfg.endpoint⟩]
  else sigs.map (fun sig ↦ ⟨endpointKey sig, cfg.endpoint⟩)

def namedId (p : Protocol) (sigs : List Signal) : Bytes :=
  componentType p ++ (ofString "/" ++ join (ofString "_") (sigs.map Signal.string))

namespace UpstreamSettings

variable (u : UpstreamSettings)

def resolved : List Signal := signals.filter (fun sig ↦ (u.bySignal sig).isSome)

/-- The exporter of the signals that share a configuration; its id names them
unless they are all there are. -/
def exporter (cfg : ExporterConfig) (sigs : List Signal) : SignalExporter where
  id := if sigs.length < u.resolved.length then namedId cfg.protocol sigs else componentType cfg.protocol
  config := cfg
  endpoints := endpoints cfg sigs
  headers := cfg.headers.pairs
  signals := sigs

def all : List SignalExporter :=
  let groups := group u.bySignal signals
  groups.order.map (fun cfg ↦ u.exporter cfg (groups.members cfg))

def exporters : List Exporter := u.all.map SignalExporter.toExporter

def exporterFor (signal : Bytes) : Except Bytes Bytes :=
  match parseSignal signal with
  | none => .error (ofString "unknown signal " ++ signal)
  | some sig =>
    match u.all.find? (fun e ↦ sig ∈ e.signals) with
    | some e => .ok e.id
    | none => .error (ofString "no upstream resolved for " ++ signal)

def logs : Option ExporterConfig := u.bySignal .logs

def redacted : UpstreamSettings where
  bySignal sig := (u.bySignal sig).map (fun cfg ↦ { cfg with headers := cfg.headers.redacted })

def logFields : List (Bytes × Bytes) :=
  signals.filterMap (fun sig ↦
    (u.bySignal sig).map (fun cfg ↦ (ofString "upstream." ++ sig.string, cfg.string)))

def served (cfg : ExporterConfig) : List Signal := signals.filter (fun sig ↦ u.bySignal sig = some cfg)

end UpstreamSettings

/-- Where an exporter sends a signal: to the signal's own key, else to the common one. -/
def Exporter.destination (e : Exporter) (sig : Signal) : Option Bytes :=
  ((e.endpoints.find? (fun x ↦ x.key = endpointKey sig)) <|>
    (e.endpoints.find? (fun x ↦ x.key = ofString "endpoint"))).map Endpoint.value

section All

variable {u : UpstreamSettings}

theorem mem_served {sig : Signal} {cfg : ExporterConfig} :
    sig ∈ u.served cfg ↔ u.bySignal sig = some cfg := by
  simp [UpstreamSettings.served, mem_signals]

theorem all_eq : u.all = (group u.bySignal signals).order.map (fun cfg ↦ u.exporter cfg (u.served cfg)) := by
  simp only [UpstreamSettings.all, members_group]
  rfl

theorem mem_all {e : SignalExporter} :
    e ∈ u.all ↔ ∃ sig cfg, u.bySignal sig = some cfg ∧ e = u.exporter cfg (u.served cfg) := by
  rw [all_eq, List.mem_map]
  constructor
  · rintro ⟨cfg, hcfg, rfl⟩
    obtain ⟨sig, _, hsig⟩ := mem_order_group.mp hcfg
    exact ⟨sig, cfg, hsig, rfl⟩
  · rintro ⟨sig, cfg, hsig, rfl⟩
    exact ⟨cfg, mem_order_group.mpr ⟨sig, mem_signals sig, hsig⟩, rfl⟩

theorem configs_all : u.all.map (fun e ↦ e.config) = (group u.bySignal signals).order := by
  rw [all_eq, List.map_map]
  exact List.map_id _

theorem mem_resolved {sig : Signal} : sig ∈ u.resolved ↔ (u.bySignal sig).isSome = true := by
  simp [UpstreamSettings.resolved, mem_signals]

theorem served_sublist (cfg : ExporterConfig) : (u.served cfg).Sublist u.resolved := by
  apply List.monotone_filter_right
  intro sig hsig
  simp only [decide_eq_true_eq] at hsig
  simp [hsig]

/-- A configuration that not fewer than all signals have is everyone's. -/
theorem bySignal_of_serves_all {cfg : ExporterConfig} (h : ¬ (u.served cfg).length < u.resolved.length)
    {sig : Signal} {other : ExporterConfig} (hsig : u.bySignal sig = some other) : other = cfg := by
  have he : u.served cfg = u.resolved := (served_sublist cfg).eq_of_length_le (not_lt.mp h)
  have hm : sig ∈ u.served cfg := by
    rw [he, mem_resolved, hsig]
    rfl
  exact Option.some.inj (hsig.symm.trans (mem_served.mp hm))

theorem namedId_inj (p q : Protocol) : ∀ s ∈ signals.sublists, ∀ t ∈ signals.sublists,
    namedId p s = namedId q t → s = t := by
  cases p <;> cases q <;> decide +kernel

theorem served_mem_sublists (cfg : ExporterConfig) : u.served cfg ∈ signals.sublists :=
  List.mem_sublists.mpr List.filter_sublist

theorem exporter_id_inj {sig sig' : Signal} {cfg cfg' : ExporterConfig} (hsig : u.bySignal sig = some cfg)
    (hsig' : u.bySignal sig' = some cfg')
    (he : (u.exporter cfg (u.served cfg)).id = (u.exporter cfg' (u.served cfg')).id) : cfg = cfg' := by
  by_cases h : (u.served cfg).length < u.resolved.length
  · by_cases h' : (u.served cfg').length < u.resolved.length
    · simp only [UpstreamSettings.exporter, if_pos h, if_pos h'] at he
      have hs := namedId_inj _ _ _ (served_mem_sublists cfg) _ (served_mem_sublists cfg') he
      have hm : sig ∈ u.served cfg' := hs ▸ mem_served.mpr hsig
      exact Option.some.inj (hsig.symm.trans (mem_served.mp hm))
    · exact bySignal_of_serves_all h' hsig
  · exact (bySignal_of_serves_all h hsig').symm

theorem eq_exporter_of_serves {e : SignalExporter} (he : e ∈ u.all) {sig : Signal} (hsig : sig ∈ e.signals)
    {cfg : ExporterConfig} (hcfg : u.bySignal sig = some cfg) : e = u.exporter cfg (u.served cfg) := by
  obtain ⟨_, other, _, rfl⟩ := mem_all.mp he
  have ho : other = cfg := Option.some.inj ((mem_served.mp hsig).symm.trans hcfg)
  rw [ho]

theorem find_all {sig : Signal} {cfg : ExporterConfig} (hcfg : u.bySignal sig = some cfg) :
    u.all.find? (fun e ↦ sig ∈ e.signals) = some (u.exporter cfg (u.served cfg)) := by
  have hmem : u.exporter cfg (u.served cfg) ∈ u.all := mem_all.mpr ⟨sig, cfg, hcfg, rfl⟩
  have hsig : sig ∈ (u.exporter cfg (u.served cfg)).signals := mem_served.mpr hcfg
  have hsome : (u.all.find? (fun e ↦ sig ∈ e.signals)).isSome = true :=
    List.find?_isSome.mpr ⟨_, hmem, by simpa using hsig⟩
  obtain ⟨e, he⟩ := Option.isSome_iff_exists.mp hsome
  have hserves : sig ∈ e.signals := by simpa using List.find?_some he
  rw [he, eq_exporter_of_serves (List.mem_of_find?_eq_some he) hserves hcfg]

theorem exporterFor_eq {sig : Signal} {cfg : ExporterConfig} (hcfg : u.bySignal sig = some cfg) :
    u.exporterFor sig.string = .ok (u.exporter cfg (u.served cfg)).id := by
  rw [UpstreamSettings.exporterFor, parseSignal_string]
  simp only [find_all hcfg]

theorem nodup_ids (u : UpstreamSettings) : (u.all.map (fun e ↦ e.id)).Nodup := by
  rw [all_eq, List.map_map]
  apply List.Nodup.map_on _ (nodup_order_group _ _)
  intro cfg hcfg cfg' hcfg' he
  obtain ⟨_, _, hsig⟩ := mem_order_group.mp hcfg
  obtain ⟨_, _, hsig'⟩ := mem_order_group.mp hcfg'
  exact exporter_id_inj hsig hsig' he

end All

theorem endpointKey_inj {sig sig' : Signal} (h : endpointKey sig = endpointKey sig') : sig = sig' := by
  cases sig <;> cases sig' <;> first | rfl | exact absurd h (by decide)

theorem endpointKey_ne (sig : Signal) : endpointKey sig ≠ ofString "endpoint" := by
  cases sig <;> decide

/-- Every pipeline is wired to its own signal's upstream and to no other. -/
structure Wired (u : UpstreamSettings) : Prop where
  ids : (u.all.map (fun e ↦ e.id)).Nodup
  configs : (u.all.map (fun e ↦ e.config)).Nodup
  one : ∀ sig cfg, u.bySignal sig = some cfg → ∃! e, e ∈ u.all ∧ sig ∈ e.signals
  exporterFor : ∀ sig cfg, u.bySignal sig = some cfg → ∃ e ∈ u.all, e.config = cfg ∧
    u.exporterFor sig.string = .ok e.id ∧ ∀ e' ∈ u.all, e'.config = cfg → e' = e
  shared : ∀ sig sig' cfg cfg', u.bySignal sig = some cfg → u.bySignal sig' = some cfg' →
    ((∃ e ∈ u.all, sig ∈ e.signals ∧ sig' ∈ e.signals) ↔ cfg = cfg')
  own : ∀ e ∈ u.all, ∀ sig ∈ e.signals, ∀ cfg, u.bySignal sig = some cfg →
    e.destination sig = some cfg.endpoint ∧
    if cfg.protocol = .grpc || cfg.signalPath then e.endpoints = [⟨"endpoint", cfg.endpoint⟩]
    else ⟨endpointKey sig, cfg.endpoint⟩ ∈ e.endpoints ∧ ∀ x ∈ e.endpoints, x.key ≠ ofString "endpoint"
  foreign : ∀ e ∈ u.all, ∀ sig, sig ∉ e.signals → ∀ x ∈ e.endpoints, x.key ≠ endpointKey sig

theorem mem_endpoints_named {cfg : ExporterConfig} (hb : ¬ (cfg.protocol = .grpc || cfg.signalPath) = true)
    {sigs : List Signal} {x : Endpoint} :
    x ∈ endpoints cfg sigs ↔ ∃ sig ∈ sigs, x = ⟨endpointKey sig, cfg.endpoint⟩ := by
  rw [endpoints, if_neg hb, List.mem_map]
  simp only [eq_comm]

theorem find_endpointKey {cfg : ExporterConfig} (hb : ¬ (cfg.protocol = .grpc || cfg.signalPath) = true)
    {sigs : List Signal} {sig : Signal} (h : sig ∈ sigs) :
    (endpoints cfg sigs).find? (fun x ↦ x.key = endpointKey sig) = some ⟨endpointKey sig, cfg.endpoint⟩ := by
  have hsome : ((endpoints cfg sigs).find? (fun x ↦ x.key = endpointKey sig)).isSome = true := by
    rw [List.find?_isSome]
    exact ⟨_, (mem_endpoints_named hb).mpr ⟨sig, h, rfl⟩, by simp⟩
  obtain ⟨x, hx⟩ := Option.isSome_iff_exists.mp hsome
  obtain ⟨sig', _, rfl⟩ := (mem_endpoints_named hb).mp (List.mem_of_find?_eq_some hx)
  have hkey : endpointKey sig' = endpointKey sig := by simpa using List.find?_some hx
  rw [hx, hkey]

theorem destination_exporter (u : UpstreamSettings) {cfg : ExporterConfig} {sigs : List Signal} {sig : Signal}
    (h : sig ∈ sigs) : (u.exporter cfg sigs).destination sig = some cfg.endpoint := by
  by_cases hb : (cfg.protocol = .grpc || cfg.signalPath) = true
  · have he : (u.exporter cfg sigs).endpoints = [⟨"endpoint", cfg.endpoint⟩] := if_pos hb
    simp [Exporter.destination, he, (endpointKey_ne sig).symm]
  · rw [Exporter.destination, show (u.exporter cfg sigs).endpoints = endpoints cfg sigs from rfl,
      find_endpointKey hb h]
    rfl

theorem pipelines_wired (u : UpstreamSettings) : Wired u where
  ids := nodup_ids u
  configs := by
    rw [configs_all]
    exact nodup_order_group _ _
  one := by
    intro sig cfg hcfg
    refine ⟨u.exporter cfg (u.served cfg), ⟨mem_all.mpr ⟨sig, cfg, hcfg, rfl⟩, mem_served.mpr hcfg⟩, ?_⟩
    rintro e ⟨he, hsig⟩
    exact eq_exporter_of_serves he hsig hcfg
  exporterFor := by
    intro sig cfg hcfg
    refine ⟨u.exporter cfg (u.served cfg), mem_all.mpr ⟨sig, cfg, hcfg, rfl⟩, rfl, exporterFor_eq hcfg, ?_⟩
    intro e he hc
    obtain ⟨_, other, _, rfl⟩ := mem_all.mp he
    cases hc
    rfl
  shared := by
    intro sig sig' cfg cfg' hcfg hcfg'
    constructor
    · rintro ⟨e, he, hsig, hsig'⟩
      have hc := (eq_exporter_of_serves he hsig hcfg).symm.trans (eq_exporter_of_serves he hsig' hcfg')
      exact congrArg (fun e ↦ e.config) hc
    · rintro rfl
      exact ⟨_, mem_all.mpr ⟨sig, cfg, hcfg, rfl⟩, mem_served.mpr hcfg, mem_served.mpr hcfg'⟩
  own := by
    intro e he sig hsig cfg hcfg
    rw [eq_exporter_of_serves he hsig hcfg]
    refine ⟨destination_exporter u (mem_served.mpr hcfg), ?_⟩
    split_ifs with hb
    · exact if_pos hb
    · refine ⟨(mem_endpoints_named hb).mpr ⟨sig, mem_served.mpr hcfg, rfl⟩, ?_⟩
      intro x hx
      obtain ⟨sig', _, rfl⟩ := (mem_endpoints_named hb).mp hx
      exact endpointKey_ne sig'
  foreign := by
    intro e he sig hsig x hx hk
    obtain ⟨_, cfg, _, rfl⟩ := mem_all.mp he
    by_cases hb : (cfg.protocol = .grpc || cfg.signalPath) = true
    · have hx' : x = ⟨"endpoint", cfg.endpoint⟩ := by
        have hx : x ∈ endpoints cfg (u.served cfg) := hx
        rw [endpoints, if_pos hb] at hx
        exact List.mem_singleton.mp hx
      exact endpointKey_ne sig (hk.symm.trans (congrArg Endpoint.key hx'))
    · obtain ⟨sig', hsig', rfl⟩ := (mem_endpoints_named hb).mp hx
      exact hsig (endpointKey_inj hk ▸ hsig')

end OtlpCollectorOidc.Render

import OtlpCollectorOidc.Render.Keys

namespace OtlpCollectorOidc.Render

open Text Strconv Yaml Upstream

def selfMetricsPort (doc : Node) : Option Node := do
  let service ← doc.member "service"
  let telemetry ← service.member "telemetry"
  let metrics ← telemetry.member "metrics"
  let readers ← metrics.member "readers"
  let reader ← readers.item 0
  let pull ← reader.member "pull"
  let exporter ← pull.member "exporter"
  let prometheus ← exporter.member "prometheus"
  prometheus.member "port"

theorem selfMetricsPort_document (s : Settings) (traces logs metrics : Bytes) :
    selfMetricsPort (document s traces logs metrics) = some (word s.self.selfMetricsAddr.port) := by
  rfl

theorem selfMetricsPort_render {s : Settings} {doc : Node} (h : render s = .ok doc) :
    selfMetricsPort doc = some (word s.self.selfMetricsAddr.port) := by
  unfold render at h
  cases ht : s.upstream.exporterFor "traces" <;> rw [ht] at h
  · cases h
  · cases hl : s.upstream.exporterFor "logs" <;> rw [hl] at h
    · cases h
    · cases hm : s.upstream.exporterFor "metrics" <;> rw [hm] at h
      · cases h
      · cases h
        exact selfMetricsPort_document s _ _ _

section Addr

variable {host port : Bytes}

/-- A host and port that `net.SplitHostPort` can give. -/
structure Splits (host port : Bytes) : Prop where
  noColon : 0x3A ∉ port
  noOpen : 0x5B ∉ host ++ port
  noClose : 0x5D ∉ host ++ port

theorem splits_of_splitHostPort {text : Bytes} (h : splitHostPort text = some (host, port)) :
    Splits host port := by
  unfold splitHostPort at h
  simp only [Option.bind_eq_bind, Option.bind_eq_some_iff, Prod.exists] at h
  obtain ⟨before, last, hlast, h⟩ := h
  obtain ⟨hsplit, hcolon⟩ := Url.cutLast_eq_some hlast
  split at h
  · rename_i rest
    simp only [Option.bind_eq_some_iff, Prod.exists] at h
    obtain ⟨inner, after, hcut, h⟩ := h
    obtain ⟨hrest, hinner⟩ := cut_eq_some hcut
    split_ifs at h with hafter
    simp only [Bool.and_eq_true, decide_eq_true_eq] at hafter
    obtain ⟨⟨hport, hopen⟩, hclose⟩ := hafter
    cases h
    rw [hrest, hport] at hopen
    rw [hport] at hclose
    simp only [List.mem_append, List.mem_cons, not_or] at hopen hclose
    exact ⟨hcolon, by simp [hopen.1, hopen.2.2.2], by simp [hinner, hclose.2]⟩
  · split_ifs at h with hbad
    simp only [Bool.or_eq_true, decide_eq_true_eq, not_or] at hbad
    cases h
    rw [hsplit] at hbad
    simp only [List.mem_append, List.mem_cons, not_or] at hbad
    exact ⟨hcolon, by simp [hbad.1.2.1, hbad.1.2.2.2], by simp [hbad.2.1, hbad.2.2.2]⟩

/-- Joining a host and port puts the brackets back exactly where the host needs them. -/
theorem splitHostPort_string (h : Splits host port) :
    splitHostPort (Addr.string ⟨host, port⟩) = some (host, port) := by
  have hopen := h.noOpen
  have hclose := h.noClose
  rw [List.mem_append, not_or] at hopen hclose
  have hbracket : ofString "[" = [0x5B] := by decide
  have hmiddle : ofString "]:" = [0x5D, 0x3A] := by decide
  have hcolon : ofString ":" = [0x3A] := by decide
  unfold Addr.string
  split_ifs with hhost
  · have htext : ofString "[" ++ host ++ ofString "]:" ++ port = (0x5B :: host ++ [0x5D]) ++
        0x3A :: port := by
      simp [hbracket, hmiddle]
    have hcut : cut 0x5D (host ++ 0x5D :: 0x3A :: port) = some (host, 0x3A :: port) := cut_append hclose.1
    rw [htext, splitHostPort, Url.cutLast_append _ h.noColon]
    simp [hcut, hopen.1, hopen.2, hclose.2]
  · have htext : host ++ ofString ":" ++ port = host ++ 0x3A :: port := by simp [hcolon]
    rw [htext, splitHostPort, Url.cutLast_append _ h.noColon]
    simp only [Option.bind_eq_bind, Option.bind_some]
    split
    · rename_i rest hrest
      have hmem : 0x5B ∈ host ++ 0x3A :: port := by
        rw [hrest]
        exact List.mem_cons_self
      simp [hopen.1, hopen.2] at hmem
    · simp [hhost, hopen.1, hopen.2, hclose.1, hclose.2]

theorem unmarshalText_eq_ok {text : Bytes} {a : Addr} (h : Addr.unmarshalText text = .ok a) :
    splitHostPort text = some (a.host, a.port) ∧ a.host ≠ [] ∧ ∃ n, parseInt 64 a.port = some n ∧
      1 ≤ n ∧ n ≤ 65535 := by
  unfold Addr.unmarshalText at h
  split at h
  · cases h
  · rename_i host port hsplit
    split_ifs at h with hhost
    split at h
    · rename_i n hn
      split_ifs at h with hrange
      cases h
      simp only [Bool.or_eq_true, decide_eq_true_eq, not_or, not_lt] at hrange
      exact ⟨hsplit, hhost, n, hn, hrange.1, hrange.2⟩
    · cases h

theorem addr_survives_printing {text : Bytes} {a : Addr} (h : Addr.unmarshalText text = .ok a) :
    Addr.unmarshalText a.string = .ok a := by
  obtain ⟨hsplit, hhost, n, hn, hlow, hhigh⟩ := unmarshalText_eq_ok h
  have hagain : splitHostPort a.string = some (a.host, a.port) :=
    splitHostPort_string (splits_of_splitHostPort hsplit)
  have hrange : ¬ (n < 1 ∨ 65535 < n) := by omega
  rw [Addr.unmarshalText, hagain]
  simp [hhost, hn, hrange]

end Addr

/-- After its sign, no zero leads a port, or it is one octal digit after zeros, or some digit of it is
no octal one. -/
def PlainPort (port : Bytes) : Prop :=
  (signOf port).2.head? ≠ some 0x30 ∨ ZeroPadded (signOf port).2 ∨ ∃ d ∈ (signOf port).2, d = 0x38 ∨ d = 0x39

theorem notMem_of_positive {bs ds : Bytes} (h : Positive bs ds) : 0x5F ∉ bs := by
  have hds : 0x5F ∉ ds := fun hmem ↦ absurd (List.all_eq_true.mp h.digits _ hmem) (by decide)
  obtain rfl | rfl := h.sign
  · exact hds
  · simp [hds]

theorem integer_word_iff {port ds : Bytes} (h : Positive port ds) (hexact : valueFrom 0 ds ≤ 2 ^ 53) :
    (word port).integer = some ↑(valueFrom 0 ds) ↔ PlainPort port := by
  have hfilter : port.filter (· ≠ 0x5F) = port := by
    rw [List.filter_eq_self]
    intro c hc
    have hne : c ≠ 0x5F := fun he ↦ notMem_of_positive h (he ▸ hc)
    simpa using hne
  have hplain := parseIntBaseZero_eq_iff h
  have hnone := parseIntBaseZero_eq_none_iff h
  rw [word, Node.integer, hfilter, parseWholeFloat_positive h hexact, PlainPort, h.signOf]
  -- The float is what counts once no integer is read.
  cases hread : parseIntBaseZero 64 port with
  | none =>
    refine iff_of_true rfl (Or.inr (Or.inr ?_))
    exact (hnone.mp hread).2
  | some n =>
    rw [hread] at hplain hnone
    rw [Option.some_or, hplain]
    constructor
    · rintro (h | h)
      · exact Or.inl h
      · exact Or.inr (Or.inl h)
    · rintro (h | h | h)
      · exact Or.inl h
      · exact Or.inr h
      · refine Or.inl (fun hzero ↦ ?_)
        cases hnone.mpr ⟨hzero, h⟩

/-- Every address survives its own printing, and the own metrics' port is read back as it was checked
exactly when it is plain. -/
theorem self_metrics_port_read_iff {s : Settings} {doc : Node} (hdoc : render s = .ok doc) {text : Bytes}
    (htext : Addr.unmarshalText text = .ok s.self.selfMetricsAddr) :
    (∃ n port, parseInt 64 s.self.selfMetricsAddr.port = some n ∧ 1 ≤ n ∧ n ≤ 65535 ∧
      selfMetricsPort doc = some port ∧ (port.integer = some n ↔ PlainPort s.self.selfMetricsAddr.port)) ∧
    ∀ text a, Addr.unmarshalText text = .ok a → Addr.unmarshalText a.string = .ok a := by
  refine ⟨?_, fun _ _ h ↦ addr_survives_printing h⟩
  obtain ⟨_, _, n, hn, hlow, hhigh⟩ := unmarshalText_eq_ok htext
  obtain ⟨ds, hpositive, rfl⟩ := positive_of_parseInt hn (by omega)
  exact ⟨_, _, hn, hlow, hhigh, selfMetricsPort_render hdoc,
    integer_word_iff hpositive (by omega)⟩

def portReadBack (vars : List (String × String)) : Option (Option ℤ × Option ℤ) := do
  let s ← (load exampleLibrary (environment vars)).value
  let doc ← (render s).toOption
  let port ← selfMetricsPort doc
  some (parseInt 64 s.self.selfMetricsAddr.port, port.integer)

theorem default_port_read_back :
    ∃ s doc, (load exampleLibrary (environment [])).value = some s ∧ render s = .ok doc ∧
      ∃ port, selfMetricsPort doc = some port ∧ port.integer = some 8888 := by
  obtain ⟨s, hs, haddr⟩ := Option.map_eq_some_iff.mp (by decide +kernel :
    (load exampleLibrary (environment [])).value.map
      (fun s ↦ (s.self.selfMetricsAddr.host, s.self.selfMetricsAddr.port)) =
      some (ofString "0.0.0.0", ofString "8888"))
  obtain ⟨hhost, hport⟩ := Prod.mk.inj haddr
  have htext : Addr.unmarshalText (ofString "0.0.0.0:8888") = .ok s.self.selfMetricsAddr := by
    rw [show s.self.selfMetricsAddr = ⟨ofString "0.0.0.0", ofString "8888"⟩ from by rw [← hhost, ← hport]]
    rfl
  obtain ⟨_, _, hrender⟩ := render_eq (fun sig ↦ ((loaded_of_load hs).signalConfig sig).imp (fun _ h ↦ h.1))
  obtain ⟨⟨n, port, hn, _, _, hfound, hread⟩, _⟩ := self_metrics_port_read_iff hrender htext
  rw [hport] at hn hread
  have hvalue : n = 8888 := Option.some.inj (hn.symm.trans (by decide))
  refine ⟨s, _, hs, hrender, port, hfound, ?_⟩
  rw [← hvalue]
  exact hread.mpr (Or.inl (by decide))

/-- A port of ten written with a leading zero is opened as port eight. -/
theorem zero_led_ports_misread :
    portReadBack [("SELF_METRICS_ADDR", "0.0.0.0:010")] = some (some 10, some 8) := by
  decide +kernel

end OtlpCollectorOidc.Render

import OtlpCollectorOidc.Render.Document

namespace OtlpCollectorOidc.Render

open Text Upstream Yaml Validation.Validated

/-- A key that can be read once `quote` has written it: no character that the reader refuses and no line
break, in at most 1024 characters. -/
def KeyReadable (admits : Char → Bool) (key : Bytes) : Prop :=
  (∀ c ∈ chars key, readable admits c = true ∧ c.toNat ≠ 0x85) ∧ (chars (quote key)).length ≤ 1024

section Breaks

theorem isBreak_escapeOf {c : Char} {e : List Char} (h : Json.escapeOf c = some e) :
    ∀ x ∈ e, isBreak x = false := by
  have hhex : ∀ n < 16, isBreak (Json.hex n) = false := by decide
  unfold Json.escapeOf at h
  split_ifs at h with h₁ h₂ h₃ h₄ h₅ h₆ h₇ h₈ <;> cases h
  all_goals simp only [List.forall_mem_cons, List.not_mem_nil, false_imp_iff, implies_true, and_true]
  · simp only [Bool.or_eq_true, decide_eq_true_eq] at h₁
    obtain rfl | rfl := h₁ <;> exact ⟨rfl, rfl⟩
  · exact ⟨rfl, rfl⟩
  · exact ⟨rfl, rfl⟩
  · exact ⟨rfl, rfl⟩
  · exact ⟨rfl, rfl⟩
  · exact ⟨rfl, rfl⟩
  · exact ⟨rfl, rfl, rfl, rfl, hhex _ (by omega), hhex _ (by omega)⟩
  · exact ⟨rfl, rfl, rfl, rfl, rfl, hhex _ (by omega)⟩

/-- The one line break that `quote` does not escape. -/
theorem isBreak_quoteChar (c : Char) : (∀ x ∈ quoteChar c, isBreak x = false) ↔ c.toNat ≠ 0x85 := by
  cases he : Json.escapeOf c with
  | some e =>
    have hne : c.toNat ≠ 0x85 := by
      intro hc
      have hnone : Json.escapeOf c = none := by
        rw [Json.escapeOf_eq_none, hc]
        refine ⟨?_, ?_, by decide⟩ <;> rintro rfl <;> exact absurd hc (by decide)
      cases he.symm.trans hnone
    rw [quoteChar, he, Option.getD_some]
    exact iff_of_true (isBreak_escapeOf he) hne
  | none =>
    have hbreak := not_congr (isBreak_of_escapeOf_none he)
    rw [quoteChar, he, Option.getD_none, doubled, Ne, ← hbreak, Bool.not_eq_true]
    split_ifs with hc
    · simp [hc]
    · simp

theorem isKey_quote (cs : List Char) : isKey (chars (quote (ofChars cs))) = true ↔
    (∀ c ∈ cs, c.toNat ≠ 0x85) ∧ (chars (quote (ofChars cs))).length ≤ 1024 := by
  have hquote : isBreak '"' = false := rfl
  rw [isKey, Bool.and_eq_true, decide_eq_true_eq, Bool.not_eq_true', List.any_eq_false]
  refine and_congr_left' ?_
  rw [quote_ofChars, chars_ofChars]
  simp only [List.cons_append, List.mem_cons, List.mem_append, List.mem_flatMap, List.not_mem_nil, or_false,
    Bool.not_eq_true, hquote, true_and, or_imp, forall_and, forall_eq, and_true, forall_exists_index, and_imp]
  simp only [← isBreak_quoteChar]
  exact ⟨fun h c hc x hx ↦ h x c hc hx, fun h x c hc hx ↦ h c hc x hx⟩

end Breaks

def quotedWords : List String :=
  ["service.name", "service.version", "service.instance.id", "protocol", "endpoint", "insecure",
    "certificate", "client_certificate", "client_key", "headers", "compression", "timeout", "name", "value",
      "batch", "exporter", "otlp"]

section Reading

variable {admits : Char → Bool} (hadmits : ∀ c : Char, 0x20 ≤ c.toNat → c.toNat ≤ 0x7E → admits c = true)
include hadmits

theorem read_quote {v : Bytes} (hv : Valid v) {key : List Char} :
    (Key.quoted (quote v)).read admits = some key ↔ KeyReadable admits v ∧
      key = (chars v).flatMap doubled := by
  obtain ⟨cs, rfl⟩ := hv
  have hread := readScalar_quote hadmits cs []
  rw [List.append_nil] at hread
  rw [Key.read, hread, KeyReadable, chars_ofChars, Option.ite_none_right_eq_some, isKey_quote,
    Option.map_eq_some_iff]
  simp only [Option.ite_none_right_eq_some, List.all_eq_true]
  constructor
  · rintro ⟨⟨hbreak, hlength⟩, p, ⟨hall, hp⟩, rfl⟩
    have hfold : cs.map folded = cs :=
      (List.map_inj_left.mpr (fun c hc ↦ folded_eq_self_iff.mpr (hbreak c hc))).trans (List.map_id cs)
    rw [hfold] at hp
    exact ⟨⟨fun c hc ↦ ⟨hall c hc, hbreak c hc⟩, hlength⟩, by rw [← Option.some.inj hp]⟩
  · rintro ⟨⟨hall, hlength⟩, rfl⟩
    have hfold : cs.map folded = cs :=
      (List.map_inj_left.mpr (fun c hc ↦ folded_eq_self_iff.mpr (hall c hc).2)).trans (List.map_id cs)
    rw [hfold]
    exact ⟨⟨fun c hc ↦ (hall c hc).2, hlength⟩, _, ⟨fun c hc ↦ (hall c hc).1, rfl⟩, rfl⟩

theorem readable_quote {v : Bytes} (hv : Valid v) :
    (Key.quoted (quote v)).Readable admits ↔ KeyReadable admits v := by
  rw [Key.Readable, Option.isSome_iff_exists]
  simp [read_quote hadmits hv]

/-- What can be read tells the keys apart. -/
theorem eq_of_repeats {a b : Bytes} (ha : Valid a) (hb : Valid b)
    (h : Repeats admits (.quoted (quote a)) (.quoted (quote b))) : a = b := by
  obtain ⟨key, hka, hkb⟩ := h
  have hsame : (chars a).flatMap doubled = (chars b).flatMap doubled :=
    ((read_quote hadmits ha).mp hka).2.symm.trans ((read_quote hadmits hb).mp hkb).2
  have hchars : chars a = chars b := by
    rw [← unescapeDollars_flatMap (chars a), hsame, unescapeDollars_flatMap]
  rw [← ha.ofChars_chars, hchars, hb.ofChars_chars]

theorem keyReadable_word {w : String} (hw : w ∈ quotedWords) : KeyReadable admits (ofString w) := by
  have hplain : ∀ w ∈ quotedWords, w.toList.all (fun c ↦ 0x21 ≤ c.toNat && c.toNat ≤ 0x7E) = true := by
    decide +kernel
  have hlength : ∀ w ∈ quotedWords, (chars (quote (ofString w))).length ≤ 1024 := by decide +kernel
  have hall := List.all_eq_true.mp (hplain w hw)
  simp only [Bool.and_eq_true, decide_eq_true_eq] at hall
  refine ⟨fun c hc ↦ ?_, hlength w hw⟩
  rw [chars_ofString] at hc
  have := hall c hc
  exact ⟨by simp [readable, hadmits c (by omega) (by omega)], by omega⟩

theorem readable_word {w : String} (hw : w ∈ quotedWords) : (Key.quoted (quote w)).Readable admits :=
  (readable_quote hadmits (valid_ofString w)).mpr (keyReadable_word hadmits hw)

/-- A variable's key repeats a word of the template only by being it. -/
theorem repeats_word {a : Bytes} (ha : Valid a) {w : String} (hw : w ∈ quotedWords) :
    Repeats admits (.quoted (quote w)) (.quoted (quote a)) ↔ a = ofString w := by
  constructor
  · intro h
    exact (eq_of_repeats hadmits (valid_ofString w) ha h).symm
  · rintro rfl
    obtain ⟨key, hkey⟩ := Option.isSome_iff_exists.mp (readable_word hadmits hw)
    exact ⟨key, hkey, hkey⟩

theorem readable_pairs {kvs : List KeyValue} (hv : ∀ kv ∈ kvs, Valid kv.key) :
    (∀ e ∈ kvs.map pairEntry, e.1.Readable admits) ↔ ∀ kv ∈ kvs, KeyReadable admits kv.key := by
  rw [List.forall_mem_map]
  exact forall₂_congr (fun kv hkv ↦ readable_quote hadmits (hv kv hkv))

theorem pairwise_pairs {kvs : List KeyValue} (hn : (kvs.map KeyValue.key).Nodup)
    (hv : ∀ kv ∈ kvs, Valid kv.key) :
    (kvs.map pairEntry).Pairwise (fun a b ↦ ¬ Repeats admits a.1 b.1) := by
  rw [List.pairwise_map]
  refine (List.pairwise_map.mp hn).imp_of_mem (fun ha hb hne hr ↦ hne ?_)
  exact eq_of_repeats hadmits (hv _ ha) (hv _ hb) hr

end Reading

section Template

variable {admits : Char → Bool} (s : Settings)

@[simp] theorem wellKeyed_q (v : Bytes) : WellKeyed admits (q v) := .scalar _

@[simp] theorem wellKeyed_word (v : Bytes) : WellKeyed admits (word v) := .scalar _

@[simp] theorem wellKeyed_number (n : ℤ) : WellKeyed admits (number n) := .scalar _

@[simp] theorem wellKeyed_flag (b : Bool) : WellKeyed admits (flag b) := .scalar _

@[simp] theorem wellKeyed_list (items : List Bytes) : WellKeyed admits (list items) := by
  simp [list]

@[simp] theorem repeats_entry (a b : String) (x y : Node) :
    Repeats admits (entry a x).1 (entry b y).1 ↔ a = b := by
  rw [entry, entry, repeats_plain, chars_ofString, chars_ofString, String.toList_inj]

@[simp] theorem readable_entry (key : String) (x : Node) : (entry key x).1.Readable admits := readable_plain _

@[simp] theorem entry_snd (key : String) (x : Node) : (entry key x).2 = x := rfl

theorem wellKeyed_receivers : WellKeyed admits (receivers s) := by
  rw [receivers]
  split_ifs <;> simp

theorem wellKeyed_attributeActionNode (a : AttributeAction) : WellKeyed admits (attributeActionNode a) := by
  rw [attributeActionNode, optional]
  split_ifs <;> simp

theorem wellKeyed_resourceActionNode (a : ResourceAction) : WellKeyed admits (resourceActionNode a) := by
  rw [resourceActionNode]
  split_ifs <;> simp

theorem wellKeyed_metricResourceNode (kv : KeyValue) : WellKeyed admits (metricResourceNode kv) := by
  simp [metricResourceNode]

theorem wellKeyed_processors : WellKeyed admits (processors s) := by
  rw [processors]
  split_ifs <;> simp [wellKeyed_attributeActionNode, wellKeyed_resourceActionNode,
    wellKeyed_metricResourceNode]

theorem wellKeyed_headerNode (h : Header) : WellKeyed admits (headerNode h) := by
  simp [headerNode]

theorem wellKeyed_tlsNode (cfg : ExporterConfig) : WellKeyed admits (tlsNode cfg) := by
  rw [tlsNode, optional, optional, optional]
  split_ifs <;> simp

theorem wellKeyed_metricsNode : WellKeyed admits (metricsNode s) := by
  simp [metricsNode]

theorem wellKeyed_pipelineNode (chain : List Bytes) (exporter : Bytes) :
    WellKeyed admits (pipelineNode chain exporter) := by
  simp [pipelineNode]

/-- Keys taken from a list of different words, each at most once. -/
theorem keys_plain (words : List String) (hn : words.Nodup) {es : List (Key × Node)}
    (h : (es.map Prod.fst).Sublist (words.map (fun w ↦ Key.plain (ofString w)))) :
    (∀ e ∈ es, e.1.Readable admits) ∧ es.Pairwise (fun a b ↦ ¬ Repeats admits a.1 b.1) := by
  constructor
  · intro e he
    obtain ⟨w, _, hw⟩ := List.mem_map.mp (h.subset (List.mem_map_of_mem he))
    exact hw ▸ readable_plain _
  · have hwords : (words.map (fun w ↦ Key.plain (ofString w))).Pairwise (fun a b ↦ ¬ Repeats admits a b) := by
      rw [List.pairwise_map]
      exact hn.imp (fun hne hr ↦ hne ((repeats_entry _ _ (.seq []) (.seq [])).mp hr))
    exact List.pairwise_map.mp (hwords.sublist h)

theorem endpoints_sublist (u : UpstreamSettings) (cfg : ExporterConfig) :
    ((endpoints cfg (u.served cfg)).map Endpoint.key).Sublist
      (["endpoint", "traces_endpoint", "logs_endpoint", "metrics_endpoint"].map ofString) := by
  rw [endpoints]
  split_ifs
  · exact List.sublist_append_left [ofString "endpoint"] _
  · rw [List.map_map]
    have hserved : ((u.served cfg).map endpointKey).Sublist (signals.map endpointKey) :=
      List.filter_sublist.map _
    exact hserved.trans (List.sublist_cons_self _ _)

theorem wellKeyed_exporterNode {u : UpstreamSettings} {e : SignalExporter} (he : e ∈ u.all) :
    WellKeyed admits (exporterNode e.toExporter) := by
  obtain ⟨_, cfg, _, rfl⟩ := mem_all.mp he
  have hends := (endpoints_sublist u cfg).map Key.plain
  rw [List.map_map, List.map_map] at hends
  have hheaders (hs : List Header) :
      ((if hs = [] then [] else [entry "headers" (.seq (hs.map headerNode))]).map
      Prod.fst).Sublist [Key.plain (ofString "headers")] := by
    split_ifs
    · exact List.nil_sublist _
    · exact List.Sublist.refl _
  have hsub := ((hends.append (List.Sublist.refl [Key.plain (ofString "tls")])).append
    (hheaders cfg.headers.pairs)).append (List.Sublist.refl
      [Key.plain (ofString "timeout"), Key.plain (ofString "compression"),
        Key.plain (ofString "sending_queue"), Key.plain (ofString "retry_on_failure")])
  rw [exporterNode, wellKeyed_map, ← and_assoc]
  constructor
  · refine keys_plain ["endpoint", "traces_endpoint", "logs_endpoint", "metrics_endpoint", "tls", "headers",
      "timeout", "compression", "sending_queue", "retry_on_failure"] (by simp) ?_
    simp only [List.map_append, List.map_map]
    exact hsub
  · intro x hx
    simp only [List.mem_append, List.mem_map] at hx
    obtain ((⟨_, _, rfl⟩ | hx) | hx) | hx := hx
    · exact wellKeyed_q _
    · rw [List.mem_singleton.mp hx]
      exact wellKeyed_tlsNode _
    · split_ifs at hx
      · cases hx
      · rw [List.mem_singleton.mp hx]
        simp [wellKeyed_headerNode]
    · simp only [List.mem_cons, List.not_mem_nil, or_false] at hx
      obtain rfl | rfl | rfl | rfl := hx <;> simp

theorem valid_id {u : UpstreamSettings} {e : SignalExporter} (he : e ∈ u.all) : Valid e.id := by
  have hplain (p : Protocol) : Valid (componentType p) := by
    cases p <;> exact valid_ofString _
  have hnamed (p : Protocol) :
      ∀ sigs ∈ signals.sublists, ofChars (chars (namedId p sigs)) = namedId p sigs := by
    cases p <;> decide +kernel
  obtain ⟨_, cfg, _, rfl⟩ := mem_all.mp he
  rw [UpstreamSettings.exporter]
  split_ifs
  · exact ⟨_, (hnamed _ _ (served_mem_sublists cfg)).symm⟩
  · exact hplain _

theorem wellKeyed_exportersNode : WellKeyed admits (exportersNode s) := by
  rw [exportersNode, wellKeyed_map, UpstreamSettings.exporters]
  refine ⟨by simp, ?_, ?_⟩
  · have hids : s.upstream.all.Pairwise (fun a b ↦ a.id ≠ b.id) := List.pairwise_map.mp (nodup_ids s.upstream)
    rw [List.pairwise_map, List.pairwise_map]
    refine hids.imp_of_mem (fun ha hb hne hr ↦ hne ?_)
    rw [← (valid_id ha).ofChars_chars, repeats_plain.mp hr, (valid_id hb).ofChars_chars]
  · intro x hx
    simp only [List.map_map, List.mem_map, Function.comp_apply] at hx
    obtain ⟨e, he, rfl⟩ := hx
    exact wellKeyed_exporterNode he

end Template

section Quoted

variable {admits : Char → Bool} (hadmits : ∀ c : Char, 0x20 ≤ c.toNat → c.toNat ≤ 0x7E → admits c = true)
include hadmits

theorem keys_quoted (words : List String) (hw : ∀ w ∈ words, w ∈ quotedWords) (hn : words.Nodup)
    {es : List (Key × Node)} (h : (es.map Prod.fst).Sublist
      (words.map (fun w ↦ Key.quoted (quote (ofString w))))) :
    (∀ e ∈ es, e.1.Readable admits) ∧ es.Pairwise (fun a b ↦ ¬ Repeats admits a.1 b.1) := by
  constructor
  · intro e he
    obtain ⟨w, hmem, hkey⟩ := List.mem_map.mp (h.subset (List.mem_map_of_mem he))
    exact hkey ▸ readable_word hadmits (hw w hmem)
  · have hwords : (words.map (fun w ↦ Key.quoted (quote (ofString w)))).Pairwise
        (fun a b ↦ ¬ Repeats admits a b) := by
      rw [List.pairwise_map]
      refine hn.imp_of_mem (fun ha _ hne hr ↦ hne ?_)
      exact (ofString_inj.mp ((repeats_word hadmits (valid_ofString _) (hw _ ha)).mp hr)).symm
    exact List.pairwise_map.mp (hwords.sublist h)

theorem wellKeyed_jsonHeader (h : Header) : WellKeyed admits (jsonHeader h) := by
  rw [jsonHeader, wellKeyed_map, ← and_assoc]
  refine ⟨keys_quoted hadmits ["name", "value"] (by decide) (by decide) (List.Sublist.refl _), ?_⟩
  simp [member]

omit hadmits in
theorem nonEmptyMember_sublist (key : String) (v : Bytes) :
    ((nonEmptyMember key v).map Prod.fst).Sublist [Key.quoted (quote key)] := by
  rw [nonEmptyMember]
  split_ifs
  · exact List.nil_sublist _
  · exact List.Sublist.refl _

omit hadmits in
theorem wellKeyed_nonEmptyMember {key : String} {v : Bytes} {x : Key × Node} (hx : x ∈ nonEmptyMember key v) :
    WellKeyed admits x.2 := by
  rw [nonEmptyMember] at hx
  split_ifs at hx
  · cases hx
  · rw [List.mem_singleton.mp hx]
    exact wellKeyed_q v

theorem wellKeyed_otlpExporter (e : OtlpExporter) : WellKeyed admits e.node := by
  have hinsecure : ((if e.insecure then [member "insecure" (flag true)] else []).map Prod.fst).Sublist
      [Key.quoted (quote "insecure")] := by
    split_ifs
    · exact List.Sublist.refl _
    · exact List.nil_sublist _
  have hheaders : ((if e.headers = [] then [] else [member "headers" (.seq (e.headers.map jsonHeader))]).map
      Prod.fst).Sublist [Key.quoted (quote "headers")] := by
    split_ifs
    · exact List.nil_sublist _
    · exact List.Sublist.refl _
  rw [OtlpExporter.node, wellKeyed_map, ← and_assoc]
  constructor
  · have hsub :=
      ((((((List.Sublist.refl [Key.quoted (quote "protocol"), Key.quoted (quote "endpoint")]).append
      hinsecure).append (nonEmptyMember_sublist "certificate" e.certificate)).append
      (nonEmptyMember_sublist "client_certificate" e.clientCertificate)).append
      (nonEmptyMember_sublist "client_key" e.clientKey)).append hheaders).append
      (List.Sublist.refl [Key.quoted (quote "compression"), Key.quoted (quote "timeout")])
    refine keys_quoted hadmits ["protocol", "endpoint", "insecure", "certificate", "client_certificate",
      "client_key", "headers", "compression", "timeout"] (by decide) (by decide) ?_
    simp only [List.map_append]
    exact hsub
  · intro x hx
    simp only [List.mem_append] at hx
    obtain (((((hx | hx) | hx) | hx) | hx) | hx) | hx := hx
    · simp only [List.mem_cons, List.not_mem_nil, or_false] at hx
      obtain rfl | rfl := hx <;> exact wellKeyed_q _
    · split_ifs at hx
      · rw [List.mem_singleton.mp hx]
        exact wellKeyed_flag _
      · cases hx
    · exact wellKeyed_nonEmptyMember hx
    · exact wellKeyed_nonEmptyMember hx
    · exact wellKeyed_nonEmptyMember hx
    · split_ifs at hx
      · cases hx
      · rw [List.mem_singleton.mp hx]
        simp [member, wellKeyed_jsonHeader hadmits]
    · simp only [List.mem_cons, List.not_mem_nil, or_false] at hx
      obtain rfl | rfl := hx
      · exact wellKeyed_q _
      · exact wellKeyed_number _

theorem wellKeyed_logsNode (s : Settings) : WellKeyed admits (logsNode s) := by
  rw [logsNode]
  cases s.selfLogProcessors with
  | none => simp
  | some e =>
    have hbatch := readable_word (w := "batch") hadmits (by decide)
    have hexporter := readable_word (w := "exporter") hadmits (by decide)
    have hotlp := readable_word (w := "otlp") hadmits (by decide)
    simp [processorsNode, member, wellKeyed_otlpExporter hadmits, hbatch, hexporter, hotlp]

theorem wellKeyed_extensions {s : Settings} (hv : ∀ kv ∈ s.identity.claimAttributes.pairs, Valid kv.key) :
    WellKeyed admits (extensions s) ↔ ∀ kv ∈ s.identity.claimAttributes.pairs, KeyReadable admits kv.key := by
  have hread := readable_pairs hadmits hv
  have hpairs := pairwise_pairs hadmits s.identity.claimAttributes.nodup hv
  have hvalues : ∀ e ∈ s.identity.claimAttributes.pairs.map pairEntry, WellKeyed admits e.2 := by
    simp [pairEntry]
  have hclaims : WellKeyed admits (.map (s.identity.claimAttributes.pairs.map pairEntry)) ↔
      ∀ kv ∈ s.identity.claimAttributes.pairs, KeyReadable admits kv.key := by
    rw [wellKeyed_map, hread]
    exact and_iff_left ⟨hpairs, hvalues⟩
  rw [← hclaims, extensions]
  generalize Node.map (s.identity.claimAttributes.pairs.map pairEntry) = claims
  simp

/-- A key that Without leaves out can be read all the same. -/
theorem keyReadable_without (l : KeyValueList) :
    (∀ kv ∈ l.without ["service.name", "service.version"], KeyReadable admits kv.key) ↔
      ∀ kv ∈ l.pairs, KeyReadable admits kv.key := by
  constructor
  · intro h kv hkv
    by_cases hleft : kv.key ∈ [ofString "service.name", ofString "service.version"]
    · simp only [List.mem_cons, List.not_mem_nil, or_false] at hleft
      obtain hkey | hkey := hleft
      · exact hkey ▸ keyReadable_word hadmits (by decide)
      · exact hkey ▸ keyReadable_word hadmits (by decide)
    · exact h kv (List.mem_filter.mpr ⟨hkv, by simpa using hleft⟩)
  · exact fun h kv hkv ↦ h kv (List.mem_filter.mp hkv).1

theorem wellKeyed_resourceNode {s : Settings} (hid : s.instanceID ≠ [])
    (hv : ∀ kv ∈ s.own.resourceAttributes.pairs, Valid kv.key) :
    WellKeyed admits (resourceNode s) ↔
      (∀ kv ∈ s.own.resourceAttributes.pairs, kv.key ≠ ofString "service.instance.id") ∧
      ∀ kv ∈ s.own.resourceAttributes.pairs, KeyReadable admits kv.key := by
  have hsub : List.Sublist (s.own.resourceAttributes.without ["service.name", "service.version"])
      s.own.resourceAttributes.pairs := List.filter_sublist
  have hread := readable_pairs hadmits (fun kv hkv ↦ hv kv (hsub.subset hkv))
  have hpairs := pairwise_pairs hadmits ((hsub.map _).nodup s.own.resourceAttributes.nodup)
    (fun kv hkv ↦ hv kv (hsub.subset hkv))
  have hname : ∀ kv ∈ s.own.resourceAttributes.without ["service.name", "service.version"],
      ¬ Repeats admits (.quoted (quote "service.name")) (pairEntry kv).1 := by
    intro kv hkv hr
    have hne := (List.mem_filter.mp hkv).2
    rw [(repeats_word hadmits (hv kv (hsub.subset hkv)) (by decide)).mp hr] at hne
    exact absurd hne (by decide)
  have hfixed : ¬ Repeats admits (.quoted (quote "service.name")) (.quoted (quote "service.instance.id")) :=
    fun hr ↦
    absurd ((repeats_word hadmits (valid_ofString _) (by decide)).mp hr) (by decide)
  have hinstance : (∀ kv ∈ s.own.resourceAttributes.without ["service.name", "service.version"],
      ¬ Repeats admits (.quoted (quote "service.instance.id")) (pairEntry kv).1) ↔
      ∀ kv ∈ s.own.resourceAttributes.pairs, kv.key ≠ ofString "service.instance.id" := by
    constructor
    · intro h kv hkv he
      have hmem : kv ∈ s.own.resourceAttributes.without ["service.name", "service.version"] :=
        List.mem_filter.mpr ⟨hkv, by rw [he]; decide⟩
      exact h kv hmem ((repeats_word hadmits (hv kv hkv) (by decide)).mpr he)
    · intro h kv hkv hr
      exact h kv (hsub.subset hkv) ((repeats_word hadmits (hv kv (hsub.subset hkv)) (by decide)).mp hr)
  have hvalues : ∀ kv ∈ s.own.resourceAttributes.without ["service.name", "service.version"],
      WellKeyed admits (pairEntry kv).2 := fun kv _ ↦ wellKeyed_q kv.value
  have hnameRead := readable_word (w := "service.name") hadmits (by decide)
  have hidRead := readable_word (w := "service.instance.id") hadmits (by decide)
  rw [← keyReadable_without hadmits, ← hread, ← hinstance]
  simp only [resourceNode, nonEmptyMember, if_neg hid, List.cons_append, List.nil_append, wellKeyed_map,
    List.pairwise_cons, List.forall_mem_cons, List.forall_mem_map, member, wellKeyed_q, true_and,
      hnameRead, hidRead]
  constructor
  · rintro ⟨hreadable, ⟨_, h, _⟩, _⟩
    exact ⟨h, hreadable⟩
  · rintro ⟨h, hreadable⟩
    exact ⟨hreadable, ⟨⟨hfixed, hname⟩, h, hpairs⟩, hvalues⟩

theorem wellKeyed_document {s : Settings} (traces logs metrics : Bytes) :
    WellKeyed admits (document s traces logs metrics) ↔
      WellKeyed admits (resourceNode s) ∧ WellKeyed admits (extensions s) := by
  have hr : WellKeyed admits (receivers s) := wellKeyed_receivers s
  have hp : WellKeyed admits (processors s) := wellKeyed_processors s
  have he : WellKeyed admits (exportersNode s) := wellKeyed_exportersNode s
  have hm : WellKeyed admits (metricsNode s) := wellKeyed_metricsNode s
  have hl := wellKeyed_logsNode hadmits s
  simp only [document, service, wellKeyed_map, List.pairwise_cons, List.forall_mem_cons, repeats_entry,
    entry_snd, hr, hp, he, hm, hl, wellKeyed_seq, wellKeyed_word, wellKeyed_pipelineNode]
  simp [and_comm]

end Quoted

theorem valid_selected {α : Type} {lookup : Lookup} (hvalid : ∀ name v, lookup name = some v → Valid v)
    (v : Variable α) (hd : Valid v.default) : Valid (v.selected lookup) := by
  rw [Variable.selected]
  cases h : nonEmpty lookup v.name with
  | none => exact hd
  | some raw => exact hvalid _ _ (Option.filter_eq_some_iff.mp h).1

theorem valid_key_of_field {go : Library} {lookup : Lookup}
    (hvalid : ∀ name v, lookup name = some v → Valid v) {v : Variable KeyValueList}
    (hp : v.parse = parsePairs) (hd : Valid v.default) {l : KeyValueList}
    (h : (v.field go lookup).value = some l) : ∀ kv ∈ l.pairs, Valid kv.key := by
  have hparse := parse_of_field h
  rw [hp, parsePairs, mapError_eq_ok] at hparse
  exact KeyValueList.valid_key (valid_selected hvalid v hd) hparse

theorem Loaded.valid_keys {go : Library} {lookup : Lookup} {s : Settings} (h : Loaded go lookup s)
    (hvalid : ∀ name v, lookup name = some v → Valid v) :
    (∀ kv ∈ s.identity.claimAttributes.pairs, Valid kv.key) ∧
      ∀ kv ∈ s.own.resourceAttributes.pairs, Valid kv.key := by
  exact ⟨valid_key_of_field hvalid rfl (valid_ofString _) h.claimAttributes,
    valid_key_of_field hvalid rfl ⟨[], rfl⟩ h.resourceAttributes⟩

/-- Every key of the rendered document can be read, and is written once in its mapping, just when
OTEL_RESOURCE_ATTRIBUTES has no service.instance.id beside the process's own, and every key of it and of
CLAIM_ATTRIBUTES can be read. -/
theorem document_keys_distinct_iff (admits : Char → Bool)
    (hadmits : ∀ c : Char, 0x20 ≤ c.toNat → c.toNat ≤ 0x7E → admits c = true) (go : Library) (lookup : Lookup)
    (hvalid : ∀ name v, lookup name = some v → Valid v) (s : Settings)
    (hload : (load go lookup).value = some s) (id : Bytes) (hid : id ≠ []) :
    (∃ doc, render { s with instanceID := id } = .ok doc ∧ WellKeyed admits doc) ↔
      (∀ kv ∈ s.own.resourceAttributes.pairs, kv.key ≠ ofString "service.instance.id") ∧
      (∀ kv ∈ s.own.resourceAttributes.pairs, KeyReadable admits kv.key) ∧
      ∀ kv ∈ s.identity.claimAttributes.pairs, KeyReadable admits kv.key := by
  have hl := loaded_of_load hload
  obtain ⟨hclaims, hattrs⟩ := hl.valid_keys hvalid
  obtain ⟨ids, _, hrender⟩ := render_eq (s := { s with instanceID := id })
    (fun sig ↦ (hl.signalConfig sig).imp (fun _ h ↦ h.1))
  have hdoc :=
    wellKeyed_document hadmits (s := { s with instanceID := id }) (ids .traces) (ids .logs) (ids .metrics)
  rw [wellKeyed_resourceNode (s := { s with instanceID := id }) hadmits hid hattrs,
    wellKeyed_extensions (s := { s with instanceID := id }) hadmits hclaims, and_assoc] at hdoc
  rw [hrender, ← hdoc]
  simp

theorem valid_environment (vars : List (String × String)) (name v : Bytes)
    (h : environment vars name = some v) :
    Valid v := by
  obtain ⟨x, _, rfl⟩ := Option.map_eq_some_iff.mp h
  exact valid_ofString x.2

def ownAttributes : Lookup := environment [("OTEL_RESOURCE_ATTRIBUTES", "team=core,$region=north")]

theorem plain_environment_keys_distinct : ∃ s doc, (load exampleLibrary ownAttributes).value = some s ∧
    s.own.resourceAttributes.pairs.map KeyValue.key = [ofString "team", ofString "$region"] ∧
    render { s with instanceID := "a" } = .ok doc ∧ WellKeyed printable doc := by
  obtain ⟨s, hs, hpairs⟩ := Option.map_eq_some_iff.mp (by decide +kernel :
    (load exampleLibrary ownAttributes).value.map (fun s ↦ (s.own.resourceAttributes.pairs.map KeyValue.key,
      s.identity.claimAttributes.pairs.map KeyValue.key)) =
    some ([ofString "team", ofString "$region"],
      [ofString "sub", ofString "preferred_username", ofString "email", ofString "name"]))
  obtain ⟨hown, hclaims⟩ := Prod.mk.inj hpairs
  have hread (key : Bytes) (hkey : key ∈ [ofString "team", ofString "$region", ofString "sub",
      ofString "preferred_username", ofString "email", ofString "name"]) :
      key ≠ ofString "service.instance.id" ∧ KeyReadable printable key := by
    have hall := List.all_eq_true.mp (by decide +kernel : [ofString "team", ofString "$region",
      ofString "sub", ofString "preferred_username", ofString "email", ofString "name"].all (fun key ↦
        decide (key ≠ ofString "service.instance.id") &&
          ((chars key).all (fun c ↦ readable printable c && decide (c.toNat ≠ 0x85)) &&
            decide ((chars (quote key)).length ≤ 1024))) = true) key hkey
    simpa only [KeyReadable, Bool.and_eq_true, List.all_eq_true, decide_eq_true_eq] using hall
  have hownKey (kv : KeyValue) (hkv : kv ∈ s.own.resourceAttributes.pairs) :=
    hread kv.key (List.mem_append_left _ (hown ▸ List.mem_map_of_mem hkv))
  have hclaimKey (kv : KeyValue) (hkv : kv ∈ s.identity.claimAttributes.pairs) :=
    hread kv.key (List.mem_append_right [_, _] (hclaims ▸ List.mem_map_of_mem hkv))
  obtain ⟨doc, hdoc, hkeyed⟩ :=
    (document_keys_distinct_iff printable (by simp +contextual [printable]) exampleLibrary
    ownAttributes (valid_environment _) s hs "a" (by decide)).mpr
      ⟨fun kv hkv ↦ (hownKey kv hkv).1, fun kv hkv ↦ (hownKey kv hkv).2, fun kv hkv ↦ (hclaimKey kv hkv).2⟩
  exact ⟨s, doc, hs, hown, hdoc, hkeyed⟩

def ownInstance : Lookup := environment [("OTEL_RESOURCE_ATTRIBUTES", "service.instance.id=b")]

theorem instance_id_written_twice : ∃ s, (load exampleLibrary ownInstance).value = some s ∧
    resourceNode { s with instanceID := "a" } = .map [member "service.name" (q "otlp-collector-oidc"),
      member "service.instance.id" (q "a"), member "service.instance.id" (q "b")] ∧
    ∀ doc, render { s with instanceID := "a" } = .ok doc → ¬ WellKeyed printable doc := by
  have hadmits : ∀ c : Char, 0x20 ≤ c.toNat → c.toNat ≤ 0x7E → printable c = true := by
    simp +contextual [printable]
  obtain ⟨s, hs, hown⟩ := Option.map_eq_some_iff.mp (by decide +kernel :
    (load exampleLibrary ownInstance).value.map
      (fun s ↦ (s.own.serviceName, s.own.resourceAttributes.pairs)) =
      some ([], [⟨ofString "service.instance.id", ofString "b"⟩]))
  simp only [Prod.mk.injEq] at hown
  obtain ⟨hname, hpairs⟩ := hown
  refine ⟨s, hs, ?_, fun doc hdoc hn ↦ ?_⟩
  · have hkept : s.own.resourceAttributes.without ["service.name", "service.version"] =
        [⟨ofString "service.instance.id", ofString "b"⟩] := by
      rw [KeyValueList.without, hpairs]
      rfl
    have hfallback : Settings.fallbackServiceName { s with instanceID := ofString "a" } =
        ofString "otlp-collector-oidc" := by
      rw [Settings.fallbackServiceName, hpairs]
      rfl
    simp only [resourceNode, hname, if_true, hfallback, hkept]
    rfl
  · have hl := loaded_of_load hs
    obtain ⟨ids, _, hrender⟩ := render_eq (s := { s with instanceID := ofString "a" })
      (fun sig ↦ (hl.signalConfig sig).imp (fun _ h ↦ h.1))
    cases hdoc.symm.trans hrender
    have hr := ((wellKeyed_document hadmits _ _ _).mp hn).1
    have hkeys :=
      (wellKeyed_resourceNode (s := { s with instanceID := ofString "a" }) hadmits (List.cons_ne_nil _ _)
      (hl.valid_keys (valid_environment _)).2).mp hr
    exact hkeys.1 ⟨ofString "service.instance.id", ofString "b"⟩ (by simp [hpairs]) rfl

end OtlpCollectorOidc.Render

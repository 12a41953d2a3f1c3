import OtlpCollectorOidc.Render.Document

namespace OtlpCollectorOidc.Render

open Text Maps

section Payload

variable (V R : Type)

/-- A datapoint: its attributes, those of its exemplars, and all else it holds. -/
structure Datapoint where
  attributes : AttributeMap V
  exemplars : List (AttributeMap V)
  rest : R

structure Metric where
  name : Bytes
  metadata : AttributeMap V
  datapoints : List (Datapoint V R)

structure ScopeMetrics where
  scope : AttributeMap V
  metrics : List (Metric V R)

structure ResourceMetrics where
  resource : AttributeMap V
  scopes : List (ScopeMetrics V R)

/-- The conditions of filter/metrics, and what deltatocumulative makes of a datapoint: it reads the stream the
datapoint is of and changes nothing but its value and times, or drops it. -/
structure MetricBounds where
  dropsResource : AttributeMap V → Bool
  dropsMetric : Bytes → Bool
  accumulate : AttributeMap V → AttributeMap V → Bytes → AttributeMap V → R → Option R

end Payload

/-- The attribute maps of a metric. -/
inductive MetricPath where
  | resource
  | scope
  | metadata
  | datapoint
  deriving DecidableEq

def MetricPath.text : MetricPath → Bytes
  | resource => "resource.attributes"
  | scope => "scope.attributes"
  | metadata => "metric.metadata"
  | datapoint => "datapoint.attributes"

inductive MetricStatement where
  | keepKeys (path : MetricPath) (keys : List Bytes)
  | clearExemplars

def MetricStatement.text : MetricStatement → Bytes
  | keepKeys path keys => ofString "keep_keys(" ++ path.text ++ ofString ", " ++ ottlList keys ++ ofString ")"
  | clearExemplars => "set(datapoint.exemplars, nil)"

def keptKeys (allowed : List Bytes) (claims : KeyValueList) : List Bytes :=
  allowed.filter (fun key ↦ !identityKey key claims)

def metricStatements (allowed : List Bytes) (claims : KeyValueList) : List MetricStatement :=
  [.keepKeys .resource ["service.name", "service.version"], .keepKeys .datapoint (keptKeys allowed claims),
    .keepKeys .scope [], .keepKeys .metadata [], .clearExemplars]

theorem metricStatements_text (allowed : List Bytes) (claims : KeyValueList) :
    (metricStatements allowed claims).map MetricStatement.text =
      [metricResourceReduce, metricKeepKeys allowed claims] ++ metricStrip := by
  have hempty : ottlList [] = ofString "[]" := by decide
  simp only [metricStatements, List.map_cons, List.map_nil, MetricStatement.text, MetricPath.text, hempty,
    metricResourceReduce, metricKeepKeys, keptKeys, metricStrip, List.cons_append, List.nil_append]
  congr 1

section Chain

variable {V R : Type}

namespace ResourceMetrics

def mapScopes (f : ScopeMetrics V R → ScopeMetrics V R) (x : ResourceMetrics V R) : ResourceMetrics V R :=
  { x with scopes := x.scopes.map f }

def mapMetrics (f : Metric V R → Metric V R) (x : ResourceMetrics V R) : ResourceMetrics V R :=
  x.mapScopes (fun y ↦ { y with metrics := y.metrics.map f })

def mapDatapoints (f : Datapoint V R → Datapoint V R) (x : ResourceMetrics V R) : ResourceMetrics V R :=
  x.mapMetrics (fun m ↦ { m with datapoints := m.datapoints.map f })

def pick (f : ScopeMetrics V R → Metric V R → Option (Metric V R)) (x : ResourceMetrics V R) :
    ResourceMetrics V R :=
  { x with scopes := x.scopes.filterMap (fun y ↦
      let kept := y.metrics.filterMap (f y)
      if kept.isEmpty then none else some { y with metrics := kept }) }

def filterMetrics (b : MetricBounds V R) (x : ResourceMetrics V R) : Option (ResourceMetrics V R) :=
  let kept := x.pick (fun _ m ↦ if b.dropsMetric m.name then none else some m)
  if b.dropsResource x.resource || kept.scopes.isEmpty then none else some kept

def deltaToCumulative (b : MetricBounds V R) (x : ResourceMetrics V R) : ResourceMetrics V R :=
  x.pick (fun y m ↦
    let kept := m.datapoints.filterMap (fun d ↦
      (b.accumulate x.resource y.scope m.name d.attributes d.rest).map (fun rest ↦ { d with rest := rest }))
    if kept.isEmpty then none else some { m with datapoints := kept })

end ResourceMetrics

def MetricStatement.exec (x : ResourceMetrics V R) : MetricStatement → ResourceMetrics V R
  | keepKeys .resource keys => { x with resource := Maps.keepKeys keys x.resource }
  | keepKeys .scope keys => x.mapScopes (fun y ↦ { y with scope := Maps.keepKeys keys y.scope })
  | keepKeys .metadata keys => x.mapMetrics (fun m ↦ { m with metadata := Maps.keepKeys keys m.metadata })
  | keepKeys .datapoint keys =>
    x.mapDatapoints (fun d ↦ { d with attributes := Maps.keepKeys keys d.attributes })
  | clearExemplars => x.mapDatapoints (fun d ↦ { d with exemplars := [] })

inductive MetricProcessor where
  | memoryLimiter
  | filterMetrics
  | transformMetrics
  | resourceMetrics
  | deltaToCumulative
  | batch

def MetricProcessor.name : MetricProcessor → Bytes
  | memoryLimiter => "memory_limiter"
  | filterMetrics => "filter/metrics"
  | transformMetrics => "transform/metrics"
  | resourceMetrics => "resource/metrics"
  | deltaToCumulative => "deltatocumulative"
  | batch => "batch"

def MetricProcessor.find (name : Bytes) : Option MetricProcessor :=
  [memoryLimiter, filterMetrics, transformMetrics, resourceMetrics, deltaToCumulative, batch].find?
    (fun p ↦ p.name = name)

variable (str : Bytes → V) (s : IdentitySettings) (allowed : List Bytes) (b : MetricBounds V R)
    (overLimit : Bool)

def resourceUpserts : List (Edit Bytes V) :=
  s.clientResourceAttrs.pairs.map (fun kv ↦ .upsert kv.key (str kv.value))

/-- What a processor makes of what one resource measured. Batching changes no resource. -/
def MetricProcessor.apply (x : ResourceMetrics V R) : MetricProcessor → Option (ResourceMetrics V R)
  | memoryLimiter => if overLimit then none else some x
  | filterMetrics => x.filterMetrics b
  | transformMetrics => some ((metricStatements allowed s.claimAttributes).foldl MetricStatement.exec x)
  | resourceMetrics => some { x with resource := applyEdits (resourceUpserts str s) x.resource }
  | deltaToCumulative => some (x.deltaToCumulative b)
  | batch => some x

def runMetricChain (chain : List Bytes) (x : ResourceMetrics V R) : Option (ResourceMetrics V R) :=
  chain.foldlM (fun x name ↦
    (MetricProcessor.find name).bind (MetricProcessor.apply str s allowed b overLimit x)) x

def exportedMetrics (payload : List (ResourceMetrics V R)) : List (ResourceMetrics V R) :=
  payload.filterMap (runMetricChain str s allowed b overLimit (metricProcessors s.clientResourceAttrs))

end Chain

section Effects

variable {V R : Type}

/-- Every attribute map of `y` is one of `x` after an edit that depends on where it stands; the exemplars are
cleared or as they were. -/
structure Edited (g : MetricPath → AttributeMap V → AttributeMap V) (clears : Bool)
    (x y : ResourceMetrics V R) :
    Prop where
  resource : y.resource = g .resource x.resource
  scopes : ∀ sc' ∈ y.scopes, ∃ sc ∈ x.scopes, sc'.scope = g .scope sc.scope ∧
    ∀ m' ∈ sc'.metrics, ∃ m ∈ sc.metrics, m'.name = m.name ∧ m'.metadata = g .metadata m.metadata ∧
      ∀ d' ∈ m'.datapoints, ∃ d ∈ m.datapoints, d'.attributes = g .datapoint d.attributes ∧
        d'.exemplars = if clears then [] else d.exemplars

theorem Edited.refl (x : ResourceMetrics V R) : Edited (fun _ m ↦ m) false x x :=
  ⟨rfl, fun sc hsc ↦ ⟨sc, hsc, rfl, fun m hm ↦ ⟨m, hm, rfl, rfl, fun d hd ↦ ⟨d, hd, rfl, rfl⟩⟩⟩⟩

theorem Edited.trans {g g' : MetricPath → AttributeMap V → AttributeMap V} {clears clears' : Bool}
    {x y z : ResourceMetrics V R} (h : Edited g clears x y) (h' : Edited g' clears' y z) :
    Edited (fun path m ↦ g' path (g path m)) (clears || clears') x z := by
  refine ⟨by rw [h'.resource, h.resource], ?_⟩
  intro sc'' hsc''
  obtain ⟨sc', hsc', hscope', hmetrics'⟩ := h'.scopes sc'' hsc''
  obtain ⟨sc, hsc, hscope, hmetrics⟩ := h.scopes sc' hsc'
  refine ⟨sc, hsc, by rw [hscope', hscope], ?_⟩
  intro m'' hm''
  obtain ⟨m', hm', hname', hmeta', hpoints'⟩ := hmetrics' m'' hm''
  obtain ⟨m, hm, hname, hmeta, hpoints⟩ := hmetrics m' hm'
  refine ⟨m, hm, hname'.trans hname, by rw [hmeta', hmeta], ?_⟩
  intro d'' hd''
  obtain ⟨d', hd', hattrs', hex'⟩ := hpoints' d'' hd''
  obtain ⟨d, hd, hattrs, hex⟩ := hpoints d' hd'
  refine ⟨d, hd, by rw [hattrs', hattrs], ?_⟩
  rw [hex', hex]
  cases clears <;> cases clears' <;> rfl

def MetricStatement.effect (path : MetricPath) (m : AttributeMap V) : MetricStatement → AttributeMap V
  | keepKeys path' keys => if path' = path then Maps.keepKeys keys m else m
  | clearExemplars => m

def MetricStatement.clears : MetricStatement → Bool
  | keepKeys _ _ => false
  | clearExemplars => true

theorem edited_mapDatapoints {g : MetricPath → AttributeMap V → AttributeMap V} {clears : Bool}
    (hg : ∀ path m, path ≠ .datapoint → g path m = m) {f : Datapoint V R → Datapoint V R}
    (hf : ∀ d, (f d).attributes = g .datapoint d.attributes ∧ (f d).exemplars = if clears then []
      else d.exemplars)
    (x : ResourceMetrics V R) : Edited g clears x (x.mapDatapoints f) := by
  refine ⟨(hg _ _ (by decide)).symm, ?_⟩
  intro sc' hsc'
  obtain ⟨sc, hsc, rfl⟩ := List.mem_map.mp hsc'
  refine ⟨sc, hsc, (hg _ _ (by decide)).symm, ?_⟩
  intro m' hm'
  obtain ⟨m, hm, rfl⟩ := List.mem_map.mp hm'
  refine ⟨m, hm, rfl, (hg _ _ (by decide)).symm, ?_⟩
  intro d' hd'
  obtain ⟨d, hd, rfl⟩ := List.mem_map.mp hd'
  exact ⟨d, hd, hf d⟩

theorem edited_exec (x : ResourceMetrics V R) (st : MetricStatement) :
    Edited (fun path m ↦ st.effect path m) st.clears x (st.exec x) := by
  cases st with
  | keepKeys path keys =>
    cases path with
    | resource => exact ⟨rfl, (Edited.refl x).scopes⟩
    | scope =>
      refine ⟨rfl, ?_⟩
      intro sc' hsc'
      obtain ⟨sc, hsc, rfl⟩ := List.mem_map.mp hsc'
      exact ⟨sc, hsc, rfl, fun m hm ↦ ⟨m, hm, rfl, rfl, fun d hd ↦ ⟨d, hd, rfl, rfl⟩⟩⟩
    | metadata =>
      refine ⟨rfl, ?_⟩
      intro sc' hsc'
      obtain ⟨sc, hsc, rfl⟩ := List.mem_map.mp hsc'
      refine ⟨sc, hsc, rfl, ?_⟩
      intro m' hm'
      obtain ⟨m, hm, rfl⟩ := List.mem_map.mp hm'
      exact ⟨m, hm, rfl, rfl, fun d hd ↦ ⟨d, hd, rfl, rfl⟩⟩
    | datapoint => exact edited_mapDatapoints (fun _ _ h ↦ if_neg h.symm) (by intro d; exact ⟨rfl, rfl⟩) x
  | clearExemplars => exact edited_mapDatapoints (fun _ _ _ ↦ rfl) (by intro d; exact ⟨rfl, rfl⟩) x

theorem edited_statements (ss : List MetricStatement) (x : ResourceMetrics V R) :
    Edited (fun path m ↦ ss.foldl (MetricStatement.effect path) m) (ss.any MetricStatement.clears) x
      (ss.foldl MetricStatement.exec x) := by
  induction ss generalizing x with
  | nil => exact Edited.refl x
  | cons st ss ih => exact (edited_exec x st).trans (ih (st.exec x))

/-- Leaving metrics and datapoints out edits no map. -/
theorem edited_pick {f : ScopeMetrics V R → Metric V R → Option (Metric V R)}
    (hf : ∀ sc m m', f sc m = some m' → m'.name = m.name ∧ m'.metadata = m.metadata ∧
      ∀ d' ∈ m'.datapoints, ∃ d ∈ m.datapoints, d'.attributes = d.attributes ∧ d'.exemplars = d.exemplars)
    (x : ResourceMetrics V R) : Edited (fun _ m ↦ m) false x (x.pick f) := by
  refine ⟨rfl, ?_⟩
  intro sc' hsc'
  obtain ⟨sc, hsc, hkept⟩ := List.mem_filterMap.mp hsc'
  dsimp only at hkept
  split_ifs at hkept
  cases hkept
  refine ⟨sc, hsc, rfl, ?_⟩
  intro m' hm'
  obtain ⟨m, hm, hmm⟩ := List.mem_filterMap.mp hm'
  exact ⟨m, hm, hf sc m m' hmm⟩

theorem edited_filterMetrics {b : MetricBounds V R} {x y : ResourceMetrics V R}
    (h : x.filterMetrics b = some y) :
    Edited (fun _ m ↦ m) false x y := by
  rw [ResourceMetrics.filterMetrics] at h
  split_ifs at h
  cases h
  apply edited_pick
  intro sc m m' hm
  split_ifs at hm
  cases hm
  exact ⟨rfl, rfl, fun d hd ↦ ⟨d, hd, rfl, rfl⟩⟩

theorem edited_deltaToCumulative (b : MetricBounds V R) (x : ResourceMetrics V R) :
    Edited (fun _ m ↦ m) false x (x.deltaToCumulative b) := by
  apply edited_pick
  intro sc m m' hm
  dsimp only at hm
  split_ifs at hm
  cases hm
  refine ⟨rfl, rfl, ?_⟩
  intro d' hd'
  obtain ⟨d, hd, hrest⟩ := List.mem_filterMap.mp hd'
  obtain ⟨rest, _, rfl⟩ := Option.map_eq_some_iff.mp hrest
  exact ⟨d, hd, rfl, rfl⟩

variable (str : Bytes → V) (s : IdentitySettings) (allowed : List Bytes)

def MetricProcessor.effect (path : MetricPath) (m : AttributeMap V) : MetricProcessor → AttributeMap V
  | transformMetrics => (metricStatements allowed s.claimAttributes).foldl (MetricStatement.effect path) m
  | resourceMetrics => if path = .resource then applyEdits (resourceUpserts str s) m else m
  | _ => m

def MetricProcessor.clears : MetricProcessor → Bool
  | transformMetrics => true
  | _ => false

variable {str s allowed} {b : MetricBounds V R} {overLimit : Bool}

theorem edited_apply {p : MetricProcessor} {x y : ResourceMetrics V R}
    (h : p.apply str s allowed b overLimit x = some y) :
    Edited (fun path m ↦ p.effect str s allowed path m) p.clears x y := by
  cases p with
  | memoryLimiter =>
    rw [MetricProcessor.apply] at h
    split_ifs at h
    cases h
    exact Edited.refl x
  | filterMetrics => exact edited_filterMetrics h
  | transformMetrics =>
    cases h
    exact edited_statements _ x
  | resourceMetrics =>
    cases h
    exact ⟨rfl, (Edited.refl x).scopes⟩
  | deltaToCumulative =>
    cases h
    exact edited_deltaToCumulative b x
  | batch =>
    cases h
    exact Edited.refl x

theorem MetricProcessor.find_name (p : MetricProcessor) :
    MetricProcessor.find p.name = some p := by cases p <;> rfl

theorem edited_runMetricChain {ps : List MetricProcessor} {x y : ResourceMetrics V R}
    (h : runMetricChain str s allowed b overLimit (ps.map MetricProcessor.name) x = some y) :
    Edited (fun path m ↦ ps.foldl (MetricProcessor.effect str s allowed path) m)
      (ps.any MetricProcessor.clears) x y := by
  induction ps generalizing x with
  | nil =>
    cases h
    exact Edited.refl _
  | cons p ps ih =>
    rw [runMetricChain, List.map_cons, List.foldlM_cons, MetricProcessor.find_name, Option.bind_some,
      Option.bind_eq_bind, Option.bind_eq_some_iff] at h
    obtain ⟨x', hp, hps⟩ := h
    exact (edited_apply hp).trans (ih hps)

def metricChain (clientResource : KeyValueList) : List MetricProcessor :=
  [.memoryLimiter, .filterMetrics, .transformMetrics] ++
    (if clientResource.pairs = [] then [] else [.resourceMetrics]) ++ [.deltaToCumulative, .batch]

theorem metricChain_names (clientResource : KeyValueList) :
    (metricChain clientResource).map MetricProcessor.name = metricProcessors clientResource := by
  rw [metricChain, metricProcessors]
  split_ifs <;> rfl

theorem effect_metricChain (path : MetricPath) (m : AttributeMap V) :
    (metricChain s.clientResourceAttrs).foldl (MetricProcessor.effect str s allowed path) m =
      MetricProcessor.effect str s allowed path
        ((metricStatements allowed s.claimAttributes).foldl (MetricStatement.effect path) m)
          .resourceMetrics := by
  rw [metricChain]
  split_ifs with h
  · simp [MetricProcessor.effect, resourceUpserts, h, applyEdits]
  · simp [MetricProcessor.effect]

theorem clears_metricChain : (metricChain s.clientResourceAttrs).any MetricProcessor.clears = true := by
  rw [metricChain]
  split_ifs <;> rfl

/-- The allowlisted keys a datapoint may keep. -/
structure Keepable (allowed : List Bytes) (claims : KeyValueList) (key : Bytes) : Prop where
  allowed : key ∈ allowed
  user : ¬ ofString "user." <+: key
  session : ¬ ofString "session." <+: key
  enduser : ¬ ofString "enduser." <+: key
  target : ∀ kv ∈ claims.pairs, kv.value ≠ key

theorem mem_keptKeys_iff {claims : KeyValueList} {key : Bytes} :
    key ∈ keptKeys allowed claims ↔ Keepable allowed claims key := by
  simp only [keptKeys, List.mem_filter, identityKey, Bool.not_eq_true', Bool.or_eq_false_iff,
    List.any_eq_false, List.mem_cons, List.not_mem_nil, or_false, forall_eq_or_imp, forall_eq,
      List.isPrefixOf_iff_prefix, decide_eq_true_eq]
  exact ⟨fun ⟨ha, ⟨hu, hs, he⟩, ht⟩ ↦ ⟨ha, hu, hs, he, ht⟩,
    fun h ↦ ⟨h.allowed, ⟨h.user, h.session, h.enduser⟩, h.target⟩⟩

end Effects

section Anonymous

variable {V R : Type} (str : Bytes → V) (s : IdentitySettings) (allowed : List Bytes)

def NoTarget (m : AttributeMap V) : Prop := ∀ kv ∈ s.claimAttributes.pairs, m.lookup kv.value = none

/-- A datapoint as the client sent it, without the keys it may not keep. -/
structure Datapoint.Restricted (d d' : Datapoint V R) : Prop where
  kept : ∀ key, Keepable allowed s.claimAttributes key → d'.attributes.lookup key = d.attributes.lookup key
  removed : ∀ key, ¬ Keepable allowed s.claimAttributes key → d'.attributes.lookup key = none
  exemplars : d'.exemplars = []
  target : NoTarget s d'.attributes

structure Metric.Stripped (m m' : Metric V R) : Prop where
  name : m'.name = m.name
  metadata : m'.metadata = ∅
  datapoints : ∀ d' ∈ m'.datapoints, ∃ d ∈ m.datapoints, d.Restricted s allowed d'

/-- What is left of what a resource measured: the client's build and the deployment on the resource,
nothing on the scopes and metrics, and the keys that may be kept on the datapoints. -/
structure ResourceMetrics.Anonymous (x y : ResourceMetrics V R) : Prop where
  client : ∀ key, clientOwned key = true → y.resource.lookup key = x.resource.lookup key
  deployment : ∀ kv ∈ s.clientResourceAttrs.pairs, y.resource.lookup kv.key = some (str kv.value)
  other : ∀ key, clientOwned key = false → key ∉ s.clientResourceAttrs.pairs.map KeyValue.key →
    y.resource.lookup key = none
  target : NoTarget s y.resource
  scopes : ∀ sc' ∈ y.scopes, ∃ sc ∈ x.scopes, sc'.scope = ∅ ∧
    ∀ m' ∈ sc'.metrics, ∃ m ∈ sc.metrics, m.Stripped s allowed m'

end Anonymous

section Proof

variable {V R : Type} {str : Bytes → V} {s : IdentitySettings} {allowed : List Bytes}

theorem lookup_reduced (m : AttributeMap V) (key : Bytes) :
    (keepKeys [ofString "service.name", ofString "service.version"] m).lookup key =
      if clientOwned key then m.lookup key else none := by
  rw [lookup_keepKeys]
  simp [clientOwned]

theorem resourceUpserts_key {e : Edit Bytes V} (he : e ∈ resourceUpserts str s) :
    ∃ kv ∈ s.clientResourceAttrs.pairs, e.key = kv.key := by
  obtain ⟨kv, hkv, rfl⟩ := List.mem_map.mp he
  exact ⟨kv, hkv, rfl⟩

theorem lookup_deployed_other (m : AttributeMap V) {key : Bytes}
    (hkey : key ∉ s.clientResourceAttrs.pairs.map KeyValue.key) :
    (applyEdits (resourceUpserts str s) m).lookup key = m.lookup key := by
  apply lookup_applyEdits_of_notMem
  rintro e he rfl
  obtain ⟨kv, hkv, hek⟩ := resourceUpserts_key he
  exact hkey (List.mem_map.mpr ⟨kv, hkv, hek.symm⟩)

theorem lookup_deployed (m : AttributeMap V) {kv : KeyValue} (hkv : kv ∈ s.clientResourceAttrs.pairs) :
    (applyEdits (resourceUpserts str s) m).lookup kv.key = some (str kv.value) :=
  lookup_applyEdits_upserts s.clientResourceAttrs.nodup hkv [] m

theorem Datapoint.restricted {d d' : Datapoint V R}
    (ha : d'.attributes = keepKeys (keptKeys allowed s.claimAttributes) d.attributes)
    (he : d'.exemplars = []) :
    d.Restricted s allowed d' := by
  refine ⟨?_, ?_, he, ?_⟩
  · intro key hkey
    rw [ha, lookup_keepKeys, if_pos (mem_keptKeys_iff.mpr hkey)]
  · intro key hkey
    rw [ha, lookup_keepKeys, if_neg (fun h ↦ hkey (mem_keptKeys_iff.mp h))]
  · intro kv hkv
    rw [ha, lookup_keepKeys, if_neg (fun h ↦ (mem_keptKeys_iff.mp h).target kv hkv rfl)]

theorem anonymous_of_edited (hv : s.Valid) {x y : ResourceMetrics V R}
    (h : Edited (fun path m ↦
      (metricChain s.clientResourceAttrs).foldl (MetricProcessor.effect str s allowed path) m)
      ((metricChain s.clientResourceAttrs).any MetricProcessor.clears) x y) :
    x.Anonymous str s allowed y := by
  simp only [effect_metricChain, clears_metricChain] at h
  have hresource : y.resource = applyEdits (resourceUpserts str s)
      (keepKeys [ofString "service.name", ofString "service.version"] x.resource) := h.resource
  have howned {key : Bytes} (hkey : clientOwned key = true) :
      key ∉ s.clientResourceAttrs.pairs.map KeyValue.key := by
    intro hmem
    obtain ⟨kv, hkv, rfl⟩ := List.mem_map.mp hmem
    cases hkey.symm.trans (hv.resource hkv).1
  have hother (key : Bytes) (hkey : clientOwned key = false)
      (hnot : key ∉ s.clientResourceAttrs.pairs.map KeyValue.key) : y.resource.lookup key = none := by
    rw [hresource, lookup_deployed_other _ hnot, lookup_reduced, hkey]
    rfl
  refine ⟨?_, ?_, hother, ?_, ?_⟩
  · intro key hkey
    rw [hresource, lookup_deployed_other _ (howned hkey), lookup_reduced, hkey]
    rfl
  · intro kv hkv
    rw [hresource, lookup_deployed _ hkv]
  · intro kv hkv
    refine hother kv.value (hv.claims.1 kv hkv) ?_
    intro hmem
    obtain ⟨kv', hkv', he⟩ := List.mem_map.mp hmem
    exact (hv.resource hkv').2 (List.mem_map.mpr ⟨kv, hkv, he.symm⟩)
  · intro sc' hsc'
    obtain ⟨sc, hsc, hscope, hmetrics⟩ := h.scopes sc' hsc'
    refine ⟨sc, hsc, hscope.trans (keepKeys_nil sc.scope), ?_⟩
    intro m' hm'
    obtain ⟨m, hm, hname, hmeta, hpoints⟩ := hmetrics m' hm'
    refine ⟨m, hm, hname, hmeta.trans (keepKeys_nil m.metadata), ?_⟩
    intro d' hd'
    obtain ⟨d, hd, hattrs, hex⟩ := hpoints d' hd'
    exact ⟨d, hd, Datapoint.restricted hattrs hex⟩

end Proof

/-- Client metrics carry no identity of the client's choosing. -/
theorem metrics_carry_no_identity {V R : Type} (str : Bytes → V) (s : IdentitySettings) (hv : s.Valid)
    (allowed : List Bytes) (b : MetricBounds V R) (overLimit : Bool) (payload : List (ResourceMetrics V R)) :
    ∀ y ∈ exportedMetrics str s allowed b overLimit payload, ∃ x ∈ payload, x.Anonymous str s allowed y := by
  intro y hy
  obtain ⟨x, hx, hrun⟩ := List.mem_filterMap.mp hy
  rw [← metricChain_names] at hrun
  exact ⟨x, hx, anonymous_of_edited hv (edited_runMetricChain hrun)⟩

def openMetrics : MetricBounds Bytes Unit where
  dropsResource _ := false
  dropsMetric _ := false
  accumulate _ _ _ _ _ := some ()

def forgedMetrics : ResourceMetrics Bytes Unit where
  resource := forgedItem.resource
  scopes := [⟨forgedItem.attributes, [⟨"app.requests", forgedItem.attributes,
    [⟨forgedItem.attributes, [forgedItem.attributes], ()⟩]⟩]⟩]

theorem forged_metrics_anonymous :
    (exportedMetrics id exampleSettings ["user.id", "http.route"] openMetrics false [forgedMetrics]).length =
      1 ∧
    ∀ y ∈ exportedMetrics id exampleSettings ["user.id", "http.route"] openMetrics false [forgedMetrics],
      forgedMetrics.Anonymous id exampleSettings ["user.id", "http.route"] y := by
  refine ⟨by decide +kernel, ?_⟩
  intro y hy
  obtain ⟨x, hx, hanonymous⟩ :=
    metrics_carry_no_identity id exampleSettings (by unfold IdentitySettings.Valid; decide)
    ["user.id", "http.route"] openMetrics false [forgedMetrics] y hy
  obtain rfl := List.mem_singleton.mp hx
  exact hanonymous

end OtlpCollectorOidc.Render

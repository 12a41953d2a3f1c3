import OtlpCollectorOidc.Render.Complaints
import OtlpCollectorOidc.Render.Settings
import OtlpCollectorOidc.Upstream.Blame

namespace OtlpCollectorOidc.Render

open Text Strconv Upstream Validation Validated

def LoadError.subjects : LoadError → List Bytes
  | .variable f => f.subjects
  | .identity e => [e.subject]
  | .certificatePair => [Variable.tlsCertFile.name, Variable.tlsKeyFile.name]
  | .futureSkew _ => [Variable.maxFutureSkew.name]
  | .pastAge _ => [Variable.maxPastAge.name]
  | .maxStreams _ => [Variable.maxStreams.name]
  | .deltaStale _ => [Variable.deltaMaxStale.name]
  | .memorySpike _ _ => [Variable.memorySpikeLimitMiB.name, Variable.memoryLimitMiB.name]
  | .ownLogsUnverified =>
    [Setting.skipVerify.baseName, Variable.output.name, Setting.certificate.signalName .logs]

def opens (name text : Bytes) : Bool :=
  name.all nameByte && text = name ++ text.drop name.length && stops (text.drop name.length)

theorem leading_opens {name text : Bytes} (h : opens name text = true) (rest : Bytes) :
    leading (text ++ rest) = name := by
  simp only [opens, Bool.and_eq_true, decide_eq_true_iff, List.all_eq_true] at h
  obtain ⟨⟨hn, ht⟩, hs⟩ := h
  rw [ht, List.append_assoc]
  exact leading_append hn (stops_append hs rest)

theorem infix_opens {name text : Bytes} (h : opens name text = true) (rest : Bytes) :
    name <:+: text ++ rest := by
  simp only [opens, Bool.and_eq_true, decide_eq_true_iff] at h
  rw [h.1.2, List.append_assoc]
  exact (List.prefix_append _ _).isInfix

theorem IdentityError.opening_subject (e : IdentityError) :
    ∃ text rest, e.error = text ++ rest ∧ opens e.subject text = true := by
  cases e with
  | noClaims => exact ⟨_, [], (List.append_nil _).symm, by decide⟩
  | noAttribute claim => exact ⟨_, _, List.append_assoc .., by rw [subject]; decide⟩
  | clientsAttribute attr => exact ⟨_, _, List.append_assoc .., by rw [subject]; decide⟩
  | sharedAttribute first second attr =>
    exact ⟨_, _, by simp only [IdentityError.error, List.append_assoc]; rfl, by rw [subject]; decide⟩
  | clientsResource key => exact ⟨_, _, List.append_assoc .., by rw [subject]; decide⟩
  | claimsResource key claim =>
    exact ⟨_, _, by simp only [IdentityError.error, List.append_assoc]; rfl, by rw [subject]; decide⟩

/-- Every rule's error opens with a variable it names. -/
theorem LoadError.opening (go : Library) {e : LoadError} (h : ∀ f, e ≠ .variable f) :
    ∃ name text rest, e.subjects.head? = some name ∧ e.error go = text ++ rest ∧ opens name text = true := by
  cases e with
  | «variable» f => exact absurd rfl (h f)
  | identity e =>
    obtain ⟨text, rest, ht, ho⟩ := e.opening_subject
    exact ⟨e.subject, text, rest, rfl, ht, ho⟩
  | certificatePair => exact ⟨_, _, [], rfl, by rw [LoadError.error, List.append_nil], by decide⟩
  | futureSkew d => exact ⟨_, _, _, rfl, List.append_assoc .., by decide⟩
  | pastAge d => exact ⟨_, _, _, rfl, List.append_assoc .., by decide⟩
  | maxStreams n => exact ⟨_, _, _, rfl, List.append_assoc .., by decide⟩
  | deltaStale d => exact ⟨_, _, _, rfl, List.append_assoc .., by decide⟩
  | memorySpike spike limit =>
    exact ⟨_, _, _, rfl, by simp only [LoadError.error, List.append_assoc]; rfl, by decide⟩
  | ownLogsUnverified => exact ⟨_, _, [], rfl, by rw [LoadError.error, List.append_nil], by decide +kernel⟩

/-- An error's text holds the name of every variable it names. -/
theorem LoadError.infix_error (go : Library) {e : LoadError} {x : Bytes} (hx : x ∈ e.subjects) :
    x <:+: e.error go := by
  by_cases hv : ∃ f, e = .variable f
  · obtain ⟨f, rfl⟩ := hv
    exact f.infix_error go hx
  · obtain ⟨name, text, rest, hhead, ht, ho⟩ := e.opening go (fun f he ↦ hv ⟨f, he⟩)
    have hlead : name <:+: e.error go := ht ▸ infix_opens ho rest
    cases e with
    | certificatePair =>
      obtain rfl | hx := List.mem_cons.mp hx
      · exact Option.some.inj hhead ▸ hlead
      · rw [List.mem_singleton.mp hx, LoadError.error]
        decide
    | memorySpike spike limit =>
      obtain rfl | hx := List.mem_cons.mp hx
      · exact Option.some.inj hhead ▸ hlead
      · have hlimit : Variable.memoryLimitMiB.name <:+: ofString
          ") must be less than MEMORY_LIMIT_MIB (" := by decide
        rw [List.mem_singleton.mp hx, LoadError.error, List.append_assoc, List.append_assoc]
        exact (hlimit.trans (List.prefix_append _ _).isInfix).trans (List.suffix_append _ _).isInfix
    | ownLogsUnverified =>
      obtain rfl | hx := List.mem_cons.mp hx
      · exact Option.some.inj hhead ▸ hlead
      · simp only [List.mem_cons, List.not_mem_nil, or_false] at hx
        rw [LoadError.error]
        obtain rfl | rfl := hx <;> decide +kernel
    | «variable» f => exact absurd ⟨f, rfl⟩ hv
    | _ =>
      rw [List.mem_singleton.mp hx]
      exact Option.some.inj hhead ▸ hlead

/-- An error whose text starts with a variable it names. -/
def Leads (go : Library) (e : LoadError) : Prop := e.subjects.head? = some (leading (e.error go))

theorem leads_of_rule (go : Library) {e : LoadError} (h : ∀ f, e ≠ .variable f) : Leads go e := by
  obtain ⟨name, text, rest, hhead, ht, ho⟩ := e.opening go h
  rw [Leads, hhead, ht, leading_opens ho]

/-- A variable as it is judged alone: by its parser, and by what of its group's rule reads no other. -/
structure Tag where
  name : Bytes
  required : Bool
  default : Bytes
  refusal : Bytes → Option Bytes
  accepts : Bytes → Bool

def Variable.ruled {α : Type} (v : Variable α) (rule : α → Bool) : Tag where
  name := v.name
  required := v.required
  default := v.default
  refusal raw := match v.parse raw with
    | .ok _ => none
    | .error why => some why
  accepts raw := match v.parse raw with
    | .ok a => rule a
    | .error _ => false

def Variable.tag {α : Type} (v : Variable α) : Tag := v.ruled (fun _ ↦ true)

def identityTags : List Tag :=
  [Variable.issuerURL.tag, Variable.audience.tag, Variable.discoveryRetry.tag, Variable.jwksRefresh.tag,
    Variable.requiredScope.tag, Variable.requiredClaims.tag,
    Variable.claimAttributes.ruled (fun l ↦ !l.pairs.isEmpty && (claimErrors ∅ l.pairs).isEmpty),
    Variable.clientResourceAttrs.ruled (fun l ↦ l.pairs.all (fun kv ↦ !clientOwned kv.key)),
    Variable.clockSkew.tag, Variable.rejectionLogInterval.tag]

def listenerTags : List Tag :=
  [Variable.listenAddr.tag, Variable.tlsCertFile.tag, Variable.tlsKeyFile.tag, Variable.tlsReloadInterval.tag,
    Variable.maxRequestBodyBytes.tag, Variable.corsAllowedOrigins.tag]

def boundsTags (go : Library) : List Tag :=
  [(Variable.allowedServiceNames go).tag, Variable.maxFutureSkew.ruled (fun d ↦ 0 ≤ d),
    Variable.maxPastAge.ruled (fun d ↦ 0 < d)]

def metricsTags (go : Library) : List Tag :=
  [(Variable.allowedNames go).tag, Variable.allowedAttributeKeys.tag,
    Variable.maxStreams.ruled (fun n ↦ 1 ≤ n), Variable.deltaMaxStale.ruled (fun d ↦ 0 < d)]

/-- No limit leaves room for the largest spike, and no spike fits under a limit of nothing. -/
def resourcesTags : List Tag :=
  [Variable.memoryLimitMiB.ruled (fun n ↦ n ≠ 0), Variable.memorySpikeLimitMiB.ruled (fun n ↦ n < 2 ^ 32 - 1),
    Variable.batchTimeout.tag]

def selfTags : List Tag := [Variable.healthAddr.tag, Variable.selfMetricsAddr.tag]

def logsTags : List Tag := [Variable.level.tag, Variable.format.tag]

def ownTags : List Tag := [Variable.output.tag, Variable.serviceName.tag, Variable.resourceAttributes.tag]

def groups (go : Library) : List (List Tag) :=
  [identityTags, listenerTags, boundsTags go, metricsTags go, resourcesTags, selfTags, logsTags, ownTags]

namespace Tag

def selected (lookup : Lookup) (t : Tag) : Bytes := (nonEmpty lookup t.name).getD t.default

def missing (lookup : Lookup) (t : Tag) : Bool := t.required && (nonEmpty lookup t.name).isNone

def faults (go : Library) (lookup : Lookup) (t : Tag) : List LoadError :=
  if t.missing lookup then [.variable (.required t.name)]
  else match t.refusal (t.selected lookup) with
    | none => []
    | some why => [.variable (.invalid t.name (redacted go (t.selected lookup)) why)]

/-- Whether the variable is set if it must be, and parses. -/
def Loads (lookup : Lookup) (t : Tag) : Prop :=
  t.missing lookup = false ∧ t.refusal (t.selected lookup) = none

instance (lookup : Lookup) (t : Tag) : Decidable (t.Loads lookup) := inferInstanceAs (Decidable (_ ∧ _))

def Plain (t : Tag) : Prop := ∀ raw, t.refusal raw = none → t.accepts raw = true

end Tag

theorem plain_tag {α : Type} (v : Variable α) : v.tag.Plain := by
  intro raw h
  simp only [Variable.tag, Variable.ruled] at h ⊢
  cases hp : v.parse raw with
  | ok a => rfl
  | error why => simp [hp] at h

section Tags

variable {go : Library} {lookup : Lookup}

@[simp] theorem faults_ruled {α : Type} (v : Variable α) (rule : α → Bool) :
    (v.ruled rule).faults go lookup = (v.field go lookup).errors := by
  rw [Tag.faults, Variable.field, errors_mapErrors, Variable.load]
  change (if v.required && (nonEmpty lookup v.name).isNone then _ else _) = _
  split_ifs
  · rfl
  · simp only [Variable.ruled, Tag.selected, Variable.selected]
    cases v.parse ((nonEmpty lookup v.name).getD v.default) <;> rfl

theorem accepts_ruled {α : Type} {v : Variable α} {a : α} (h : (v.field go lookup).value = some a)
    (rule : α → Bool) :
    (v.ruled rule).accepts ((v.ruled rule).selected lookup) = rule a := by
  have hp : v.parse ((v.ruled rule).selected lookup) = .ok a := parse_of_field h
  change (match v.parse ((v.ruled rule).selected lookup) with
    | .ok a => rule a
    | .error _ => false) = rule a
  rw [hp]

theorem faults_eq_nil_iff {t : Tag} : t.faults go lookup = [] ↔ t.Loads lookup := by
  unfold Tag.faults Tag.Loads
  split_ifs with h
  · simp [h]
  · cases t.refusal (t.selected lookup) <;> simp [h]

theorem subjects_of_mem_tag {t : Tag} {e : LoadError} (h : e ∈ t.faults go lookup) :
    ∃ f, e = .variable f ∧ f.subjects = [t.name] := by
  unfold Tag.faults at h
  split_ifs at h
  · exact ⟨_, List.mem_singleton.mp h, rfl⟩
  · split at h
    · cases h
    · exact ⟨_, List.mem_singleton.mp h, rfl⟩

theorem length_faults (t : Tag) : (t.faults go lookup).length ≤ 1 := by
  unfold Tag.faults
  split_ifs
  · simp
  · split <;> simp

end Tags

/-- What a group reports: its fields' faults while there are any, and else what its rule refuses. -/
structure GroupReport (go : Library) (lookup : Lookup) (ts : List Tag) (errs : List LoadError) : Prop where
  leads : ∀ e ∈ errs, Leads go e
  subjects : ∀ e ∈ errs, ∀ x ∈ e.subjects, x ∈ ts.map Tag.name
  fields : ∀ t ∈ ts, ¬ t.Loads lookup → errs = ts.flatMap (Tag.faults go lookup)
  rules : (∀ t ∈ ts, t.Loads lookup) → ∀ t ∈ ts, t.accepts (t.selected lookup) = false →
    ∃ e ∈ errs, t.name ∈ e.subjects

section Groups

variable {go : Library} {lookup : Lookup} {ts : List Tag}

theorem errors_eq_nil_iff : ts.flatMap (Tag.faults go lookup) = [] ↔ ∀ t ∈ ts, t.Loads lookup := by
  simp only [List.flatMap_eq_nil_iff, faults_eq_nil_iff]

theorem leads_of_mem_tag {t : Tag} (hn : ∀ c ∈ t.name, nameByte c = true) {e : LoadError}
    (h : e ∈ t.faults go lookup) : Leads go e := by
  obtain ⟨f, rfl, hf⟩ := subjects_of_mem_tag h
  refine f.leading_error go ?_
  rw [hf]
  exact List.forall_mem_singleton.mpr hn

theorem groupReport_check {α : Type} {x : Validated LoadError α} {rule : α → List LoadError}
    (hnames : (ts.map Tag.name).all (List.all · nameByte) = true)
    (hx : x.errors = ts.flatMap (Tag.faults go lookup))
    (hrule : ∀ a, ∀ e ∈ rule a, (∀ f, e ≠ .variable f) ∧ ∀ y ∈ e.subjects, y ∈ ts.map Tag.name)
    (hown : ∀ a, x.value = some a → ∀ t ∈ ts, t.Plain ∨
      (t.accepts (t.selected lookup) = false → ∃ e ∈ rule a, t.name ∈ e.subjects)) :
    GroupReport go lookup ts (x.check rule).errors := by
  have hmem : ∀ e ∈ (x.check rule).errors, (∃ t ∈ ts, e ∈ t.faults go lookup) ∨ ∃ a, e ∈ rule a := by
    intro e he
    rw [errors_check, List.mem_append, hx, List.mem_flatMap] at he
    refine he.imp_right (fun hr ↦ ?_)
    cases hv : x.value with
    | none => simp [hv] at hr
    | some a => exact ⟨a, by simpa [hv] using hr⟩
  constructor
  · intro e he
    obtain ⟨t, ht, he⟩ | ⟨a, he⟩ := hmem e he
    · have hname := List.all_eq_true.mp hnames _ (List.mem_map_of_mem ht)
      exact leads_of_mem_tag (List.all_eq_true.mp hname) he
    · exact leads_of_rule go (hrule a e he).1
  · intro e he y hy
    obtain ⟨t, ht, he⟩ | ⟨a, he⟩ := hmem e he
    · obtain ⟨f, rfl, hf⟩ := subjects_of_mem_tag he
      have hy' : y ∈ f.subjects := hy
      rw [hf, List.mem_singleton] at hy'
      exact hy' ▸ List.mem_map_of_mem ht
    · exact (hrule a e he).2 y hy
  · intro t ht hload
    have hne : x.errors ≠ [] := by
      rw [hx]
      exact fun h ↦ hload (errors_eq_nil_iff.mp h t ht)
    rw [errors_check, value_eq_none.mpr hne, hx]
    simp
  · intro hload t ht hacc
    have hnil : x.errors = [] := hx.trans (errors_eq_nil_iff.mpr hload)
    obtain ⟨a, ha⟩ := Option.isSome_iff_exists.mp (x.complete.mpr hnil)
    obtain hplain | hnamed := hown a ha t ht
    · exact absurd hacc (by simp [hplain _ (hload t ht).2])
    · obtain ⟨e, he, hname⟩ := hnamed hacc
      refine ⟨e, ?_, hname⟩
      rw [errors_check, hnil, ha]
      exact he

/-- A group without a rule. -/
theorem groupReport_fields {α : Type} {x : Validated LoadError α}
    (hnames : (ts.map Tag.name).all (List.all · nameByte) = true)
    (hx : x.errors = ts.flatMap (Tag.faults go lookup)) (hplain : ∀ t ∈ ts, t.Plain) :
    GroupReport go lookup ts x.errors := by
  have h : GroupReport go lookup ts (x.check (fun _ ↦ [])).errors :=
    groupReport_check hnames hx (fun _ _ he ↦ absurd he List.not_mem_nil)
      (fun _ _ t ht ↦ Or.inl (hplain t ht))
  have he : (x.check (fun _ ↦ [])).errors = x.errors := by
    rw [errors_check]
    cases x.value <;> simp
  exact he ▸ h

theorem claims_named (s : IdentitySettings)
    (h : (!s.claimAttributes.pairs.isEmpty && (claimErrors ∅ s.claimAttributes.pairs).isEmpty) = false) :
    ∃ e ∈ s.validate.map LoadError.identity, Variable.claimAttributes.name ∈ e.subjects := by
  rw [Bool.and_eq_false_iff, Bool.not_eq_false', List.isEmpty_iff, Bool.eq_false_iff, Ne,
    List.isEmpty_iff] at h
  obtain h | h := h
  · have hmem : IdentityError.noClaims ∈ s.validate := by simp [IdentitySettings.validate, h]
    exact ⟨_, List.mem_map_of_mem hmem, List.mem_singleton.mpr rfl⟩
  · obtain ⟨e, he⟩ := List.exists_mem_of_ne_nil _ h
    have hmem : e ∈ s.validate := List.mem_append_left _ (List.mem_append_right _ he)
    exact ⟨_, List.mem_map_of_mem hmem, List.mem_singleton.mpr (subject_of_mem_claimErrors he).symm⟩

theorem resources_named (s : IdentitySettings)
    (h : s.clientResourceAttrs.pairs.all (fun kv ↦ !clientOwned kv.key) = false) :
    ∃ e ∈ s.validate.map LoadError.identity, Variable.clientResourceAttrs.name ∈ e.subjects := by
  obtain ⟨kv, hkv, hc⟩ := List.all_eq_false.mp h
  rw [Bool.not_eq_true', Bool.not_eq_false] at hc
  have he : IdentityError.clientsResource kv.key ∈ resourceError (targets s.claimAttributes.pairs) kv := by
    rw [resourceError, if_pos hc]
    exact List.mem_singleton.mpr rfl
  have hmem : IdentityError.clientsResource kv.key ∈ s.validate :=
    List.mem_append_right _ (List.mem_flatMap.mpr ⟨kv, hkv, he⟩)
  exact ⟨_, List.mem_map_of_mem hmem, List.mem_singleton.mpr rfl⟩

variable (go lookup)

theorem errors_readIdentity :
    (readIdentity go lookup).errors = identityTags.flatMap (Tag.faults go lookup) := by
  simp [readIdentity, identityTags, Variable.tag]

theorem errors_readListener :
    (readListener go lookup).errors = listenerTags.flatMap (Tag.faults go lookup) := by
  simp [readListener, listenerTags, Variable.tag]

theorem errors_readBounds :
    (readBounds go lookup).errors = (boundsTags go).flatMap (Tag.faults go lookup) := by
  simp [readBounds, boundsTags, Variable.tag]

theorem errors_readMetrics :
    (readMetrics go lookup).errors = (metricsTags go).flatMap (Tag.faults go lookup) := by
  simp [readMetrics, metricsTags, Variable.tag]

theorem errors_readResources :
    (readResources go lookup).errors = resourcesTags.flatMap (Tag.faults go lookup) := by
  simp [readResources, resourcesTags, Variable.tag]

theorem errors_loadSelf : (loadSelf go lookup).errors = selfTags.flatMap (Tag.faults go lookup) := by
  simp [loadSelf, selfTags, Variable.tag]

theorem errors_loadLogs : (loadLogs go lookup).errors = logsTags.flatMap (Tag.faults go lookup) := by
  simp [loadLogs, logsTags, Variable.tag]

theorem errors_loadOwn : (loadOwn go lookup).errors = ownTags.flatMap (Tag.faults go lookup) := by
  simp [loadOwn, ownTags, Variable.tag]

theorem identity_report : GroupReport go lookup identityTags (loadIdentity go lookup).errors := by
  refine groupReport_check (by decide) (errors_readIdentity go lookup) ?_ ?_
  · intro s e he
    obtain ⟨e, _, rfl⟩ := List.mem_map.mp he
    refine ⟨by simp, ?_⟩
    intro y hy
    rw [List.mem_singleton.mp hy]
    cases e <;> rw [IdentityError.subject] <;> decide
  · intro s hs
    obtain ⟨hclaims, hresources⟩ := identity_lists hs
    simp only [identityTags, List.forall_mem_cons, plain_tag, true_or, true_and]
    refine ⟨Or.inr ?_, Or.inr ?_, List.forall_mem_nil _⟩
    · rw [accepts_ruled hclaims]
      exact claims_named s.toIdentitySettings
    · rw [accepts_ruled hresources]
      exact resources_named s.toIdentitySettings

theorem listener_report : GroupReport go lookup listenerTags (loadListener go lookup).errors := by
  refine groupReport_check (by decide) (errors_readListener go lookup) ?_ ?_
  · intro s e he
    unfold ListenerSettings.validate at he
    rw [eq_of_mem_complaint he]
    exact ⟨by simp, by decide⟩
  · intro s _ t ht
    have hplain : ∀ t ∈ listenerTags, t.Plain := by
      simp only [listenerTags, List.forall_mem_cons, plain_tag, true_and]
      exact List.forall_mem_nil _
    exact Or.inl (hplain t ht)

theorem names_boundsTags : (boundsTags go).map Tag.name =
    [ofString "ALLOWED_SERVICE_NAMES", Variable.maxFutureSkew.name, Variable.maxPastAge.name] := rfl

theorem bounds_report : GroupReport go lookup (boundsTags go) (loadBounds go lookup).errors := by
  refine groupReport_check (by rw [names_boundsTags]; decide) (errors_readBounds go lookup) ?_ ?_
  · intro s e he
    rw [names_boundsTags]
    simp only [BoundsSettings.validate, List.mem_append] at he
    obtain he | he := he
    · rw [eq_of_mem_complaint he]
      exact ⟨by simp, by simp [LoadError.subjects]⟩
    · rw [eq_of_mem_complaint he]
      exact ⟨by simp, by simp [LoadError.subjects]⟩
  · intro s hs
    obtain ⟨_, past, h₁, hpast, rfl⟩ := value_seq.mp hs
    obtain ⟨_, future, h₂, hfuture, rfl⟩ := value_seq.mp h₁
    obtain ⟨_, names, h₃, _, rfl⟩ := value_seq.mp h₂
    cases value_ok.mp h₃
    simp only [boundsTags, List.forall_mem_cons, plain_tag, true_or, true_and]
    refine ⟨Or.inr ?_, Or.inr ?_, List.forall_mem_nil _⟩
    · rw [accepts_ruled hfuture, decide_eq_false_iff_not, not_le]
      intro hlt
      exact ⟨.futureSkew future, by simp [BoundsSettings.validate, hlt], List.mem_singleton.mpr rfl⟩
    · rw [accepts_ruled hpast, decide_eq_false_iff_not, not_lt]
      intro hle
      exact ⟨.pastAge past, by simp [BoundsSettings.validate, hle], List.mem_singleton.mpr rfl⟩

theorem names_metricsTags : (metricsTags go).map Tag.name =
    [ofString "ALLOWED_METRIC_NAMES", Variable.allowedAttributeKeys.name, Variable.maxStreams.name,
      Variable.deltaMaxStale.name] := rfl

theorem metrics_report : GroupReport go lookup (metricsTags go) (loadMetrics go lookup).errors := by
  refine groupReport_check (by rw [names_metricsTags]; decide) (errors_readMetrics go lookup) ?_ ?_
  · intro s e he
    rw [names_metricsTags]
    simp only [MetricSettings.validate, List.mem_append] at he
    obtain he | he := he
    · rw [eq_of_mem_complaint he]
      exact ⟨by simp, by simp [LoadError.subjects]⟩
    · rw [eq_of_mem_complaint he]
      exact ⟨by simp, by simp [LoadError.subjects]⟩
  · intro s hs
    obtain ⟨_, stale, h₁, hstale, rfl⟩ := value_seq.mp hs
    obtain ⟨_, streams, h₂, hstreams, rfl⟩ := value_seq.mp h₁
    obtain ⟨_, keys, h₃, _, rfl⟩ := value_seq.mp h₂
    obtain ⟨_, names, h₄, _, rfl⟩ := value_seq.mp h₃
    cases value_ok.mp h₄
    simp only [metricsTags, List.forall_mem_cons, plain_tag, true_or, true_and]
    refine ⟨Or.inr ?_, Or.inr ?_, List.forall_mem_nil _⟩
    · rw [accepts_ruled hstreams, decide_eq_false_iff_not, not_le]
      intro hlt
      exact ⟨.maxStreams streams, by simp [MetricSettings.validate, hlt], List.mem_singleton.mpr rfl⟩
    · rw [accepts_ruled hstale, decide_eq_false_iff_not, not_lt]
      intro hle
      exact ⟨.deltaStale stale, by simp [MetricSettings.validate, hle], List.mem_singleton.mpr rfl⟩

theorem uint32_of_field {v : Variable ℕ} (hv : v.parse = uint32Field) {n : ℕ}
    (h : (v.field go lookup).value = some n) :
    n < 2 ^ 32 := by
  have hp := parse_of_field h
  rw [hv, uint32Field] at hp
  split at hp
  · rename_i m hm
    cases hp
    exact parseUint_lt hm
  · cases hp

theorem resources_report : GroupReport go lookup resourcesTags (loadResources go lookup).errors := by
  refine groupReport_check (by decide) (errors_readResources go lookup) ?_ ?_
  · intro s e he
    unfold ResourceSettings.validate at he
    rw [eq_of_mem_complaint he]
    exact ⟨by simp, by simp [LoadError.subjects, resourcesTags, Variable.tag, Variable.ruled]⟩
  · intro s hs
    obtain ⟨_, batch, h₁, _, rfl⟩ := value_seq.mp hs
    obtain ⟨_, spike, h₂, hspike, rfl⟩ := value_seq.mp h₁
    obtain ⟨_, limit, h₃, hlimit, rfl⟩ := value_seq.mp h₂
    cases value_ok.mp h₃
    simp only [resourcesTags, List.forall_mem_cons, plain_tag, true_or, true_and]
    refine ⟨Or.inr ?_, Or.inr ?_, List.forall_mem_nil _⟩
    · rw [accepts_ruled hlimit, decide_eq_false_iff_not, not_not]
      intro hzero
      have hle : limit ≤ spike := by omega
      exact ⟨.memorySpike spike limit, by simp [ResourceSettings.validate, hle],
        by simp [LoadError.subjects, Variable.ruled]⟩
    · rw [accepts_ruled hspike, decide_eq_false_iff_not]
      intro hmax
      have hle : limit ≤ spike := by
        have hlt := uint32_of_field go lookup rfl hlimit
        omega
      exact ⟨.memorySpike spike limit, by simp [ResourceSettings.validate, hle],
        by simp [LoadError.subjects, Variable.ruled]⟩

theorem self_report : GroupReport go lookup selfTags (loadSelf go lookup).errors := by
  refine groupReport_fields (by decide) (errors_loadSelf go lookup) ?_
  simp only [selfTags, List.forall_mem_cons, plain_tag, true_and]
  exact List.forall_mem_nil _

theorem logs_report : GroupReport go lookup logsTags (loadLogs go lookup).errors := by
  refine groupReport_fields (by decide) (errors_loadLogs go lookup) ?_
  simp only [logsTags, List.forall_mem_cons, plain_tag, true_and]
  exact List.forall_mem_nil _

theorem own_report : GroupReport go lookup ownTags (loadOwn go lookup).errors := by
  refine groupReport_fields (by decide) (errors_loadOwn go lookup) ?_
  simp only [ownTags, List.forall_mem_cons, plain_tag, true_and]
  exact List.forall_mem_nil _

end Groups

section Texts

variable {go : Library} {lookup : Lookup}

/-- Errors that open with different variables read differently. -/
theorem nodup_of_heads {errs : List LoadError} (hleads : ∀ e ∈ errs, Leads go e)
    (h : (errs.map (fun e ↦ e.subjects.head?)).Nodup) : (errs.map (LoadError.error go)).Nodup := by
  rw [List.Nodup, List.pairwise_map] at h ⊢
  refine h.imp_of_mem (fun {a b} ha hb hne ht ↦ hne ?_)
  rw [hleads a ha, hleads b hb, ht]

theorem heads_fields {ts : List Tag} (hn : (ts.map Tag.name).Nodup) :
    ((ts.flatMap (Tag.faults go lookup)).map (fun e ↦ e.subjects.head?)).Nodup := by
  rw [nodup_texts_iff _ hn.of_map (fun t _ ↦ length_faults t)]
  intro t ht t' ht' e he e' he' hhead
  obtain ⟨f, rfl, hf⟩ := subjects_of_mem_tag he
  obtain ⟨f', rfl, hf'⟩ := subjects_of_mem_tag he'
  simp only [LoadError.subjects, hf, hf', List.head?_cons, Option.some.injEq] at hhead
  exact List.inj_on_of_nodup_map hn ht ht' hhead

theorem heads_check {α : Type} {x : Validated LoadError α} {rule : α → List LoadError} {ts : List Tag}
    (hn : (ts.map Tag.name).Nodup) (hx : x.errors = ts.flatMap (Tag.faults go lookup))
    (hrule : ∀ a, ((rule a).map (fun e ↦ e.subjects.head?)).Nodup) :
    ((x.check rule).errors.map (fun e ↦ e.subjects.head?)).Nodup := by
  rw [errors_check]
  cases hv : x.value with
  | none =>
    rw [Option.map_none, Option.getD_none, List.append_nil, hx]
    exact heads_fields hn
  | some a =>
    rw [x.complete.mp (by rw [hv]; rfl)]
    exact hrule a

variable (go lookup)

theorem listener_texts : ((loadListener go lookup).errors.map (LoadError.error go)).Nodup := by
  refine nodup_of_heads (listener_report go lookup).leads
    (heads_check (by decide) (errors_readListener go lookup) ?_)
  intro s
  unfold ListenerSettings.validate
  split_ifs <;> simp

theorem bounds_texts : ((loadBounds go lookup).errors.map (LoadError.error go)).Nodup := by
  refine nodup_of_heads (bounds_report go lookup).leads
    (heads_check (by rw [names_boundsTags]; decide) (errors_readBounds go lookup) ?_)
  intro s
  have hne : Variable.maxFutureSkew.name ≠ Variable.maxPastAge.name := by decide
  unfold BoundsSettings.validate
  split_ifs <;> simp [LoadError.subjects, hne]

theorem metrics_texts : ((loadMetrics go lookup).errors.map (LoadError.error go)).Nodup := by
  refine nodup_of_heads (metrics_report go lookup).leads
    (heads_check (by rw [names_metricsTags]; decide) (errors_readMetrics go lookup) ?_)
  intro s
  have hne : Variable.maxStreams.name ≠ Variable.deltaMaxStale.name := by decide
  unfold MetricSettings.validate
  split_ifs <;> simp [LoadError.subjects, hne]

theorem resources_texts : ((loadResources go lookup).errors.map (LoadError.error go)).Nodup := by
  refine nodup_of_heads (resources_report go lookup).leads
    (heads_check (by decide) (errors_readResources go lookup) ?_)
  intro s
  unfold ResourceSettings.validate
  split_ifs <;> simp

theorem self_texts : ((loadSelf go lookup).errors.map (LoadError.error go)).Nodup := by
  refine nodup_of_heads (self_report go lookup).leads ?_
  rw [errors_loadSelf]
  exact heads_fields (by decide)

theorem logs_texts : ((loadLogs go lookup).errors.map (LoadError.error go)).Nodup := by
  refine nodup_of_heads (logs_report go lookup).leads ?_
  rw [errors_loadLogs]
  exact heads_fields (by decide)

theorem own_texts : ((loadOwn go lookup).errors.map (LoadError.error go)).Nodup := by
  refine nodup_of_heads (own_report go lookup).leads ?_
  rw [errors_loadOwn]
  exact heads_fields (by decide)

/-- Once its fields load, the identity group says nothing twice unless two complaints coincide. -/
theorem identity_texts_iff (hload : ∀ t ∈ identityTags, t.Loads lookup) :
    ((loadIdentity go lookup).errors.map (LoadError.error go)).Nodup ↔
      ∀ claims resources, parsePairs (Variable.claimAttributes.selected lookup) = .ok claims →
        parsePairs (Variable.clientResourceAttrs.selected lookup) = .ok resources →
        WordsApart claims.pairs resources.pairs := by
  have hnil : (readIdentity go lookup).errors = [] :=
    (errors_readIdentity go lookup).trans (errors_eq_nil_iff.mpr hload)
  obtain ⟨s, hs⟩ := Option.isSome_iff_exists.mp ((readIdentity go lookup).complete.mpr hnil)
  obtain ⟨hclaims, hresources⟩ := identity_lists hs
  have hclaims' : parsePairs (Variable.claimAttributes.selected lookup) = .ok s.claimAttributes :=
    parse_of_field hclaims
  have hresources' : parsePairs (Variable.clientResourceAttrs.selected lookup) = .ok s.clientResourceAttrs :=
    parse_of_field hresources
  have htexts : (loadIdentity go lookup).errors.map (LoadError.error go) =
      s.toIdentitySettings.validate.map IdentityError.error := by
    rw [loadIdentity, errors_check, hnil, hs, List.nil_append, Option.map_some,
      Option.getD_some, List.map_map]
    rfl
  rw [htexts, texts_nodup_iff]
  constructor
  · intro h claims resources hc hr
    cases hclaims'.symm.trans hc
    cases hresources'.symm.trans hr
    exact h
  · intro h
    exact h _ _ hclaims' hresources'

/-- While a field of the identity group does not load, its rule is not asked. -/
theorem identity_texts_of_field {t : Tag} (ht : t ∈ identityTags) (hload : ¬ t.Loads lookup) :
    ((loadIdentity go lookup).errors.map (LoadError.error go)).Nodup := by
  refine nodup_of_heads (identity_report go lookup).leads ?_
  rw [(identity_report go lookup).fields t ht hload]
  exact heads_fields (by decide)

end Texts

end OtlpCollectorOidc.Render

import OtlpCollectorOidc.Upstream.Resolve

namespace OtlpCollectorOidc.Upstream

open Text

/-- What the names of variables are written with. -/
def nameByte (c : UInt8) : Bool := (0x41 ≤ c && c ≤ 0x5A) || (0x30 ≤ c && c ≤ 0x39) || c = 0x5F

def afterInvalid (text : Bytes) : Bytes := if text.take 8 = ofString "invalid " then text.drop 8 else text

def leading (text : Bytes) : Bytes := (afterInvalid text).takeWhile nameByte

def stops (rest : Bytes) : Bool := rest.head?.any (fun c ↦ !nameByte c && c != 0x69)

theorem stops_append {a : Bytes} (h : stops a = true) (b : Bytes) : stops (a ++ b) = true := by
  cases a with
  | nil => cases h
  | cons c a => exact h

theorem takeWhile_name {name rest : Bytes} (hn : ∀ c ∈ name, nameByte c = true) (hr : stops rest = true) :
    (name ++ rest).takeWhile nameByte = name := by
  rw [List.takeWhile_append_of_pos hn]
  cases rest with
  | nil => simp
  | cons c rest =>
    have hc : ¬ nameByte c = true := by simp_all [stops]
    rw [List.takeWhile_cons_of_neg hc, List.append_nil]

theorem leading_append {name rest : Bytes} (hn : ∀ c ∈ name, nameByte c = true) (hr : stops rest = true) :
    leading (name ++ rest) = name := by
  have hhead : (name ++ rest).head? ≠ some 0x69 := by
    cases name with
    | nil =>
      intro h
      rw [List.nil_append] at h
      simp [stops, h] at hr
    | cons c name =>
      intro h
      have hc := hn c List.mem_cons_self
      rw [List.cons_append, List.head?_cons, Option.some.injEq] at h
      rw [h] at hc
      cases hc
  have hne : (name ++ rest).take 8 ≠ ofString "invalid " := by
    intro h
    have hh := congrArg List.head? h
    rw [List.head?_take, if_neg (by decide)] at hh
    exact hhead hh
  rw [leading, afterInvalid, if_neg hne, takeWhile_name hn hr]

theorem leading_invalid {name rest : Bytes} (hn : ∀ c ∈ name, nameByte c = true) (hr : stops rest = true) :
    leading (ofString "invalid " ++ (name ++ rest)) = name := by
  have hlen : (ofString "invalid ").length = 8 := by decide
  rw [leading, afterInvalid, if_pos (List.take_left' hlen), List.drop_left' hlen, takeWhile_name hn hr]

namespace Fault

/-- The variables a fault names, the one its text starts with first. -/
def subjects : Fault → List Bytes
  | .required name | .invalid name _ _ | .tlsFilePlaintext name _ | .tlsFileUnused name => [name]
  | .insecureUnused => [Setting.insecure.baseName]
  | .insecureHTTP insecure endpoint => [insecure, endpoint]
  | .unpaired certificate key => [certificate, key]

theorem infix_error (go : Library) {f : Fault} {x : Bytes} (hx : x ∈ f.subjects) : x <:+: f.error go := by
  cases f with
  | required name =>
    rw [List.mem_singleton.mp hx]
    exact (List.prefix_append _ _).isInfix
  | invalid name value why =>
    rw [List.mem_singleton.mp hx, Fault.error]
    split_ifs
    · exact ⟨ofString "invalid ", ofString ": " ++ why, by simp⟩
    · exact ⟨ofString "invalid ", ofString " " ++ go.quote value ++ ofString ": " ++ why, by simp⟩
  | insecureUnused =>
    rw [List.mem_singleton.mp hx]
    exact (List.prefix_append _ _).isInfix
  | insecureHTTP insecure endpoint =>
    obtain rfl | hx := List.mem_cons.mp hx
    · exact ⟨[], ofString "=true applies to grpc only: for plaintext http/protobuf, make " ++ endpoint ++
        ofString " an http:// URL", by simp [Fault.error]⟩
    · rw [List.mem_singleton.mp hx]
      exact ⟨_, _, rfl⟩
  | unpaired certificate key =>
    obtain rfl | hx := List.mem_cons.mp hx
    · exact ⟨[], ofString " and " ++ key ++ ofString " must be set together", by simp [Fault.error]⟩
    · rw [List.mem_singleton.mp hx]
      exact ⟨_, _, rfl⟩
  | tlsFilePlaintext name sig =>
    rw [List.mem_singleton.mp hx]
    exact ⟨[], ofString " is set, but the " ++ sig.string ++
      ofString " upstream is plaintext", by simp [Fault.error]⟩
  | tlsFileUnused name =>
    rw [List.mem_singleton.mp hx]
    exact (List.prefix_append _ _).isInfix

/-- A fault's text starts with a variable it names. -/
theorem leading_error (go : Library) {f : Fault} (hf : ∀ x ∈ f.subjects, ∀ c ∈ x, nameByte c = true) :
    f.subjects.head? = some (leading (f.error go)) := by
  cases f with
  | required name => rw [Fault.error, leading_append (hf _ List.mem_cons_self) (by decide)]; rfl
  | invalid name value why =>
    have hname := hf _ List.mem_cons_self
    rw [Fault.error]
    split_ifs
    · rw [List.append_assoc, List.append_assoc, leading_invalid hname (stops_append (by decide) _)]
      rfl
    · simp only [List.append_assoc]
      rw [leading_invalid hname (stops_append (by decide) _)]
      rfl
  | insecureUnused => rw [Fault.error, leading_append (hf _ List.mem_cons_self) (by decide)]; rfl
  | insecureHTTP insecure endpoint =>
    simp only [Fault.error, List.append_assoc]
    rw [leading_append (hf _ List.mem_cons_self) (stops_append (by decide) _)]
    rfl
  | unpaired certificate key =>
    simp only [Fault.error, List.append_assoc]
    rw [leading_append (hf _ List.mem_cons_self) (stops_append (by decide) _)]
    rfl
  | tlsFilePlaintext name sig =>
    simp only [Fault.error, List.append_assoc]
    rw [leading_append (hf _ List.mem_cons_self) (stops_append (by decide) _)]
    rfl
  | tlsFileUnused name => rw [Fault.error, leading_append (hf _ List.mem_cons_self) (by decide)]; rfl

end Fault

def variableNames : List Bytes :=
  settings.map Setting.baseName ++ signals.flatMap (fun sig ↦ settings.map (fun s ↦ s.signalName sig))

theorem nameByte_of_mem : ∀ x ∈ variableNames, ∀ c ∈ x, nameByte c = true := by
  have hall : variableNames.all (List.all · nameByte) = true := by decide +kernel
  intro x hx
  exact List.all_eq_true.mp (List.all_eq_true.mp hall x hx)

theorem name_baseValue (lookup : Lookup) (s : Setting) : (baseValue lookup s).name = s.baseName := by
  unfold baseValue
  split <;> rfl

theorem name_value (lookup : Lookup) (s : Setting) (sig : Signal) :
    (value lookup s sig).name = s.baseName ∨ (value lookup s sig).name = s.signalName sig := by
  have hbase := name_baseValue lookup s
  unfold value
  split_ifs
  · split
    · exact Or.inr rfl
    · exact Or.inl hbase
  · exact Or.inl hbase

theorem baseName_mem (s : Setting) : s.baseName ∈ variableNames :=
  List.mem_append_left _ (List.mem_map_of_mem (mem_settings s))

theorem name_mem (lookup : Lookup) (s : Setting) (sig : Signal) :
    (value lookup s sig).name ∈ variableNames := by
  obtain h | h := name_value lookup s sig
  · exact h ▸ baseName_mem s
  · rw [h]
    exact List.mem_append_right _
      (List.mem_flatMap.mpr ⟨sig, mem_signals sig, List.mem_map_of_mem (mem_settings s)⟩)

/-- A variable read for two signals has one value. -/
theorem raw_of_name {lookup : Lookup} {s : Setting} {sig sig' : Signal}
    (h : (value lookup s sig).name = (value lookup s sig').name) :
    (value lookup s sig).raw = (value lookup s sig').raw := by
  by_cases hs : s.perSignal = true
  · by_cases hsig : sig' = sig
    · rw [hsig]
    · have hne := signalName_ne s (mem_settings s) hs sig (mem_signals sig) s (mem_settings s)
      have hne' := signalName_ne s (mem_settings s) hs sig' (mem_signals sig') s (mem_settings s)
      have hbase := name_baseValue lookup s
      unfold value at h ⊢
      rw [if_pos hs, if_pos hs] at h ⊢
      split at h <;> split at h
      · exact absurd h.symm (hne.2 sig' (mem_signals sig') hsig)
      · exact absurd (hbase.symm.trans h.symm) hne.1
      · exact absurd (hbase.symm.trans h) hne'.1
      · simp_all
  · rw [value, value, if_neg hs, if_neg hs]

/-- Whether a setting's own rule refuses a value, whatever the other variables are: for an endpoint,
under both protocols. -/
def Setting.refuses : Setting → Bytes → Bool
  | .endpoint, raw => [Protocol.grpc, .httpProtobuf].all (fun p ↦ (setEndpoint p raw false).toOption.isNone)
  | .protocol, raw => (parseProtocol raw).toOption.isNone
  | .headers, raw => (parseHeaders raw).toOption.isNone
  | .timeout, raw => (parseTimeout raw).toOption.isNone
  | .compression, raw => (parseCompression raw).toOption.isNone
  | .insecure, raw | .skipVerify, raw => (parseBool raw).toOption.isNone
  | .queueSize, raw => (parseQueueSize raw).toOption.isNone
  | .retryMaxElapsed, raw => (parseRetry raw).toOption.isNone
  | .certificate, _ | .clientCertificate, _ | .clientKey, _ => false

section Own

variable {go : Library} {vals : Setting → Read}

def ownFaults (go : Library) (vals : Setting → Read) : Setting → List Fault
  | .protocol => (vals .protocol).faults go (parseProtocol (vals .protocol).raw)
  | .endpoint => endpointFaults go vals
  | .insecure => (vals .insecure).faults go (parseBool (vals .insecure).raw)
  | .skipVerify => (vals .skipVerify).faults go (parseBool (vals .skipVerify).raw)
  | .headers => (vals .headers).faults go ((parseHeaders (vals .headers).raw).mapError HeaderError.error)
  | .timeout => (vals .timeout).faults go (parseTimeout (vals .timeout).raw)
  | .compression => (vals .compression).faults go (parseCompression (vals .compression).raw)
  | .queueSize => (vals .queueSize).faults go (parseQueueSize (vals .queueSize).raw)
  | .retryMaxElapsed => (vals .retryMaxElapsed).faults go (parseRetry (vals .retryMaxElapsed).raw)
  | .certificate | .clientCertificate | .clientKey => []

theorem mem_parseFaults {f : Fault} : f ∈ parseFaults go vals ↔ ∃ s, f ∈ ownFaults go vals s := by
  constructor
  · intro h
    simp only [parseFaults, List.mem_append] at h
    obtain (((((((h | h) | h) | h) | h) | h) | h) | h) | h := h
    · exact ⟨.protocol, h⟩
    · exact ⟨.endpoint, h⟩
    · exact ⟨.insecure, h⟩
    · exact ⟨.skipVerify, h⟩
    · exact ⟨.headers, h⟩
    · exact ⟨.timeout, h⟩
    · exact ⟨.compression, h⟩
    · exact ⟨.queueSize, h⟩
    · exact ⟨.retryMaxElapsed, h⟩
  · rintro ⟨s, h⟩
    simp only [parseFaults, List.mem_append]
    cases s <;> simp_all [ownFaults]

theorem subjects_of_mem_faults {α : Type} {v : Read} {e : Except Bytes α} {f : Fault}
    (h : f ∈ v.faults go e) :
    f.subjects = [v.name] := by
  cases e with
  | ok a => cases h
  | error why =>
    rw [List.mem_singleton.mp h]
    rfl

theorem subjects_of_mem_endpointFaults {f : Fault} (h : f ∈ endpointFaults go vals) :
    f.subjects = [(vals .endpoint).name] := by
  unfold endpointFaults at h
  split_ifs at h
  · rw [List.mem_singleton.mp h]
    rfl
  · split at h
    · cases h
    · exact subjects_of_mem_faults h

theorem judged_of_mem_endpointFaults {f : Fault} (h : f ∈ endpointFaults go vals) :
    (vals .endpoint).raw = [] ∨ ∃ p, parseProtocol (vals .protocol).raw = .ok p := by
  unfold endpointFaults at h
  split_ifs at h with hnil
  · exact Or.inl hnil
  · split at h
    · cases h
    · rename_i p hp
      exact Or.inr ⟨p, hp⟩

theorem subjects_of_mem_ownFaults {s : Setting} {f : Fault} (h : f ∈ ownFaults go vals s) :
    f.subjects = [(vals s).name] := by
  cases s with
  | endpoint => exact subjects_of_mem_endpointFaults h
  | certificate => cases h
  | clientCertificate => cases h
  | clientKey => cases h
  | _ => exact subjects_of_mem_faults h

theorem mem_faults_of_refused {α : Type} (v : Read) {e : Except Bytes α} (h : e.toOption.isNone = true) :
    ∃ f, f ∈ v.faults go e := by
  cases e with
  | ok a => cases h
  | error why => exact ⟨_, List.mem_singleton.mpr rfl⟩

theorem setEndpoint_refuses {p : Protocol} {raw : Bytes} (h : Setting.endpoint.refuses raw = true)
    (perSignal : Bool) :
    (setEndpoint p raw perSignal).toOption.isNone = true := by
  have hp : (setEndpoint p raw false).toOption.isNone = true :=
    List.all_eq_true.mp h p (by cases p <;> decide)
  have he : (setEndpoint p raw perSignal).toOption.isNone = (setEndpoint p raw false).toOption.isNone := by
    unfold setEndpoint
    cases Url.parse raw with
    | none => rfl
    | some u =>
      cases p with
      | grpc => rfl
      | httpProtobuf =>
        dsimp only
        split_ifs <;> rfl
  rw [he, hp]

/-- A value its own rule refuses is reported, an endpoint's only once the protocol it is read by is known. -/
theorem ownFaults_of_refuses (go : Library) (vals : Setting → Read) {s : Setting}
    (hr : s.refuses (vals s).raw = true)
    (hp : s = .endpoint → (vals .endpoint).raw = [] ∨ ∃ p, parseProtocol (vals .protocol).raw = .ok p) :
    ∃ f, f ∈ ownFaults go vals s := by
  cases s with
  | endpoint =>
    rw [ownFaults, endpointFaults]
    split_ifs with hraw
    · exact ⟨_, List.mem_singleton.mpr rfl⟩
    · obtain hnil | ⟨p, hp⟩ := hp rfl
      · exact absurd hnil hraw
      · rw [hp]
        exact mem_faults_of_refused _ (setEndpoint_refuses hr _)
  | headers =>
    apply mem_faults_of_refused
    have hn : (parseHeaders (vals .headers).raw).toOption.isNone = true := hr
    cases hh : parseHeaders (vals .headers).raw with
    | ok a =>
      rw [hh] at hn
      cases hn
    | error e => rfl
  | certificate => cases hr
  | clientCertificate => cases hr
  | clientKey => cases hr
  | _ => exact mem_faults_of_refused _ hr

/-- Nothing parses where a setting is refused. -/
theorem parsed_of_refuses (go : Library) {s : Setting} (hr : s.refuses (vals s).raw = true) :
    parsed vals = none := by
  by_contra hne
  obtain ⟨p, hp⟩ := Option.ne_none_iff_exists'.mp hne
  have hprotocol := (parsed_eq_some.mp hp).protocol
  obtain ⟨f, hf⟩ := ownFaults_of_refuses go vals hr (fun _ ↦ Or.inr ⟨_, hprotocol⟩)
  have hnil : parseFaults go vals = [] := parseFaults_eq_nil.mpr ⟨p, hp⟩
  exact List.not_mem_nil (hnil ▸ mem_parseFaults.mpr ⟨s, hf⟩)

theorem subjects_of_mem_crossFaults {p : Parsed} {sig : Signal} {f : Fault} (h : f ∈ p.crossFaults vals sig) :
    ∀ x ∈ f.subjects, ∃ s, x = (vals s).name := by
  simp only [Parsed.crossFaults, List.mem_append] at h
  obtain (h | h) | h := h
  · split_ifs at h
    · rw [List.mem_singleton.mp h]
      intro x hx
      obtain rfl | hx := List.mem_cons.mp hx
      · exact ⟨.insecure, rfl⟩
      · exact ⟨.endpoint, List.mem_singleton.mp hx⟩
    · cases h
  · split_ifs at h
    · rw [List.mem_singleton.mp h]
      intro x hx
      obtain rfl | hx := List.mem_cons.mp hx
      · exact ⟨.clientCertificate, rfl⟩
      · exact ⟨.clientKey, List.mem_singleton.mp hx⟩
    · cases h
  · split_ifs at h
    · obtain ⟨v, hv, hf⟩ := List.mem_filterMap.mp h
      split_ifs at hf
      cases hf
      intro x hx
      rw [List.mem_singleton.mp hx]
      simp only [List.mem_cons, List.not_mem_nil, or_false] at hv
      obtain rfl | rfl | rfl := hv
      · exact ⟨.certificate, rfl⟩
      · exact ⟨.clientCertificate, rfl⟩
      · exact ⟨.clientKey, rfl⟩
    · cases h

end Own

section Reported

variable {go : Library} {lookup : Lookup}

/-- The variables of a setting that is no endpoint have other names. -/
theorem endpoint_name_ne : ∀ s ∈ settings, s ≠ .endpoint → ∀ sig ∈ signals, ∀ sig' ∈ signals,
    ∀ x ∈ [s.baseName, s.signalName sig],
      ∀ y ∈ [Setting.endpoint.baseName, Setting.endpoint.signalName sig'], x ≠ y := by
  decide +kernel

theorem eq_endpoint_of_name {s : Setting} {sig sig' : Signal}
    (h : (value lookup s sig).name = (value lookup .endpoint sig').name) : s = .endpoint := by
  by_contra hs
  have hmem (s : Setting) (sig : Signal) : (value lookup s sig).name ∈ [s.baseName, s.signalName sig] := by
    simpa using name_value lookup s sig
  exact endpoint_name_ne s (mem_settings s) hs sig (mem_signals sig) sig' (mem_signals sig') _ (hmem s sig) _
    (hmem .endpoint sig') h

/-- Where a fault of the signals comes from: a signal's own setting, the rules across a
signal that parses, or a base variable that no signal can use. -/
inductive Origin (go : Library) (lookup : Lookup) (f : Fault) : Prop where
  | own (sig : Signal) (s : Setting) : f ∈ ownFaults go (fun s ↦ value lookup s sig) s → Origin go lookup f
  | cross (sig : Signal) (p : Parsed) : parsed (fun s ↦ value lookup s sig) = some p →
    f ∈ p.crossFaults (fun s ↦ value lookup s sig) sig → Origin go lookup f
  | base (s : Setting) : s ≠ .endpoint → f.subjects = [s.baseName] → Origin go lookup f

theorem origin_of_mem {sigs : List Signal} {f : Fault} (h : f ∈ allFaults go lookup sigs) :
    Origin go lookup f := by
  simp only [allFaults, List.mem_append] at h
  obtain (h | h) | h := h
  · obtain ⟨sig, _, hf⟩ := List.mem_flatMap.mp h
    unfold signalFaults at hf
    split at hf
    · obtain ⟨s, hs⟩ := mem_parseFaults.mp hf
      exact .own sig s hs
    · rename_i p hp
      exact .cross sig p hp hf
  · split_ifs at h
    · unfold insecureFaults at h
      split at h
      · split_ifs at h
        · exact .base .insecure (by decide) (by rw [List.mem_singleton.mp h, Fault.subjects])
        · cases h
      · cases h
    · cases h
  · split_ifs at h
    · obtain ⟨s, hs, hf⟩ := List.mem_filterMap.mp h
      split_ifs at hf
      cases hf
      refine .base s ?_ rfl
      rintro rfl
      exact absurd hs (by decide)
    · cases h

theorem Origin.subjects {f : Fault} (h : Origin go lookup f) : ∀ x ∈ f.subjects, x ∈ variableNames := by
  intro x hx
  cases h with
  | own sig s hf =>
    rw [subjects_of_mem_ownFaults hf] at hx
    exact List.mem_singleton.mp hx ▸ name_mem lookup s sig
  | cross sig p _ hf =>
    obtain ⟨s, rfl⟩ := subjects_of_mem_crossFaults hf x hx
    exact name_mem lookup s sig
  | base s _ hs =>
    rw [hs] at hx
    exact List.mem_singleton.mp hx ▸ baseName_mem s

theorem Origin.leading {f : Fault} (h : Origin go lookup f) :
    f.subjects.head? = some (leading (f.error go)) :=
  f.leading_error go (fun x hx ↦ nameByte_of_mem x (h.subjects x hx))

/-- An endpoint whose signals all lack a protocol is never named. -/
theorem Origin.not_endpoint {f : Fault} (h : Origin go lookup f) {sig : Signal}
    (hraw : (value lookup .endpoint sig).raw ≠ [])
    (hprotocol : ∀ sig', (value lookup .endpoint sig').name = (value lookup .endpoint sig).name →
      ∀ p, parseProtocol (value lookup .protocol sig').raw ≠ .ok p) :
    (value lookup .endpoint sig).name ∉ f.subjects := by
  intro hx
  cases h with
  | own sig' s hf =>
    rw [subjects_of_mem_ownFaults hf] at hx
    have hname := List.mem_singleton.mp hx
    obtain rfl := eq_endpoint_of_name hname.symm
    have hendpoint : f ∈ endpointFaults go (fun s ↦ value lookup s sig') := hf
    obtain hnil | ⟨p, hp⟩ := judged_of_mem_endpointFaults hendpoint
    · exact hraw ((raw_of_name hname).trans hnil)
    · exact hprotocol sig' hname.symm p hp
  | cross sig' p hp hf =>
    obtain ⟨s, hname⟩ := subjects_of_mem_crossFaults hf _ hx
    obtain rfl := eq_endpoint_of_name hname.symm
    exact hprotocol sig' hname.symm p.protocol (parsed_eq_some.mp hp).protocol
  | base s hs hsubjects =>
    rw [hsubjects] at hx
    have hmem : (value lookup .endpoint sig).name ∈
        [Setting.endpoint.baseName, Setting.endpoint.signalName sig] := by
      simpa using name_value lookup .endpoint sig
    exact endpoint_name_ne s (mem_settings s) hs sig (mem_signals sig) sig
      (mem_signals sig) _ List.mem_cons_self _ hmem
      (List.mem_singleton.mp hx).symm

theorem mem_signalFaults {sig : Signal} {f : Fault} (hf : f ∈ parseFaults go (fun s ↦ value lookup s sig)) :
    f ∈ signalFaults go lookup sig := by
  unfold signalFaults
  split
  · exact hf
  · rename_i p hp
    rw [parseFaults_eq_nil.mpr ⟨p, hp⟩] at hf
    cases hf

theorem mem_allFaults {sigs : List Signal} {sig : Signal} (hsig : sig ∈ sigs) {f : Fault}
    (hf : f ∈ parseFaults go (fun s ↦ value lookup s sig)) : f ∈ allFaults go lookup sigs :=
  List.mem_append_left _ (List.mem_append_left _ (List.mem_flatMap.mpr ⟨sig, hsig, mem_signalFaults hf⟩))

/-- What a signal is at fault for on its own is among the errors, though perhaps under another signal. -/
theorem named_of_ownFaults {sigs : List Signal} (hn : sigs.Nodup) {errs : List Fault}
    (h : resolve go lookup sigs = .error errs) {sig : Signal} (hsig : sig ∈ sigs) {s : Setting} {f : Fault}
    (hf : f ∈ ownFaults go (fun s ↦ value lookup s sig) s) :
    ∃ e ∈ errs, (value lookup s sig).name ∈ e.subjects := by
  obtain ⟨_, hc⟩ := resolve_error hn h
  have hall := mem_allFaults hsig (mem_parseFaults.mpr ⟨s, hf⟩)
  obtain ⟨e, he, htext⟩ := List.mem_map.mp ((hc.texts (f.error go)).mpr (Or.inr (List.mem_map_of_mem hall)))
  have horigin : Origin go lookup e := origin_of_mem ((hc.mem e he).resolve_left List.not_mem_nil)
  refine ⟨e, he, List.mem_of_head? ?_⟩
  have hlead := (Origin.own sig s hf).leading
  rw [subjects_of_mem_ownFaults hf] at hlead
  rw [horigin.leading, htext]
  exact hlead.symm

end Reported

end OtlpCollectorOidc.Upstream

import OtlpCollectorOidc.Lib.Decimal
import OtlpCollectorOidc.Lib.Quoted
import OtlpCollectorOidc.Lib.Redaction
import OtlpCollectorOidc.Upstream.Blame

namespace OtlpCollectorOidc.Upstream

open Text Url

def Library.printing (isPrint : Char → Bool) (go : Library) : Library :=
  { go with quote := Strconv.quote isPrint, redacted := redactedText go.severalColons }

/-- An endpoint's value with credentials: a scheme, a user, a password and the rest. No mark that would
end an earlier part stands in a later one's place. -/
structure Credentials where
  scheme : Bytes
  user : Bytes
  password : Bytes
  rest : Bytes
  schemeUnmarked : ∀ c ∈ scheme, c ≠ 0x3A ∧ c ≠ 0x2F ∧ c ≠ 0x3F ∧ c ≠ 0x23
  userUnmarked : Unmarked user
  passwordUnmarked : Unmarked password
  nonempty : password ≠ []

namespace Credentials

variable (c : Credentials)

def value : Bytes := withPassword c.scheme c.user c.password c.rest

def masked : Bytes := withPassword c.scheme c.user Url.masked c.rest

theorem withPassword_ne_nil (s user password rest : Bytes) : withPassword s user password rest ≠ [] := by
  simp [withPassword]

end Credentials

def endpointNames : List Bytes := Setting.endpoint.baseName :: signals.map Setting.endpoint.signalName

def hidePassword (lookup : Lookup) (name : Bytes) (c : Credentials) : Lookup :=
  Function.update lookup name (some c.masked)

/-- Some signal reads its endpoint from a variable, by a protocol that is known. -/
def Judged (lookup : Lookup) (sigs : List Signal) (name : Bytes) : Prop :=
  ∃ sig ∈ sigs, (value lookup .endpoint sig).name = name ∧
    ∃ p, parseProtocol (value lookup .protocol sig).raw = .ok p

def Hidden (go : Library) (lookup : Lookup) (sigs : List Signal) (secret : Bytes) : Prop :=
  ∀ errs, resolve go lookup sigs = .error errs → ∀ f ∈ errs, ¬ secret <:+: f.error go

/-- What a setting's own rule can say of a value. Of a list of headers it says which pair is wrong. -/
def Setting.reasons : Setting → List Bytes
  | .endpoint =>
    ["must be an http:// or https:// URL, such as http://collector:4317",
      "must name a port, such as http://collector:4317",
      "must be scheme://host:port only, with no credentials, path or query",
      "must be a URL with no credentials, query or fragment"]
  | .protocol => ["must be grpc or http/protobuf"]
  | .timeout => ["must be a whole number of milliseconds, 1 to 3600000"]
  | .compression => ["must be gzip or none"]
  | .insecure | .skipVerify => ["must be true or false"]
  | .queueSize => ["must be a whole number, at least 1"]
  | .retryMaxElapsed => ["must be a duration such as 60s, or 0s for no limit"]
  | .headers | .certificate | .clientCertificate | .clientKey => []

/-- Everything there is to say of the variables of some signals, whether or not it applies. -/
inductive Complaint (go : Library) (lookup : Lookup) (sigs : List Signal) : Fault → Prop where
  | required {sig : Signal} : sig ∈ sigs →
    Complaint go lookup sigs (.required (value lookup .endpoint sig).name)
  | refused {sig : Signal} (s : Setting) {why : Bytes} : sig ∈ sigs → why ∈ s.reasons →
    Complaint go lookup sigs ((value lookup s sig).invalid go why)
  | header {sig : Signal} (e : HeaderError) : sig ∈ sigs →
    Complaint go lookup sigs ((value lookup .headers sig).invalid go e.error)
  | insecureHTTP {sig : Signal} : sig ∈ sigs →
    Complaint go lookup sigs (.insecureHTTP (value lookup .insecure sig).name
      (value lookup .endpoint sig).name)
  | unpaired {sig : Signal} : sig ∈ sigs →
    Complaint go lookup sigs (.unpaired (value lookup .clientCertificate sig).name
      (value lookup .clientKey sig).name)
  | tlsFilePlaintext {sig : Signal} (s : Setting) : sig ∈ sigs → s.tlsFile = true →
    Complaint go lookup sigs (.tlsFilePlaintext (value lookup s sig).name sig)
  | insecureUnused : Complaint go lookup sigs .insecureUnused
  | tlsFileUnused (s : Setting) : s.tlsFile = true → Complaint go lookup sigs (.tlsFileUnused s.baseName)

/-- A secret that stands in no text about these variables by chance. -/
def Apart (go : Library) (lookup : Lookup) (sigs : List Signal) (secret : Bytes) : Prop :=
  ∀ f, Complaint go lookup sigs f → ¬ secret <:+: f.error go

section Reads

variable {lookup : Lookup} {name v v' : Bytes}

theorem nonEmpty_update (hv' : v' ≠ []) (x : Bytes) :
    nonEmpty (Function.update lookup name (some v')) x = if x = name then some v' else nonEmpty lookup x := by
  rw [nonEmpty, Function.update_apply]
  split_ifs
  · simp [hv']
  · rfl

theorem nonEmpty_eq (hv : v ≠ []) (h : lookup name = some v) : nonEmpty lookup name = some v := by
  simp [nonEmpty, h, hv]

/-- A variable's value is what is read under its name. -/
theorem value_update (hv : v ≠ []) (hv' : v' ≠ []) (h : lookup name = some v) (s : Setting) (sig : Signal) :
    ((value lookup s sig).name = name → (value lookup s sig).raw = v) ∧
    value (Function.update lookup name (some v')) s sig =
      if (value lookup s sig).name = name then { value lookup s sig with raw := v' }
      else value lookup s sig := by
  have hname := nonEmpty_eq hv h
  have hbase : ((baseValue lookup s).name = name → (baseValue lookup s).raw = v) ∧
      baseValue (Function.update lookup name (some v')) s =
        if (baseValue lookup s).name = name then { baseValue lookup s with raw := v' }
            else baseValue lookup s := by
    unfold baseValue
    rw [nonEmpty_update hv']
    by_cases hn : s.baseName = name
    · rw [if_pos hn, hn, hname]
      simp
    · rw [if_neg hn]
      cases nonEmpty lookup s.baseName <;> simp [hn]
  unfold value
  by_cases hs : s.perSignal = true
  · rw [if_pos hs, if_pos hs, nonEmpty_update hv']
    by_cases hn : s.signalName sig = name
    · rw [if_pos hn, hn, hname]
      simp
    · rw [if_neg hn]
      cases nonEmpty lookup (s.signalName sig) with
      | none => exact hbase
      | some raw => simp [hn]
  · rw [if_neg hs, if_neg hs]
    exact hbase

/-- A setting that is no endpoint has other names. -/
theorem name_ne_of_mem_endpointNames {s : Setting} (hs : s ≠ .endpoint) (sig : Signal) {x : Bytes}
    (hx : x ∈ [s.baseName, s.signalName sig]) (hname : name ∈ endpointNames) : x ≠ name := by
  have hne (sig' : Signal) :=
    endpoint_name_ne s (mem_settings s) hs sig (mem_signals sig) sig' (mem_signals sig') x hx
  rcases List.mem_cons.mp hname with rfl | hname
  · exact hne .traces _ List.mem_cons_self
  · obtain ⟨sig', _, rfl⟩ := List.mem_map.mp hname
    exact hne sig' _ (List.mem_cons_of_mem _ List.mem_cons_self)

theorem value_update_other (hv : v ≠ []) (hv' : v' ≠ []) (h : lookup name = some v)
    (hname : name ∈ endpointNames) {s : Setting} (hs : s ≠ .endpoint) (sig : Signal) :
    value (Function.update lookup name (some v')) s sig = value lookup s sig := by
  have hmem : (value lookup s sig).name ∈ [s.baseName, s.signalName sig] := by
    simpa using name_value lookup s sig
  rw [(value_update hv hv' h s sig).2, if_neg (name_ne_of_mem_endpointNames hs sig hmem hname)]

end Reads

section Masked

variable {isPrint : Char → Bool} {go : Library} {c : Credentials}

/-- What parses, parses alike with the password masked, to an address with a user. -/
theorem masked_of_parse (hparse : (parseWith go.severalColons c.value).isSome = true) :
    ∃ u, parseWith go.severalColons c.value = some u ∧ parseWith go.severalColons c.masked = some u ∧
      hasUser c.value = true ∧ hasUser c.masked = true ∧
      redactedText go.severalColons c.value = redactedText go.severalColons c.masked := by
  obtain ⟨u, hu⟩ := Option.isSome_iff_exists.mp hparse
  exact ⟨u, hu, parse_masked c.schemeUnmarked c.userUnmarked c.passwordUnmarked hu⟩

/-- A value of another scheme is refused, however the colons of its host are read. -/
theorem setEndpoint_other {raw : Bytes} {u : URL} (hu : parseWith go.severalColons raw = some u)
    (hscheme : u.scheme ≠ ofString "http" ∧ u.scheme ≠ ofString "https") (p : Protocol) (perSignal : Bool) :
    setEndpoint p raw perSignal =
      .error "must be an http:// or https:// URL, such as http://collector:4317" := by
  unfold setEndpoint
  cases hparse : parse raw with
  | none => rfl
  | some u' =>
    obtain rfl : u' = u := Option.some.inj ((parseWith_of_parse hparse).symm.trans hu)
    simp [hscheme.1, hscheme.2]

theorem parse_of_web {raw : Bytes} {u : URL} (hu : parseWith go.severalColons raw = some u)
    (hscheme : u.scheme = ofString "http" ∨ u.scheme = ofString "https") : parse raw = some u := by
  refine parse_of_parseWith hu ?_
  obtain h | h := hscheme
  · exact h ▸ go.strictColons.1
  · exact h ▸ go.strictColons.2

/-- A value that parses is refused, for its credentials at the latest, and for the same reason whatever
the password. -/
theorem setEndpoint_masked (hparse : (parseWith go.severalColons c.value).isSome = true) (p : Protocol)
    (perSignal : Bool) :
    ∃ why, setEndpoint p c.value perSignal = .error why ∧ setEndpoint p c.masked perSignal = .error why := by
  obtain ⟨u, hu, hmasked, huser, huser', _⟩ := masked_of_parse hparse
  by_cases hscheme : u.scheme = ofString "http" ∨ u.scheme = ofString "https"
  · unfold setEndpoint
    rw [parse_of_web hu hscheme, parse_of_web hmasked hscheme]
    dsimp only
    rw [huser, huser']
    simp only [Bool.true_or, if_true]
    cases p with
    | grpc =>
      dsimp only
      split_ifs
      · exact ⟨_, rfl, rfl⟩
      · exact ⟨_, rfl, rfl⟩
      · exact ⟨_, rfl, rfl⟩
    | httpProtobuf =>
      dsimp only
      split_ifs
      · exact ⟨_, rfl, rfl⟩
      · exact ⟨_, rfl, rfl⟩
  · rw [not_or] at hscheme
    exact ⟨_, setEndpoint_other hu hscheme p perSignal, setEndpoint_other hmasked hscheme p perSignal⟩

theorem redacted_masked (hparse : (parseWith go.severalColons c.value).isSome = true) :
    redacted (.printing isPrint go) c.value = redacted (.printing isPrint go) c.masked := by
  obtain ⟨u, hu, hmasked, huser, huser', htext⟩ := masked_of_parse hparse
  have hshown (raw : Bytes) : redacted (.printing isPrint go) raw =
      if (parseWith go.severalColons raw).isSome &&
        hasUser raw then redactedText go.severalColons raw else raw := rfl
  rw [hshown, hshown, hu, hmasked, huser, huser']
  exact htext

structure MaskedReads (go : Library) (c : Credentials) (vals vals' : Setting → Read) : Prop where
  other : ∀ s, s ≠ .endpoint → vals' s = vals s
  endpoint : vals' .endpoint = { vals .endpoint with raw := c.masked }
  raw : (vals .endpoint).raw = c.value
  safe : ∀ p, parseProtocol (vals .protocol).raw = .ok p → (parseWith go.severalColons c.value).isSome = true

namespace MaskedReads

variable {vals vals' : Setting → Read}

theorem endpointFaults (h : MaskedReads go c vals vals') :
    endpointFaults (.printing isPrint go) vals' = endpointFaults (.printing isPrint go) vals := by
  have hne : c.value ≠ [] := Credentials.withPassword_ne_nil _ _ _ _
  have hne' : c.masked ≠ [] := Credentials.withPassword_ne_nil _ _ _ _
  unfold Upstream.endpointFaults
  rw [h.other .protocol (by decide), h.endpoint, h.raw, if_neg hne, if_neg hne']
  cases hp : parseProtocol (vals .protocol).raw with
  | error e => rfl
  | ok p =>
    obtain ⟨why, hwhy, hwhy'⟩ := setEndpoint_masked (h.safe p hp) p (vals .endpoint).perSignal
    dsimp only
    rw [hwhy, hwhy', Read.faults, Read.faults, Read.invalid, Read.invalid, h.raw, shown, shown,
      redacted_masked (h.safe p hp)]

theorem parseFaults (h : MaskedReads go c vals vals') :
    parseFaults (.printing isPrint go) vals' = parseFaults (.printing isPrint go) vals := by
  unfold Upstream.parseFaults
  rw [h.endpointFaults, h.other .protocol (by decide), h.other .insecure (by decide),
    h.other .skipVerify (by decide), h.other .headers (by decide), h.other .timeout (by decide),
      h.other .compression (by decide),
    h.other .queueSize (by decide), h.other .retryMaxElapsed (by decide)]

theorem parsed (h : MaskedReads go c vals vals') :
    Upstream.parsed vals = none ∧ Upstream.parsed vals' = none := by
  have hnone : Upstream.parsed vals = none := by
    by_contra hsome
    obtain ⟨p, hp⟩ := Option.ne_none_iff_exists'.mp hsome
    have hparses := parsed_eq_some.mp hp
    obtain ⟨why, hwhy, _⟩ :=
      setEndpoint_masked (h.safe _ hparses.protocol) p.protocol (vals .endpoint).perSignal
    have hparts := hparses.parts
    rw [h.raw, hwhy] at hparts
    cases hparts
  refine ⟨hnone, ?_⟩
  by_contra hsome
  obtain ⟨p, hp⟩ := Option.ne_none_iff_exists'.mp hsome
  have hnil := (@parseFaults_eq_nil (.printing (fun _ ↦ true) go) vals').mpr ⟨p, hp⟩
  rw [h.parseFaults, parseFaults_eq_nil, hnone] at hnil
  simp at hnil

end MaskedReads

variable {lookup : Lookup} {sigs : List Signal} {name : Bytes}

/-- A signal's turn with the password masked. -/
theorem signal_hidePassword (hname : name ∈ endpointNames)
    (hvalue : lookup name = some c.value) {sig : Signal}
    (hsafe : (value lookup .endpoint sig).name = name →
      (∃ p, parseProtocol (value lookup .protocol sig).raw = .ok p) →
        (parseWith go.severalColons c.value).isSome = true) (r : Resolver) :
    r.signal (.printing isPrint go) (hidePassword lookup name c) sig =
      r.signal (.printing isPrint go) lookup sig := by
  have hne : c.value ≠ [] := Credentials.withPassword_ne_nil _ _ _ _
  have hne' : c.masked ≠ [] := Credentials.withPassword_ne_nil _ _ _ _
  have hother {s : Setting} (hs : s ≠ .endpoint) :
      value (hidePassword lookup name c) s sig = value lookup s sig :=
    value_update_other hne hne' hvalue hname hs sig
  obtain ⟨hraw, hendpoint⟩ := value_update hne hne' hvalue .endpoint sig
  change value (hidePassword lookup name c) .endpoint sig = _ at hendpoint
  by_cases hread : (value lookup .endpoint sig).name = name
  · rw [if_pos hread] at hendpoint
    have hreads : MaskedReads go c (fun s ↦ value lookup s sig)
        (fun s ↦ value (hidePassword lookup name c) s sig) :=
      ⟨fun s hs ↦ hother hs, hendpoint, hraw hread, fun p hp ↦ hsafe hread ⟨p, hp⟩⟩
    rw [signal_none hreads.parsed.1, signal_none hreads.parsed.2, hreads.parseFaults]
  · rw [if_neg hread] at hendpoint
    have hvals : (fun s ↦ value (hidePassword lookup name c) s sig) = fun s ↦ value lookup s sig := by
      funext s
      by_cases hs : s = .endpoint
      · rw [hs, hendpoint]
      · exact hother hs
    unfold Resolver.signal
    rw [hvals]

/-- Where the password's value parses, or is not judged, Resolve returns what it does with the password
masked. -/
theorem resolve_hidePassword (hname : name ∈ endpointNames) (hvalue : lookup name = some c.value)
    (hsafe : (parseWith go.severalColons c.value).isSome = true ∨ ¬ Judged lookup sigs name) :
    resolve (.printing isPrint go) (hidePassword lookup name c) sigs =
      resolve (.printing isPrint go) lookup sigs := by
  have hstep : sigs.foldl (resolveStep (.printing isPrint go) (hidePassword lookup name c))
    ({}, fun _ ↦ none) =
      sigs.foldl (resolveStep (.printing isPrint go) lookup) ({}, fun _ ↦ none) := by
    refine List.foldl_ext _ _ _ (fun s sig hsig ↦ ?_)
    unfold resolveStep
    rw [signal_hidePassword hname hvalue]
    intro hread hprotocol
    exact hsafe.resolve_right (not_not_intro ⟨sig, hsig, hread, hprotocol⟩)
  have hother (s : Setting) (hs : s ≠ .endpoint) :
      hidePassword lookup name c s.baseName = lookup s.baseName :=
    Function.update_of_ne (name_ne_of_mem_endpointNames hs .traces List.mem_cons_self hname) _ _
  have hinsecure : insecureFaults (hidePassword lookup name c) = insecureFaults lookup := by
    rw [insecureFaults, insecureFaults, hother .insecure (by decide)]
  have htls : tlsFileFaults (hidePassword lookup name c) = tlsFileFaults lookup := by
    unfold tlsFileFaults
    refine List.filterMap_congr (fun s hs ↦ ?_)
    have hfile : s ≠ .endpoint := by
      rintro rfl
      exact absurd (List.mem_filter.mp hs).2 (by decide)
    rw [nonEmpty, nonEmpty, hother s hfile]
  unfold resolve
  rw [hstep, hinsecure, htls]

end Masked

section Complaints

variable {go : Library} {lookup : Lookup} {sigs : List Signal} {sig : Signal} {f : Fault}

theorem invalid_of_mem_faults {α : Type} {v : Read} {e : Except Bytes α} (h : f ∈ v.faults go e) :
    ∃ why, e = .error why ∧ f = v.invalid go why := by
  cases e with
  | ok a => cases h
  | error why => exact ⟨why, rfl, List.mem_singleton.mp h⟩

theorem mapError_eq_error {ε ε' α : Type} {g : ε → ε'} {e : Except ε α} {why : ε'}
    (h : e.mapError g = .error why) :
    ∃ err, why = g err := by
  cases e with
  | ok a => cases h
  | error err => exact ⟨err, (Except.error.inj h).symm⟩

theorem setEndpoint_reason {p : Protocol} {raw why : Bytes} {perSignal : Bool}
    (h : setEndpoint p raw perSignal = .error why) : why ∈ Setting.endpoint.reasons := by
  unfold setEndpoint at h
  cases p with
  | grpc =>
    dsimp only at h
    split at h
    · cases h
      exact List.mem_cons_self
    · split_ifs at h <;> cases h <;> simp [Setting.reasons]
  | httpProtobuf =>
    dsimp only at h
    split at h
    · cases h
      exact List.mem_cons_self
    · split_ifs at h <;> cases h <;> simp [Setting.reasons]

theorem parseProtocol_reason {raw why : Bytes} (h : parseProtocol raw = .error why) :
    why ∈ Setting.protocol.reasons := by
  unfold parseProtocol at h
  split at h <;> cases h
  exact List.mem_cons_self

theorem parseBool_reason {raw why : Bytes} (h : parseBool raw = .error why) :
    why ∈ Setting.insecure.reasons := by
  unfold parseBool at h
  split_ifs at h
  cases h
  exact List.mem_cons_self

theorem parseTimeout_reason {raw why : Bytes} (h : parseTimeout raw = .error why) :
    why ∈ Setting.timeout.reasons := by
  unfold parseTimeout at h
  split at h
  · split_ifs at h
    cases h
    exact List.mem_cons_self
  · cases h
    exact List.mem_cons_self

theorem parseCompression_reason {raw why : Bytes} (h : parseCompression raw = .error why) :
    why ∈ Setting.compression.reasons := by
  unfold parseCompression at h
  split at h <;> cases h
  exact List.mem_cons_self

theorem parseQueueSize_reason {raw why : Bytes} (h : parseQueueSize raw = .error why) :
    why ∈ Setting.queueSize.reasons := by
  unfold parseQueueSize at h
  split at h
  · split_ifs at h
    cases h
    exact List.mem_cons_self
  · cases h
    exact List.mem_cons_self

theorem parseRetry_reason {raw why : Bytes} (h : parseRetry raw = .error why) :
    why ∈ Setting.retryMaxElapsed.reasons := by
  unfold parseRetry at h
  split at h
  · split_ifs at h
    cases h
    exact List.mem_cons_self
  · cases h
    exact List.mem_cons_self

theorem complaint_of_endpointFaults (hsig : sig ∈ sigs)
    (h : f ∈ endpointFaults go (fun s ↦ value lookup s sig)) :
    Complaint go lookup sigs f := by
  unfold endpointFaults at h
  split_ifs at h
  · rw [List.mem_singleton.mp h]
    exact .required hsig
  · split at h
    · cases h
    · obtain ⟨why, hwhy, rfl⟩ := invalid_of_mem_faults h
      exact .refused .endpoint hsig (setEndpoint_reason hwhy)

/-- A setting's own faults are in the table. -/
theorem complaint_of_ownFaults (hsig : sig ∈ sigs) {s : Setting}
    (h : f ∈ ownFaults go (fun s ↦ value lookup s sig) s) : Complaint go lookup sigs f := by
  cases s with
  | endpoint => exact complaint_of_endpointFaults hsig h
  | certificate => cases h
  | clientCertificate => cases h
  | clientKey => cases h
  | headers =>
    obtain ⟨why, hwhy, rfl⟩ := invalid_of_mem_faults h
    obtain ⟨e, rfl⟩ := mapError_eq_error hwhy
    exact .header e hsig
  | protocol =>
    obtain ⟨why, hwhy, rfl⟩ := invalid_of_mem_faults h
    exact .refused .protocol hsig (parseProtocol_reason hwhy)
  | timeout =>
    obtain ⟨why, hwhy, rfl⟩ := invalid_of_mem_faults h
    exact .refused .timeout hsig (parseTimeout_reason hwhy)
  | compression =>
    obtain ⟨why, hwhy, rfl⟩ := invalid_of_mem_faults h
    exact .refused .compression hsig (parseCompression_reason hwhy)
  | insecure =>
    obtain ⟨why, hwhy, rfl⟩ := invalid_of_mem_faults h
    exact .refused .insecure hsig (parseBool_reason hwhy)
  | skipVerify =>
    obtain ⟨why, hwhy, rfl⟩ := invalid_of_mem_faults h
    exact .refused .skipVerify hsig (parseBool_reason hwhy)
  | queueSize =>
    obtain ⟨why, hwhy, rfl⟩ := invalid_of_mem_faults h
    exact .refused .queueSize hsig (parseQueueSize_reason hwhy)
  | retryMaxElapsed =>
    obtain ⟨why, hwhy, rfl⟩ := invalid_of_mem_faults h
    exact .refused .retryMaxElapsed hsig (parseRetry_reason hwhy)

theorem complaint_of_crossFaults (hsig : sig ∈ sigs) {p : Parsed}
    (h : f ∈ p.crossFaults (fun s ↦ value lookup s sig) sig) : Complaint go lookup sigs f := by
  simp only [Parsed.crossFaults, List.mem_append] at h
  obtain (h | h) | h := h
  · split_ifs at h
    · rw [List.mem_singleton.mp h]
      exact .insecureHTTP hsig
    · cases h
  · split_ifs at h
    · rw [List.mem_singleton.mp h]
      exact .unpaired hsig
    · cases h
  · split_ifs at h
    · obtain ⟨v, hv, hf⟩ := List.mem_filterMap.mp h
      split_ifs at hf
      cases hf
      simp only [List.mem_cons, List.not_mem_nil, or_false] at hv
      obtain rfl | rfl | rfl := hv
      · exact .tlsFilePlaintext .certificate hsig rfl
      · exact .tlsFilePlaintext .clientCertificate hsig rfl
      · exact .tlsFilePlaintext .clientKey hsig rfl
    · cases h

theorem complaint_of_signalFaults (hsig : sig ∈ sigs) (h : f ∈ signalFaults go lookup sig) :
    Complaint go lookup sigs f := by
  unfold signalFaults at h
  split at h
  · obtain ⟨s, hs⟩ := mem_parseFaults.mp h
    exact complaint_of_ownFaults hsig hs
  · exact complaint_of_crossFaults hsig h

theorem complaint_of_insecureFaults (h : f ∈ insecureFaults lookup) : Complaint go lookup sigs f := by
  unfold insecureFaults at h
  split at h
  · split_ifs at h
    · rw [List.mem_singleton.mp h]
      exact .insecureUnused
    · cases h
  · cases h

theorem complaint_of_tlsFileFaults (h : f ∈ tlsFileFaults lookup) : Complaint go lookup sigs f := by
  obtain ⟨s, hs, hf⟩ := List.mem_filterMap.mp h
  split_ifs at hf
  cases hf
  exact .tlsFileUnused s (List.mem_filter.mp hs).2

/-- Resolve has nothing else to say. -/
theorem complaint_of_error {errs : List Fault} (h : resolve go lookup sigs = .error errs) (hf : f ∈ errs) :
    Complaint go lookup sigs f := by
  obtain ⟨_, hcollected, _⟩ := foldl_spec go lookup sigs ({}, fun _ ↦ none)
  have hsignals (f : Fault) (hf : f ∈ (sigs.foldl (resolveStep go lookup) ({}, fun _ ↦ none)).1.errs) :
      Complaint go lookup sigs f := by
    obtain ⟨sig, hsig, hf⟩ := List.mem_flatMap.mp ((hcollected.mem f hf).resolve_left List.not_mem_nil)
    exact complaint_of_signalFaults hsig hf
  have hmore (c : Bool) {gs : List Fault} (hgs : ∀ f ∈ gs, Complaint go lookup sigs f) {r : Resolver}
      (hr : ∀ f ∈ r.errs, Complaint go lookup sigs f) :
      ∀ f ∈ ((if c then gs else []).foldl (Resolver.fail go) r).errs, Complaint go lookup sigs f := by
    intro f hf
    obtain hf | hf := (collected_foldl go _ r).mem f hf
    · exact hr f hf
    · split_ifs at hf
      · exact hgs f hf
      · cases hf
  have hfinal {errs' : List Fault} {out : Signal → Option ExporterConfig}
      (h : (if errs' = [] then Except.ok out else .error errs') = .error errs) : errs' = errs := by
    split_ifs at h
    exact Except.error.inj h
  unfold resolve at h
  simp only [foldl_fail_if] at h
  rw [← hfinal h] at hf
  exact hmore _ (fun _ ↦ complaint_of_tlsFileFaults)
    (hmore _ (fun _ ↦ complaint_of_insecureFaults) hsignals) f hf

end Complaints

section Shown

/-- What a signal is at fault for has its text among the errors. -/
theorem mem_errors {go : Library} {lookup : Lookup} {sigs : List Signal} {f : Fault}
    (hf : f ∈ sigs.flatMap (signalFaults go lookup)) :
    ∃ errs, resolve go lookup sigs = .error errs ∧ f.error go ∈ errs.map (Fault.error go) := by
  obtain ⟨_, hcollected, _⟩ := foldl_spec go lookup sigs ({}, fun _ ↦ none)
  have hmore (gs : List Fault) (r : Resolver) (h : f.error go ∈ r.errs.map (Fault.error go)) :
      f.error go ∈ (gs.foldl (Resolver.fail go) r).errs.map (Fault.error go) :=
    ((collected_foldl go gs r).texts _).mpr (Or.inl h)
  have htext := (hcollected.texts (f.error go)).mpr (Or.inr (List.mem_map_of_mem hf))
  have hfinal (errs : List Fault) (out : Signal → Option ExporterConfig)
    (h : f.error go ∈ errs.map (Fault.error go)) :
      ∃ errs', (if errs = [] then Except.ok out else .error errs) = .error errs' ∧
        f.error go ∈ errs'.map (Fault.error go) := by
    refine ⟨errs, if_neg ?_, h⟩
    rintro rfl
    cases h
  unfold resolve
  simp only [foldl_fail_if]
  exact hfinal _ _ (hmore _ _ (hmore _ _ htext))

variable {isPrint : Char → Bool} {go : Library} {c : Credentials} {lookup : Lookup}
  {sigs : List Signal} {name : Bytes}

/-- A value that does not parse is quoted as it stands, and the password with it. -/
theorem quoted_of_not_parse (hvalue : lookup name = some c.value)
    (hparse : parseWith go.severalColons c.value = none) (hjudged : Judged lookup sigs name) :
      ∃ errs, resolve (.printing isPrint go) lookup sigs = .error errs ∧
        ∃ f ∈ errs, Strconv.quoteBody isPrint c.password <:+: f.error (.printing isPrint go) := by
  obtain ⟨sig, hsig, hread, p, hp⟩ := hjudged
  have hne : c.value ≠ [] := Credentials.withPassword_ne_nil _ _ _ _
  have hraw := (value_update hne hne hvalue .endpoint sig).1 hread
  have hrefused : setEndpoint p c.value (value lookup .endpoint sig).perSignal =
      .error "must be an http:// or https:// URL, such as http://collector:4317" := by
    have hstrict : parse c.value = none := by
      rw [Option.eq_none_iff_forall_ne_some]
      intro u hu
      cases hparse.symm.trans (parseWith_of_parse hu)
    rw [setEndpoint, hstrict]
  let f : Fault := (value lookup .endpoint sig).invalid (.printing isPrint go)
    "must be an http:// or https:// URL, such as http://collector:4317"
  have hfault : f ∈ parseFaults (.printing isPrint go) (fun s ↦ value lookup s sig) := by
    refine mem_parseFaults.mpr ⟨.endpoint, ?_⟩
    rw [ownFaults, endpointFaults, hraw, if_neg hne, hp]
    dsimp only
    rw [hrefused]
    exact List.mem_singleton.mpr rfl
  obtain ⟨errs, herrs, htext⟩ := mem_errors (List.mem_flatMap.mpr ⟨sig, hsig, mem_signalFaults hfault⟩)
  obtain ⟨e, he, hsame⟩ := List.mem_map.mp htext
  refine ⟨errs, herrs, e, he, ?_⟩
  have hshown : f = .invalid (value lookup .endpoint sig).name c.value
      "must be an http:// or https:// URL, such as http://collector:4317" := by
    have hplain : redacted (.printing isPrint go) c.value = c.value := by
      have hnone : parseWith (Library.printing isPrint go).severalColons c.value = none := hparse
      rw [redacted, hnone]
      rfl
    dsimp only [f]
    rw [Read.invalid, hraw, setting_value, shown, hplain]
    rfl
  have hsplit : c.value = (c.scheme ++ 0x3A :: 0x2F :: 0x2F :: c.user) ++
      0x3A :: (c.password ++ 0x40 :: c.rest) := by
    simp [Credentials.value, withPassword]
  have hquoted : Strconv.quoteBody isPrint c.password <:+: Strconv.quote isPrint c.value := by
    rw [hsplit]
    exact Strconv.quoteBody_between isPrint (by decide) (by decide) _ _ _
  rw [hsame, hshown, Fault.error, if_neg hne]
  refine hquoted.trans ?_
  rw [List.append_assoc _ (ofString ": ")]
  exact ⟨_, _, rfl⟩

/-- What `strconv.Quote` writes as it is. -/
def Legible (isPrint : Char → Bool) (bs : Bytes) : Prop :=
  ∀ r ∈ runes bs, Strconv.quoteRune isPrint r = r.raw

theorem quoteBody_of_legible {bs : Bytes} (h : Legible isPrint bs) : Strconv.quoteBody isPrint bs = bs := by
  rw [Strconv.quoteBody, List.flatMap_congr h, flatMap_raw_runes]

end Shown

def collectorWith (password : Bytes) (h : password.all (fun c ↦ c ≠ 0x2F && c ≠ 0x3F && c ≠ 0x23) = true)
    (hne : password ≠ []) : Credentials where
  scheme := "http"
  user := "user"
  password := password
  rest := "collector:4317"
  schemeUnmarked := by decide +kernel
  userUnmarked := by
    unfold Unmarked
    decide +kernel
  passwordUnmarked := fun c hc ↦ by simpa [and_assoc] using List.all_eq_true.mp h c hc
  nonempty := hne

def endpointOnly (value : Bytes) : Lookup :=
  fun name ↦ if name = Setting.endpoint.baseName then some value else none

def asciiPrint (c : Char) : Bool := 0x20 ≤ c.toNat && c.toNat < 0x7F

def asciiLibrary : Library := .printing asciiPrint exampleLibrary

def tildePassword : Credentials := collectorWith "s3cret~" (by decide) (by decide)

def tildeLookup : Lookup := endpointOnly tildePassword.value

def tildeMasked : Lookup := hidePassword tildeLookup Setting.endpoint.baseName tildePassword

theorem tilde_not_mem_header (e : HeaderError) : 0x7E ∉ e.error := by
  have hpair {what : String} (hwhat : 0x7E ∉ ofString what) (n : ℕ) : 0x7E ∉ pairError n what := by
    intro hc
    simp only [pairError, List.mem_append] at hc
    obtain ((hc | hc) | hc) | hc := hc
    · exact absurd hc (by decide +kernel)
    · exact Strconv.ne_of_mem_decimal hc (by decide) rfl
    · exact absurd hc (by decide +kernel)
    · exact hwhat hc
  cases e with
  | _ n => exact hpair (by decide +kernel) n

/-- No text about a collector with that password has the mark in it. -/
theorem tilde_not_mem {f : Fault} (h : Complaint asciiLibrary tildeMasked signals f) :
    0x7E ∉ f.error asciiLibrary := by
  cases h with
  | required hsig =>
    have hall : ∀ sig ∈ signals, 0x7E ∉ (Fault.required (value tildeMasked .endpoint sig).name).error
        asciiLibrary := by
      decide +kernel
    exact hall _ hsig
  | refused s hsig hwhy =>
    have hall : ∀ s ∈ settings, ∀ sig ∈ signals, ∀ why ∈ s.reasons,
        0x7E ∉ ((value tildeMasked s sig).invalid asciiLibrary why).error asciiLibrary := by decide +kernel
    exact hall s (mem_settings s) _ hsig _ hwhy
  | header e hsig =>
    have hall : ∀ sig ∈ signals, 0x7E ∉ ofString "invalid " ++ (value tildeMasked .headers sig).name ++
        ofString ": " := by
      decide +kernel
    rw [Read.invalid, setting_value, shown, if_pos (show Setting.headers.secret = true from rfl), Fault.error,
      if_pos rfl, List.mem_append, not_or]
    exact ⟨hall _ hsig, tilde_not_mem_header e⟩
  | insecureHTTP hsig =>
    have hall : ∀ sig ∈ signals, 0x7E ∉ (Fault.insecureHTTP (value tildeMasked .insecure sig).name
        (value tildeMasked .endpoint sig).name).error asciiLibrary := by decide +kernel
    exact hall _ hsig
  | unpaired hsig =>
    have hall : ∀ sig ∈ signals, 0x7E ∉ (Fault.unpaired (value tildeMasked .clientCertificate sig).name
        (value tildeMasked .clientKey sig).name).error asciiLibrary := by decide +kernel
    exact hall _ hsig
  | tlsFilePlaintext s hsig _ =>
    have hall : ∀ s ∈ settings, ∀ sig ∈ signals,
        0x7E ∉ (Fault.tlsFilePlaintext (value tildeMasked s sig).name sig).error asciiLibrary := by
          decide +kernel
    exact hall s (mem_settings s) _ hsig
  | insecureUnused => decide +kernel
  | tlsFileUnused s _ =>
    have hall : ∀ s ∈ settings, 0x7E ∉ (Fault.tlsFileUnused s.baseName).error asciiLibrary := by
      decide +kernel
    exact hall s (mem_settings s)

end OtlpCollectorOidc.Upstream

import OtlpCollectorOidc.Upstream.Resolve

namespace OtlpCollectorOidc.Upstream

open Text

/-- Items of two header lists that have the same name and the same verdict. -/
def SameItem (n : ℕ) (a b : Bytes) : Prop :=
  a = b ∨ trimSpace a ≠ [] ∧ trimSpace b ≠ [] ∧
    (parseHeader n a).map Header.name = (parseHeader n b).map Header.name

inductive SameItems : ℕ → List Bytes → List Bytes → Prop where
  | nil (n : ℕ) : SameItems n [] []
  | cons {n : ℕ} {a b : Bytes} {as bs : List Bytes} :
      SameItem n a b → SameItems (n + 1) as bs → SameItems n (a :: as) (b :: bs)

/-- Header lists that differ in values alone. -/
def SameHeaders (raw raw' : Bytes) : Prop := SameItems 1 (raw.splitOn 0x2C) (raw'.splitOn 0x2C)

def headersNames : List Bytes := Setting.headers.baseName :: signals.map Setting.headers.signalName

/-- Environments that differ in header values alone. -/
def SameButHeaders (lookup lookup' : Lookup) : Prop :=
  ∀ name, lookup name = lookup' name ∨
    name ∈ headersNames ∧ ∃ raw raw', lookup name = some raw ∧ lookup' name = some raw' ∧ SameHeaders raw raw'

def visibleHeaders (h : Headers) : Headers × List Bytes := (h.redacted, h.names)

def visible (cfg : ExporterConfig) : ExporterConfig × List Bytes :=
  ({ cfg with headers := cfg.headers.redacted }, cfg.headers.names)

section Symm

theorem SameItem.symm {n : ℕ} {a b : Bytes} (h : SameItem n a b) : SameItem n b a :=
  h.imp Eq.symm (fun ⟨ha, hb, he⟩ ↦ ⟨hb, ha, he.symm⟩)

theorem SameItems.symm {n : ℕ} {as bs : List Bytes} (h : SameItems n as bs) : SameItems n bs as := by
  induction h with
  | nil n => exact .nil n
  | cons hitem _ ih => exact .cons hitem.symm ih

theorem SameButHeaders.symm {lookup lookup' : Lookup} (h : SameButHeaders lookup lookup') :
    SameButHeaders lookup' lookup := fun name ↦
  (h name).imp Eq.symm (fun ⟨hn, raw, raw', hraw, hraw', hs⟩ ↦ ⟨hn, raw', raw, hraw', hraw, hs.symm⟩)

end Symm

section Headers

theorem map_mask_setHeader (h : Header) (hs : List Header) :
    (setHeader h hs).map mask = setHeader (mask h) (hs.map mask) := by
  induction hs with
  | nil => rfl
  | cons x xs ih =>
    rw [setHeader, List.map_cons, setHeader]
    change _ = if toLower x.name = toLower h.name then _ else _
    split_ifs
    · rfl
    · rw [List.map_cons, ih]

theorem mask_eq_of_name {h h' : Header} (hn : h.name = h'.name) : mask h = mask h' := by
  rw [mask, mask, hn]

/-- Lists of the same names and verdicts parse alike, values apart. -/
theorem SameItems.parseItems {n : ℕ} {as bs : List Bytes} (h : SameItems n as bs) {hs hs' : List Header}
    (hm : hs.map mask = hs'.map mask) :
    (parseItems hs n as).map (List.map mask) = (parseItems hs' n bs).map (List.map mask) := by
  induction h generalizing hs hs' with
  | nil n => exact congrArg Except.ok hm
  | @cons n a b as bs hitem _ ih =>
    have hset : ∀ {x y : Header}, x.name = y.name →
        (setHeader x hs).map mask = (setHeader y hs').map mask := by
      intro x y hxy
      rw [map_mask_setHeader, map_mask_setHeader, hm, mask_eq_of_name hxy]
    rw [Upstream.parseItems, Upstream.parseItems]
    obtain rfl | ⟨ha, hb, he⟩ := hitem
    · split_ifs
      · exact ih hm
      · cases parseHeader n a with
        | error e => rfl
        | ok x => exact ih (hset rfl)
    · rw [if_neg ha, if_neg hb]
      cases hx : parseHeader n a with
      | error e =>
        cases hy : parseHeader n b with
        | error e' =>
          rw [hx, hy] at he
          cases he
          rfl
        | ok y =>
          rw [hx, hy] at he
          cases he
      | ok x =>
        cases hy : parseHeader n b with
        | error e' =>
          rw [hx, hy] at he
          cases he
        | ok y =>
          rw [hx, hy] at he
          exact ih (hset (Except.ok.inj he))

theorem visible_newHeaders (hs : List Header) : visibleHeaders (newHeaders hs) =
    (newHeaders (sortHeaders (hs.map mask)), (sortHeaders (hs.map mask)).map Header.name) := by
  rw [visibleHeaders, Headers.redacted, Headers.names, pairs_newHeaders, sortHeaders_map_mask, List.map_map]
  rfl

theorem SameHeaders.parseHeaders {raw raw' : Bytes} (h : SameHeaders raw raw') :
    (parseHeaders raw).map visibleHeaders = (parseHeaders raw').map visibleHeaders := by
  have hitems : (Upstream.parseItems [] 1 (raw.splitOn 0x2C)).map (List.map mask) =
      (Upstream.parseItems [] 1 (raw'.splitOn 0x2C)).map (List.map mask) := SameItems.parseItems h rfl
  rw [Upstream.parseHeaders, Upstream.parseHeaders]
  cases hx : Upstream.parseItems [] 1 (raw.splitOn 0x2C) with
  | error e =>
    cases hy : Upstream.parseItems [] 1 (raw'.splitOn 0x2C) with
    | error e' =>
      rw [hx, hy] at hitems
      cases hitems
      rfl
    | ok hs' =>
      rw [hx, hy] at hitems
      cases hitems
  | ok hs =>
    cases hy : Upstream.parseItems [] 1 (raw'.splitOn 0x2C) with
    | error e' =>
      rw [hx, hy] at hitems
      cases hitems
    | ok hs' =>
      rw [hx, hy] at hitems
      have hm : hs.map mask = hs'.map mask := Except.ok.inj hitems
      change Except.ok (visibleHeaders (newHeaders hs)) = Except.ok (visibleHeaders (newHeaders hs'))
      rw [visible_newHeaders, visible_newHeaders, hm]

/-- A list is empty when the one it differs from in values alone is. -/
theorem SameHeaders.eq_nil {raw : Bytes} (h : SameHeaders [] raw) : raw = [] := by
  have hsplit : [0x2C].intercalate (raw.splitOn 0x2C) = raw := List.intercalate_splitOn 0x2C
  cases hs : raw.splitOn 0x2C with
  | nil => exact absurd hs (List.splitOnP_ne_nil _ _)
  | cons b bs =>
    rw [SameHeaders, hs] at h
    rw [hs] at hsplit
    cases h with
    | cons hitem hrest =>
      cases hrest
      obtain rfl | ⟨ha, _⟩ := hitem
      · exact hsplit.symm
      · exact absurd rfl ha

end Headers

structure SameReads (vals vals' : Setting → Read) : Prop where
  others : ∀ s, s ≠ .headers → vals s = vals' s
  name : (vals .headers).name = (vals' .headers).name
  setting : (vals .headers).setting = .headers ∧ (vals' .headers).setting = .headers
  headers : (parseHeaders (vals .headers).raw).map visibleHeaders =
    (parseHeaders (vals' .headers).raw).map visibleHeaders

theorem names_ne_headers : ∀ s ∈ settings, s ≠ .headers →
    s.baseName ∉ headersNames ∧ ∀ sig ∈ signals, s.signalName sig ∉ headersNames := by
  decide +kernel

section Reads

variable {lookup lookup' : Lookup}

theorem SameButHeaders.eq (h : SameButHeaders lookup lookup') {name : Bytes} (hn : name ∉ headersNames) :
    lookup name = lookup' name := (h name).resolve_right (fun hr ↦ hn hr.1)

/-- A header variable is set in both or in neither, and holds the same names. -/
theorem SameButHeaders.nonEmpty (h : SameButHeaders lookup lookup') (name : Bytes) :
    nonEmpty lookup name = nonEmpty lookup' name ∨ ∃ raw raw',
      Upstream.nonEmpty lookup name = some raw ∧ Upstream.nonEmpty lookup' name = some raw' ∧
        SameHeaders raw raw' := by
  obtain he | ⟨_, raw, raw', hraw, hraw', hs⟩ := h name
  · left
    rw [Upstream.nonEmpty, Upstream.nonEmpty, he]
  · rw [Upstream.nonEmpty, Upstream.nonEmpty, hraw, hraw']
    by_cases hr : raw = []
    · subst hr
      rw [hs.eq_nil]
      exact Or.inl rfl
    · have hr' : raw' ≠ [] := by
        rintro rfl
        exact hr (SameHeaders.eq_nil (SameItems.symm hs))
      exact Or.inr ⟨raw, raw', by simp [hr], by simp [hr'], hs⟩

theorem SameButHeaders.baseValue (h : SameButHeaders lookup lookup') :
    (baseValue lookup .headers).name = (baseValue lookup' .headers).name ∧
    (parseHeaders (Upstream.baseValue lookup .headers).raw).map visibleHeaders =
      (parseHeaders (Upstream.baseValue lookup' .headers).raw).map visibleHeaders := by
  rw [Upstream.baseValue, Upstream.baseValue]
  obtain he | ⟨raw, raw', hraw, hraw', hs⟩ := h.nonEmpty Setting.headers.baseName
  · rw [he]
    cases Upstream.nonEmpty lookup' Setting.headers.baseName <;> exact ⟨rfl, rfl⟩
  · rw [hraw, hraw']
    exact ⟨rfl, hs.parseHeaders⟩

theorem SameButHeaders.reads (h : SameButHeaders lookup lookup') (sig : Signal) :
    SameReads (fun s ↦ value lookup s sig) (fun s ↦ value lookup' s sig) := by
  obtain ⟨hname, hheaders⟩ := h.baseValue
  have hsetting := And.intro (setting_value lookup .headers sig) (setting_value lookup' .headers sig)
  have hperSignal : Setting.headers.perSignal = true := rfl
  have hothers : ∀ s, s ≠ .headers → value lookup s sig = value lookup' s sig := by
    intro s hs
    obtain ⟨hbase, hown⟩ := names_ne_headers s (mem_settings s) hs
    rw [value, value, Upstream.baseValue, Upstream.baseValue, Upstream.nonEmpty, Upstream.nonEmpty,
      Upstream.nonEmpty, Upstream.nonEmpty, h.eq hbase, h.eq (hown sig (mem_signals sig))]
  obtain he | ⟨raw, raw', hraw, hraw', hs⟩ := h.nonEmpty (Setting.headers.signalName sig)
  · cases hv : Upstream.nonEmpty lookup' (Setting.headers.signalName sig) with
    | none =>
      have hb : ∀ l : Lookup, Upstream.nonEmpty l (Setting.headers.signalName sig) = none →
          value l .headers sig = Upstream.baseValue l .headers := by
        intro l hl
        rw [value, if_pos hperSignal, hl]
      refine ⟨hothers, ?_, hsetting, ?_⟩
      · rw [hb _ (he.trans hv), hb _ hv]
        exact hname
      · rw [hb _ (he.trans hv), hb _ hv]
        exact hheaders
    | some raw =>
      have hsame : value lookup .headers sig = value lookup' .headers sig := by
        rw [value, value, if_pos hperSignal, if_pos hperSignal, he, hv]
      refine ⟨hothers, ?_, hsetting, ?_⟩
      · rw [hsame]
      · rw [hsame]
  · have hl : value lookup .headers sig = ⟨.headers, Setting.headers.signalName sig, raw, true⟩ := by
      rw [value, if_pos hperSignal, hraw]
    have hl' : value lookup' .headers sig = ⟨.headers, Setting.headers.signalName sig, raw', true⟩ := by
      rw [value, if_pos hperSignal, hraw']
    refine ⟨hothers, ?_, hsetting, ?_⟩
    · rw [hl, hl']
    · rw [hl, hl']
      exact hs.parseHeaders

end Reads

section Signals

variable {go : Library} {vals vals' : Setting → Read}

theorem SameReads.symm (h : SameReads vals vals') : SameReads vals' vals :=
  ⟨fun s hs ↦ (h.others s hs).symm, h.name.symm, h.setting.symm, h.headers.symm⟩

theorem SameReads.headersFaults (h : SameReads vals vals') :
    (vals .headers).faults go ((parseHeaders (vals .headers).raw).mapError HeaderError.error) =
      (vals' .headers).faults go ((parseHeaders (vals' .headers).raw).mapError HeaderError.error) := by
  have hheaders := h.headers
  have hinvalid (why : Bytes) : (vals .headers).invalid go why = (vals' .headers).invalid go why := by
    rw [Read.invalid, Read.invalid, h.name, h.setting.1, h.setting.2]
    rfl
  cases hx : parseHeaders (vals .headers).raw with
  | error e =>
    cases hy : parseHeaders (vals' .headers).raw with
    | error e' =>
      rw [hx, hy] at hheaders
      cases hheaders
      exact congrArg (fun f ↦ [f]) (hinvalid _)
    | ok x =>
      rw [hx, hy] at hheaders
      cases hheaders
  | ok x =>
    cases hy : parseHeaders (vals' .headers).raw with
    | error e' =>
      rw [hx, hy] at hheaders
      cases hheaders
    | ok y => rfl

theorem SameReads.parseFaults (h : SameReads vals vals') : parseFaults go vals = parseFaults go vals' := by
  rw [Upstream.parseFaults, Upstream.parseFaults, endpointFaults, endpointFaults, h.headersFaults,
    h.others .protocol (by decide), h.others .endpoint (by decide), h.others .insecure (by decide),
    h.others .skipVerify (by decide), h.others .timeout (by decide), h.others .compression (by decide),
    h.others .queueSize (by decide), h.others .retryMaxElapsed (by decide)]

theorem SameReads.parsed (h : SameReads vals vals') {p : Parsed} (hp : parsed vals = some p) :
    ∃ hs, Upstream.parsed vals' = some { p with headers := hs } ∧
      visibleHeaders hs = visibleHeaders p.headers := by
  have hp := parsed_eq_some.mp hp
  have hheaders := h.headers
  rw [hp.headers] at hheaders
  cases hy : parseHeaders (vals' .headers).raw with
  | error e =>
    rw [hy] at hheaders
    cases hheaders
  | ok hs =>
    rw [hy] at hheaders
    refine ⟨hs, parsed_eq_some.mpr ?_, (Except.ok.inj hheaders).symm⟩
    have hothers := h.others
    exact {
      protocol := hothers .protocol (by decide) ▸ hp.protocol
      present := hothers .endpoint (by decide) ▸ hp.present
      parts := hothers .endpoint (by decide) ▸ hp.parts
      forcePlaintext := hothers .insecure (by decide) ▸ hp.forcePlaintext
      skipVerify := hothers .skipVerify (by decide) ▸ hp.skipVerify
      headers := hy
      timeout := hothers .timeout (by decide) ▸ hp.timeout
      compression := hothers .compression (by decide) ▸ hp.compression
      queueSize := hothers .queueSize (by decide) ▸ hp.queueSize
      retryMaxElapsed := hothers .retryMaxElapsed (by decide) ▸ hp.retryMaxElapsed }

theorem SameReads.parsed_none (h : SameReads vals vals') (hp : Upstream.parsed vals = none) :
    Upstream.parsed vals' = none := by
  cases hp' : Upstream.parsed vals' with
  | none => rfl
  | some p =>
    obtain ⟨hs, hsome, _⟩ := h.symm.parsed hp'
    cases hp.symm.trans hsome

theorem SameReads.crossFaults (h : SameReads vals vals') (p : Parsed) (hs : Headers) (sig : Signal) :
    ({ p with headers := hs } : Parsed).crossFaults vals' sig = p.crossFaults vals sig := by
  rw [Parsed.crossFaults, Parsed.crossFaults, h.others .insecure (by decide), h.others .endpoint (by decide),
    h.others .clientCertificate (by decide), h.others .clientKey (by decide),
      h.others .certificate (by decide)]
  rfl

theorem SameReads.config (h : SameReads vals vals') {p : Parsed} {hs : Headers}
    (hv : visibleHeaders hs = visibleHeaders p.headers) :
    visible (({ p with headers := hs } : Parsed).config vals') = visible (p.config vals) := by
  rw [visibleHeaders, visibleHeaders, Prod.mk.injEq] at hv
  simp only [visible, Parsed.config, hv, ← h.others .certificate (by decide),
    ← h.others .clientCertificate (by decide), ← h.others .clientKey (by decide)]
  rfl

end Signals

section Resolver

variable {lookup lookup' : Lookup}

/-- A signal's turn leaves the same errors, and configurations that show the same. -/
theorem SameButHeaders.signal (h : SameButHeaders lookup lookup') (go : Library) (r : Resolver)
    (sig : Signal) :
    (r.signal go lookup sig).1 = (r.signal go lookup' sig).1 ∧
      (r.signal go lookup sig).2.map visible = (r.signal go lookup' sig).2.map visible := by
  have hreads := h.reads sig
  cases hp : parsed (fun s ↦ value lookup s sig) with
  | none =>
    rw [signal_none hp, signal_none (hreads.parsed_none hp), hreads.parseFaults]
    exact ⟨rfl, rfl⟩
  | some p =>
    obtain ⟨hs, hp', hv⟩ := hreads.parsed hp
    rw [signal_some hp, signal_some hp', signalConfig, signalConfig, hp, hp', hreads.crossFaults]
    refine ⟨rfl, ?_⟩
    dsimp only
    rw [hreads.crossFaults]
    split_ifs
    · exact congrArg some (hreads.config hv).symm
    · rfl

theorem SameButHeaders.foldl (h : SameButHeaders lookup lookup') (go : Library) (sigs : List Signal)
    (s s' : Resolver × (Signal → Option ExporterConfig)) (hr : s.1 = s'.1)
    (hm : ∀ sig, (s.2 sig).map visible = (s'.2 sig).map visible) :
    (sigs.foldl (resolveStep go lookup) s).1 = (sigs.foldl (resolveStep go lookup') s').1 ∧
    ∀ sig, ((sigs.foldl (resolveStep go lookup) s).2 sig).map visible =
      ((sigs.foldl (resolveStep go lookup') s').2 sig).map visible := by
  induction sigs generalizing s s' with
  | nil => exact ⟨hr, hm⟩
  | cons x sigs ih =>
    obtain ⟨hone, hcfg⟩ := h.signal go s.1 x
    rw [List.foldl_cons, List.foldl_cons]
    apply ih
    · rw [resolveStep, resolveStep, ← hr]
      exact hone
    · intro sig
      rw [resolveStep, resolveStep, ← hr]
      dsimp only
      cases hc : (s.1.signal go lookup x).2 with
      | none =>
        rw [hc, Option.map_none, eq_comm, Option.map_eq_none_iff] at hcfg
        rw [hcfg]
        exact hm sig
      | some cfg =>
        rw [hc, Option.map_some, eq_comm, Option.map_eq_some_iff] at hcfg
        obtain ⟨cfg', hcfg', hv⟩ := hcfg
        rw [hcfg', if_neg (Option.some_ne_none cfg), if_neg (Option.some_ne_none cfg')]
        by_cases hx : sig = x
        · subst hx
          rw [Function.update_self, Function.update_self, Option.map_some, Option.map_some, hv]
        · rw [Function.update_of_ne hx, Function.update_of_ne hx]
          exact hm sig

/-- The same errors, or upstreams that show the same. -/
def SameOutcome :
    Except (List Fault) (Signal → Option ExporterConfig) →
      Except (List Fault) (Signal → Option ExporterConfig) → Prop
  | .ok m, .ok m' => ∀ sig, (m sig).map visible = (m' sig).map visible
  | .error errs, .error errs' => errs = errs'
  | _, _ => False

theorem SameButHeaders.resolve (h : SameButHeaders lookup lookup') (go : Library) (sigs : List Signal) :
    SameOutcome (resolve go lookup sigs) (Upstream.resolve go lookup' sigs) := by
  obtain ⟨hr, hm⟩ := h.foldl go sigs ({}, fun _ ↦ none) ({}, fun _ ↦ none) rfl (fun _ ↦ rfl)
  have hsome : (fun sig ↦ ((sigs.foldl (resolveStep go lookup) ({}, fun _ ↦ none)).2 sig).isSome) =
      fun sig ↦ ((sigs.foldl (resolveStep go lookup') ({}, fun _ ↦ none)).2 sig).isSome := by
    funext sig
    rw [← Option.isSome_map (f := visible), hm sig, Option.isSome_map]
  have hinsecure : insecureFaults lookup = insecureFaults lookup' := by
    rw [insecureFaults, insecureFaults, h.eq (names_ne_headers .insecure (mem_settings _) (by decide)).1]
  have hfiles : tlsFileFaults lookup = tlsFileFaults lookup' := by
    apply List.filterMap_congr
    intro s hs
    have hne : s ≠ .headers := by
      rintro rfl
      exact absurd (List.mem_filter.mp hs).2 (by decide)
    rw [Upstream.nonEmpty, Upstream.nonEmpty, h.eq (names_ne_headers s (mem_settings s) hne).1]
  simp only [Upstream.resolve, hr, hsome, hinsecure, hfiles]
  split_ifs
  all_goals first | exact hm | rfl

end Resolver

end OtlpCollectorOidc.Upstream

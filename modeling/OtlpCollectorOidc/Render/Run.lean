import OtlpCollectorOidc.Lib.Calls
import OtlpCollectorOidc.Render.OwnLogs
import OtlpCollectorOidc.Render.Redaction
import OtlpCollectorOidc.Render.Shutdown
import OtlpCollectorOidc.Render.Startup

namespace OtlpCollectorOidc.Render

open Text Upstream Yaml Validation Calls

section Read

variable (go : Library) (lookup : Lookup)

def Variable.collectorConfig : Variable Bytes := { name := "COLLECTOR_CONFIG", parse := parseText }

def loadSource : Validated LoadError Bytes := Variable.collectorConfig.field go lookup

/-- What `run` reads before it acts: a mounted configuration and how to log, or everything that is
rendered. -/
inductive Start where
  | mounted (path : Bytes) (logs : LogSettings)
  | rendered (s : Settings)

def readAll : Validated LoadError Start :=
  let mounted := (loadSource go lookup).value.getD []
  if mounted ≠ [] then .ok (fun _ logs ↦ .mounted mounted logs) <*> loadSource go lookup <*>
    loadLogs go lookup
  else .ok (fun _ s ↦ .rendered s) <*> loadSource go lookup <*> load go lookup

end Read

def upstreamNames : List Bytes :=
  settings.flatMap (fun s ↦ s.baseName :: if s.perSignal then signals.map s.signalName else [])

def sdkVariables : List Bytes :=
  upstreamNames ++ [ofString "OTEL_SERVICE_NAME", ofString "OTEL_RESOURCE_ATTRIBUTES"]

inductive Line where
  | ignoringVersion (version : Bytes)
  | mounted (path : Bytes)
  | rendered (path : Bytes) (fields : List (Bytes × Bytes))
  | document (path : Bytes) (doc : Node)

/-- What `run` calls of the system, the collector and its logger. -/
inductive RunCall where
  | newRandom
  | unset (name : Bytes)
  | newLogger (logs : LogSettings) (own : Option Settings)
  | log (line : Line)
  | writeExclusive (path : Bytes) (doc : Node)
  | newCollector (uri : Bytes)
  | collect
  | warnStderr (message : Bytes) (err : ErrorTree)
  | stop

/-- What the process finds: the build's version, where the rendered file goes, the identifier it is
given, the state the collector ends in, and which calls fail. A line that is logged never does. -/
structure World where
  version : Bytes
  path : Bytes
  instanceID : Bytes
  state : CollectorState
  fails : RunCall → Option ErrorTree
  logs : ∀ line, fails (.log line) = none

/-- `fmt.Errorf` with a text before the error. -/
def errorf (text : Bytes) (err : ErrorTree) : ErrorTree := .wrap (text ++ err.text) err

/-- `errors.Join`, with what it joins flattened. -/
def joined (texts : List Bytes) : ErrorTree := .join (join (ofString "\n") texts) (texts.map .leaf)

def KeyValueList.has (l : KeyValueList) (key : Bytes) : Bool := l.pairs.any (fun kv ↦ kv.key = key)

section Run

variable (go : Library) (w : World)

def Start.logs : Start → LogSettings
  | .mounted _ logs => logs
  | .rendered s => s.logs

def Start.own : Start → Option Settings
  | .mounted _ _ => none
  | .rendered s => some s

/-- The settings of a rendered configuration get their identifier, and nothing else may see what they
came from. -/
def identify : Start → Calls RunCall ErrorTree Start
  | .mounted path logs => pure (.mounted path logs)
  | .rendered s => do
    call .newRandom (errorf (ofString "choosing the instance id: "))
    sdkVariables.forM (fun name ↦
      call (.unset name) (errorf (ofString "unsetting " ++ name ++ ofString ": ")))
    pure (.rendered { s with instanceID := w.instanceID })

def warnVersion (own : Option Settings) : Calls RunCall ErrorTree Unit :=
  if own.any (fun s ↦ s.own.resourceAttributes.has (ofString "service.version")) then
    call (.log (.ignoringVersion w.version)) id
  else pure ()

def writeRendered (s : Settings) : Calls RunCall ErrorTree Bytes :=
  match render s with
  | .error e => fail (.leaf e)
  | .ok doc => do
    call (.writeExclusive w.path doc) (errorf (ofString "writing the rendered configuration: "))
    call (.log (.rendered w.path (resolved s))) id
    match render s.shown with
    | .ok shown => call (.log (.document w.path shown)) id
    | .error _ => pure ()
    pure w.path

def configure : Start → Calls RunCall ErrorTree Bytes
  | .mounted path _ => do
    call (.log (.mounted path)) id
    pure path
  | .rendered s => writeRendered w s

/-- `col.Run`, and what its end makes of what it returned. -/
def collect : Calls RunCall ErrorTree Unit := do
  let err ← tried .collect
  match (runEnd w.state err).warning with
  | some (message, err) => discard (tried (.warnStderr message err))
  | none => pure ()
  match (runEnd w.state err).returned with
  | some err => fail err
  | none => pure ()

def run (lookup : Lookup) : Calls RunCall ErrorTree Unit :=
  match (readAll go lookup).value with
  | none => fail (joined ((readAll go lookup).errors.map (LoadError.error go)))
  | some start => do
    let start ← identify w start
    call (.newLogger start.logs start.own) id
    deferred .stop do
      warnVersion w start.own
      let path ← configure w start
      call (.newCollector (ofString "file:" ++ path)) (errorf (ofString "creating the collector: "))
      collect w

end Run

/-- The error of a call that failed, as `run` returns it. -/
def describe : RunCall → ErrorTree → ErrorTree
  | .newRandom => errorf (ofString "choosing the instance id: ")
  | .unset name => errorf (ofString "unsetting " ++ name ++ ofString ": ")
  | .writeExclusive _ _ => errorf (ofString "writing the rendered configuration: ")
  | .newCollector _ => errorf (ofString "creating the collector: ")
  | _ => id

section Plan

variable (w : World)

def Start.identified : Start → Start
  | .mounted path logs => .mounted path logs
  | .rendered s => .rendered { s with instanceID := w.instanceID }

def Start.preparations : Start → List RunCall
  | .mounted _ _ => []
  | .rendered _ => .newRandom :: sdkVariables.map .unset

def versionLines (own : Option Settings) : List RunCall :=
  if own.any (fun s ↦ s.own.resourceAttributes.has (ofString "service.version")) then
    [.log (.ignoringVersion w.version)]
  else []

def renderedCalls (s : Settings) (doc : Node) : List RunCall :=
  [.writeExclusive w.path doc, .log (.rendered w.path (resolved s))] ++
    ((render s.shown).toOption.map (fun shown ↦ RunCall.log (.document w.path shown))).toList

def Start.configuration : Start → List RunCall
  | .mounted path _ => [.log (.mounted path), .newCollector (ofString "file:" ++ path)]
  | .rendered s =>
    versionLines w (some s) ++ ((render s).toOption.map (renderedCalls w s)).getD [] ++
      [.newCollector (ofString "file:" ++ w.path)]

def Start.logger (start : Start) : RunCall := .newLogger start.logs start.own

/-- Everything `run` calls before the collector runs, in its order. -/
def Start.plan (start : Start) : List RunCall :=
  start.preparations ++ [(start.identified w).logger] ++ (start.identified w).configuration w

end Plan

section Program

variable {w : World}

theorem forM_unset (names : List Bytes) :
    names.forM (fun name ↦ call (.unset name) (errorf (ofString "unsetting " ++ name ++ ofString ": "))) =
      perform describe (names.map .unset) :=
  forM_call describe RunCall.unset names

theorem identify_eq (start : Start) :
    identify w start = perform describe start.preparations >>= fun _ ↦ pure (start.identified w) := by
  cases start with
  | mounted path logs => rfl
  | rendered s =>
    rw [identify, Start.preparations, perform, bind_assoc, forM_unset, describe, Start.identified]

theorem warnVersion_eq (own : Option Settings) :
    warnVersion w own = perform describe (versionLines w own) := by
  rw [warnVersion, versionLines]
  split_ifs
  · exact (perform_singleton describe _).symm
  · rfl

theorem writeRendered_eq {s : Settings} {doc : Node} (h : render s = .ok doc) :
    writeRendered w s = perform describe (renderedCalls w s doc) >>= fun _ ↦ pure w.path := by
  have hwrite : describe (.writeExclusive w.path doc) =
    errorf (ofString "writing the rendered configuration: ") := rfl
  have hlog (line : Line) : describe (.log line) = id := rfl
  rw [writeRendered, h, renderedCalls]
  cases render s.shown with
  | ok shown =>
    simp only [Except.toOption, Option.map_some, Option.toList_some, List.cons_append, List.nil_append,
      perform, hwrite, hlog, bind_assoc, pure_bind]
  | error e =>
    simp only [Except.toOption, Option.map_none, Option.toList_none, List.append_nil, perform, hwrite, hlog,
      bind_assoc, pure_bind]

theorem configure_eq {start : Start} (h : ∀ s, start = .rendered s → ∃ doc, render s = .ok doc) :
    (warnVersion w start.own >>= fun _ ↦ configure w start >>= fun path ↦
      call (.newCollector (ofString "file:" ++ path))
        (errorf (ofString "creating the collector: ")) >>= fun _ ↦ collect w) =
      perform describe (start.configuration w) >>= fun _ ↦ collect w := by
  have hcreate (uri : Bytes) : describe (.newCollector uri) = errorf (ofString "creating the collector: ") :=
    rfl
  cases start with
  | mounted path logs =>
    have hlog : describe (.log (.mounted path)) = id := rfl
    have hquiet : warnVersion w (Start.mounted path logs).own = pure () := rfl
    simp only [Start.configuration, configure, perform, hcreate, hlog, hquiet, bind_assoc, pure_bind]
  | rendered s =>
    obtain ⟨doc, hdoc⟩ := h s rfl
    have hlines : (((render s).toOption.map (renderedCalls w s)).getD []) = renderedCalls w s doc := by
      rw [hdoc]; rfl
    simp only [Start.configuration, hlines, warnVersion_eq, configure, writeRendered_eq hdoc, perform_append,
      perform_singleton, hcreate, bind_assoc, pure_bind, Start.own]

/-- `run` is its plan, with the logger stopped on the way out, and then the collector. -/
theorem run_eq (go : Library) {lookup : Lookup} {start : Start} (h : (readAll go lookup).value = some start)
    (hrender : ∀ s, start.identified w = .rendered s → ∃ doc, render s = .ok doc) :
    run go w lookup = perform describe (start.preparations ++ [(start.identified w).logger]) >>= fun _ ↦
      deferred .stop (perform describe ((start.identified w).configuration w) >>= fun _ ↦ collect w) := by
  have hlogger : describe (start.identified w).logger = id := rfl
  rw [run, h]
  simp only [identify_eq, perform_append, perform_singleton, hlogger, bind_assoc, pure_bind,
    ← configure_eq hrender]
  rfl

end Program

section Ends

variable {go : Library} {w : World} {lookup : Lookup} {start : Start}

theorem readAll_rendered {s : Settings} (h : (readAll go lookup).value = some (.rendered s)) :
    (load go lookup).value = some s := by
  rw [readAll] at h
  split_ifs at h with hmounted
  · obtain ⟨_, _, _, -, hs⟩ := Validated.value_seq.mp h
    obtain ⟨_, _, hf, -, rfl⟩ := Validated.value_seq.mp ‹_›
    cases Validated.value_ok.mp hf
    cases hs
  · obtain ⟨g, s', hg, hs', he⟩ := Validated.value_seq.mp h
    obtain ⟨_, _, hf, -, rfl⟩ := Validated.value_seq.mp hg
    cases Validated.value_ok.mp hf
    cases he
    exact hs'

theorem exists_render (h : (readAll go lookup).value = some start) (s : Settings)
    (hs : start.identified w = .rendered s) :
    ∃ doc, render s = .ok doc := by
  cases start with
  | mounted path logs => cases hs
  | rendered s' =>
    cases hs
    have hloaded := loaded_of_load (readAll_rendered h)
    obtain ⟨ids, -, hrender⟩ := render_eq (s := { s' with instanceID := w.instanceID }) (fun sig ↦ by
      obtain ⟨cfg, hcfg, -⟩ := hloaded.signalConfig sig
      exact ⟨cfg, hcfg⟩)
    exact ⟨_, hrender⟩

def World.ending (w : World) : RunEnd := runEnd w.state (w.fails .collect)

def RunEnd.calls (e : RunEnd) : List RunCall := (e.warning.map (fun p ↦ RunCall.warnStderr p.1 p.2)).toList

def RunEnd.result (e : RunEnd) : Except ErrorTree Unit :=
  match e.returned with
  | some err => .error err
  | none => .ok ()

theorem collect_under : (collect w).under w.fails = (.collect :: w.ending.calls, w.ending.result) := by
  have htried : ((tried (.collect : RunCall) : Calls RunCall ErrorTree (Option ErrorTree)).under w.fails).2 =
      .ok (w.fails .collect) := rfl
  rw [collect, bind_ok htried, World.ending]
  cases w.fails .collect with
  | none => rfl
  | some err =>
    rw [runEnd]
    split_ifs <;> rfl

/-- How a run ends that has read everything: a call fails before there is a logger, or with one, which is then
stopped, or the collector runs. -/
inductive Ends (w : World) (start : Start) : List RunCall × Except ErrorTree Unit → Prop where
  | unprepared {before after : List RunCall} {k : RunCall} {e : ErrorTree} :
      start.preparations ++ [(start.identified w).logger] = before ++ k :: after →
        (∀ x ∈ before, w.fails x = none) →
      w.fails k = some e → Ends w start (before ++ [k], .error (describe k e))
  | unconfigured {before after : List RunCall} {k : RunCall} {e : ErrorTree} :
      start.plan w = start.preparations ++ [(start.identified w).logger] ++ (before ++ k :: after) →
      (∀ x ∈ start.preparations ++ [(start.identified w).logger] ++ before, w.fails x = none) →
        w.fails k = some e →
      Ends w start (start.preparations ++ [(start.identified w).logger] ++ (before ++ [k]) ++ [.stop],
        .error (describe k e))
  | collected : (∀ x ∈ start.plan w, w.fails x = none) →
      Ends w start (start.plan w ++ .collect :: w.ending.calls ++ [.stop], w.ending.result)

theorem ends_run (h : (readAll go lookup).value = some start) :
    Ends w start ((run go w lookup).under w.fails) := by
  rw [run_eq go h (exists_render h)]
  have hplan : start.plan w = start.preparations ++ [(start.identified w).logger] ++
    (start.identified w).configuration w := rfl
  obtain ⟨hprepared, hunder⟩ | ⟨before, k, after, e, hsplit, hbefore, hk, hunder⟩ :=
    perform_cases describe w.fails (start.preparations ++ [(start.identified w).logger])
  · rw [bind_ok (by rw [hunder]), hunder]
    obtain ⟨hconfigured, hunder⟩ | ⟨before, k, after, e, hsplit, hbefore, hk, hunder⟩ :=
      perform_cases describe w.fails ((start.identified w).configuration w)
    · simp only [deferred, bind_ok (x := perform describe ((start.identified w).configuration w))
        (by rw [hunder]), hunder, collect_under]
      rw [← List.append_assoc, ← List.append_assoc, ← hplan]
      exact .collected (by rw [hplan]; exact List.forall_mem_append.mpr ⟨hprepared, hconfigured⟩)
    · simp only [deferred, bind_error (x := perform describe ((start.identified w).configuration w))
        (by rw [hunder]), hunder]
      rw [← List.append_assoc]
      exact .unconfigured (by rw [hplan, hsplit]) (List.forall_mem_append.mpr ⟨hprepared, hbefore⟩) hk
  · rw [bind_error (by rw [hunder]), hunder]
    exact .unprepared hsplit hbefore hk

theorem result_eq_ok {e : RunEnd} : e.result = .ok () ↔ e.exitCode = 0 := by
  rw [RunEnd.result, RunEnd.exitCode]
  cases e.returned <;> simp

theorem Ends.ok_iff {r : List RunCall × Except ErrorTree Unit} (h : Ends w start r) :
    r.2 = .ok () ↔ (∀ k ∈ start.plan w, w.fails k = none) ∧ w.ending.exitCode = 0 := by
  have hfailed {k : RunCall} {e : ErrorTree} (hmem : k ∈ start.plan w) (hk : w.fails k = some e) :
      ¬ ((∀ k ∈ start.plan w, w.fails k = none) ∧ w.ending.exitCode = 0) := by
    rintro ⟨hall, -⟩
    rw [hall k hmem] at hk
    cases hk
  cases h with
  | unprepared hsplit hbefore hk =>
    have hmem := hfailed (List.mem_append_left _ (hsplit ▸ List.mem_append_right _ List.mem_cons_self)) hk
    exact iff_of_false (by simp) hmem
  | unconfigured hsplit hbefore hk =>
    have hmem := hfailed (hsplit ▸ List.mem_append_right _ (List.mem_append_right _ List.mem_cons_self)) hk
    exact iff_of_false (by simp) hmem
  | collected hall =>
    rw [result_eq_ok]
    exact ⟨fun hcode ↦ ⟨hall, hcode⟩, fun h ↦ h.2⟩

end Ends

/-- Whatever fails, `run` reads everything before it acts, then makes the calls of one plan in their
order up to the first that fails, stops the logger it has built, and succeeds just when the collector
has run and ended cleanly. -/
theorem run_follows_plan (go : Library) (w : World) (lookup : Lookup) :
    ((readAll go lookup).value = none → (run go w lookup).under w.fails =
      ([], .error (joined ((readAll go lookup).errors.map (LoadError.error go))))) ∧
    (∀ start, (readAll go lookup).value = some start → Ends w start ((run go w lookup).under w.fails)) ∧
    (((run go w lookup).under w.fails).2 = .ok () ↔ ∃ start, (readAll go lookup).value = some start ∧
      (∀ k ∈ start.plan w, w.fails k = none) ∧ w.ending.exitCode = 0) := by
  have hunread : (readAll go lookup).value = none → (run go w lookup).under w.fails =
      ([], .error (joined ((readAll go lookup).errors.map (LoadError.error go)))) := by
    intro h
    rw [run, h]
    rfl
  refine ⟨hunread, fun start h ↦ ends_run h, ?_⟩
  cases hread : (readAll go lookup).value with
  | none => simp [hunread hread]
  | some start =>
    simp only [Option.some.injEq, exists_eq_left']
    exact (ends_run hread).ok_iff

def unsetBy (calls : List RunCall) : List Bytes :=
  calls.filterMap (fun k ↦ match k with
    | .unset name => some name
    | _ => none)

def remaining (lookup : Lookup) (calls : List RunCall) : Lookup := fun name ↦
  if name ∈ unsetBy calls then none else lookup name

section Environment

theorem mem_unsetBy {calls : List RunCall} {name : Bytes} : name ∈ unsetBy calls ↔ .unset name ∈ calls := by
  rw [unsetBy, List.mem_filterMap]
  constructor
  · rintro ⟨k, hk, he⟩
    cases k <;> cases he
    exact hk
  · intro h
    exact ⟨.unset name, h, rfl⟩

theorem baseName_mem_sdkVariables (s : Setting) : s.baseName ∈ sdkVariables :=
  List.mem_append_left _ (List.mem_flatMap.mpr ⟨s, mem_settings s, List.mem_cons_self⟩)

theorem signalName_mem_sdkVariables {s : Setting} (h : s.perSignal = true) (sig : Signal) :
    s.signalName sig ∈ sdkVariables := by
  refine List.mem_append_left _ (List.mem_flatMap.mpr ⟨s, mem_settings s, List.mem_cons_of_mem _ ?_⟩)
  rw [if_pos h]
  exact List.mem_map_of_mem (mem_signals sig)

/-- Where none of them is set, every upstream setting has its default. -/
theorem value_of_unset {env : Lookup} (h : ∀ name ∈ sdkVariables, env name = none) (s : Setting)
    (sig : Signal) :
    value env s sig = { setting := s, name := s.baseName, raw := s.default } := by
  have hbase : baseValue env s = { setting := s, name := s.baseName, raw := s.default } := by
    rw [baseValue, nonEmpty, h _ (baseName_mem_sdkVariables s)]
    rfl
  rw [value]
  split_ifs with hsig
  · rw [nonEmpty, h _ (signalName_mem_sdkVariables hsig sig)]
    exact hbase
  · exact hbase

variable {w : World} {start : Start} {r : List RunCall × Except ErrorTree Unit}

/-- The calls before the logger are made first. -/
theorem Ends.preparations_first (h : Ends w start r) :
    ∃ calls, start.preparations <+: calls ∧ r.1 <+: calls := by
  cases h with
  | @unprepared before after k e hsplit hbefore hk =>
    refine ⟨start.preparations ++ [(start.identified w).logger], List.prefix_append _ _, after, ?_⟩
    rw [hsplit, ← List.append_cons]
  | unconfigured hsplit hbefore hk => exact ⟨_, by simp [List.append_assoc], List.prefix_rfl⟩
  | collected hall => exact ⟨_, by simp [Start.plan, List.append_assoc], List.prefix_rfl⟩

theorem unset_notMem_configuration {name : Bytes} : RunCall.unset name ∉ start.configuration w := by
  cases start with
  | mounted path logs => simp [Start.configuration]
  | rendered s =>
    have hversion : RunCall.unset name ∉ versionLines w (some s) := by
      rw [versionLines]
      split_ifs <;> simp
    have hrendered : RunCall.unset name ∉ ((render s).toOption.map (renderedCalls w s)).getD [] := by
      cases render s with
      | error e => simp [Except.toOption]
      | ok doc => cases render s.shown <;> simp [Except.toOption, renderedCalls, *]
    simp [Start.configuration, hversion, hrendered]

/-- Nothing else is unset. -/
theorem Ends.unset_mem (h : Ends w start r) {name : Bytes} (hname : .unset name ∈ r.1) :
    .unset name ∈ start.preparations := by
  have hlogger : RunCall.unset name ≠ (start.identified w).logger := by simp [Start.logger]
  have hplan (hmem : RunCall.unset name ∈ start.plan w) : RunCall.unset name ∈ start.preparations := by
    simpa [Start.plan, hlogger, unset_notMem_configuration] using hmem
  cases h with
  | @unprepared before after k e hsplit hbefore hk =>
    apply hplan
    rw [Start.plan, hsplit]
    simp only [List.mem_append, List.mem_cons, List.not_mem_nil, or_false] at hname ⊢
    tauto
  | @unconfigured before after k e hsplit hbefore hk =>
    apply hplan
    rw [hsplit]
    simp only [List.mem_append, List.mem_cons, List.not_mem_nil, or_false, reduceCtorEq] at hname ⊢
    tauto
  | collected hall =>
    apply hplan
    cases hwarning : w.ending.warning <;> simpa [RunEnd.calls, hwarning] using hname

end Environment

/-- Whatever `run` calls past its preparations, it calls where nothing else can see the variables that
were rendered: each is unset and every upstream setting reads as its default, while no other variable
has changed. For a mounted configuration all of them stay. -/
theorem rendered_variables_hidden (go : Library) (w : World) (lookup : Lookup) (start : Start)
    (hread : (readAll go lookup).value = some start) (earlier later : List RunCall) (k : RunCall)
    (hcalls : ((run go w lookup).under w.fails).1 = earlier ++ k :: later) (hk : k ∉ start.preparations) :
    (∀ path logs, start = .mounted path logs → remaining lookup earlier = lookup) ∧
    ∀ s, start = .rendered s →
      (∀ name, remaining lookup earlier name = if name ∈ sdkVariables then none else lookup name) ∧
      ∀ x sig, value (remaining lookup earlier) x sig =
        { setting := x, name := x.baseName, raw := x.default } := by
  have hends := ends_run (w := w) hread
  have hunset {name : Bytes} (hname : .unset name ∈ earlier) : .unset name ∈ start.preparations := by
    apply hends.unset_mem
    rw [hcalls]
    exact List.mem_append_left _ hname
  constructor
  · rintro path logs rfl
    funext name
    rw [remaining, if_neg]
    intro hname
    cases hunset (mem_unsetBy.mp hname)
  · rintro s rfl
    have hfirst : (Start.rendered s).preparations <+: earlier := by
      obtain ⟨calls, hpreparations, hrun⟩ := hends.preparations_first
      rw [hcalls] at hrun
      exact first_before ⟨calls, hpreparations, hrun⟩ hk
    have hmem (name : Bytes) : name ∈ unsetBy earlier ↔ name ∈ sdkVariables := by
      rw [mem_unsetBy]
      constructor
      · intro hname
        simpa [Start.preparations] using hunset hname
      · intro hname
        exact hfirst.subset (List.mem_cons_of_mem _ (List.mem_map_of_mem hname))
    have hremaining (name : Bytes) :
        remaining lookup earlier name = if name ∈ sdkVariables then none else lookup name := by
      simp only [remaining, hmem]
    refine ⟨hremaining, fun x sig ↦ value_of_unset ?_ x sig⟩
    intro name hname
    rw [hremaining, if_pos hname]

def calmWorld : World where
  version := "dev"
  path := "/tmp/otlp-collector-oidc.yaml"
  instanceID := "a"
  state := .closed
  fails := fun _ ↦ none
  logs := fun _ ↦ rfl

theorem slash_headers_hidden :
    ∃ earlier later, ((run exampleLibrary calmWorld slashLookup).under calmWorld.fails).1 = earlier ++
      .collect :: later ∧ slashLookup (ofString "OTEL_EXPORTER_OTLP_HEADERS") = some "authorization=a" ∧
      remaining slashLookup earlier (ofString "OTEL_EXPORTER_OTLP_HEADERS") = none ∧
      remaining slashLookup earlier (ofString "OIDC_AUDIENCE") = some "collector" := by
  obtain ⟨start, hread, hrendered⟩ := Option.map_eq_some_iff.mp (by decide +kernel :
    (readAll exampleLibrary slashLookup).value.map (fun start ↦ start.own.isSome) = some true)
  obtain ⟨s, hs⟩ := Option.isSome_iff_exists.mp hrendered
  cases start with
  | mounted path logs => cases hs
  | rendered s' =>
    have hcalls : ((run exampleLibrary calmWorld slashLookup).under calmWorld.fails).1 =
        Start.plan calmWorld (.rendered s') ++ .collect :: [.stop] := by
      have hends := ends_run (w := calmWorld) hread
      generalize (run exampleLibrary calmWorld slashLookup).under calmWorld.fails = r at hends
      cases hends with
      | unprepared hsplit hbefore hk => cases hk
      | unconfigured hsplit hbefore hk => cases hk
      | collected hall => simp [RunEnd.calls, World.ending, calmWorld, runEnd]
    have hhidden := ((rendered_variables_hidden exampleLibrary calmWorld slashLookup _ hread _ _ _ hcalls
      (by simp [Start.preparations])).2 s' rfl).1
    refine ⟨_, _, hcalls, by decide +kernel, ?_, ?_⟩
    · rw [hhidden, if_pos (by decide +kernel)]
    · rw [hhidden, if_neg (by decide +kernel)]
      decide +kernel

end OtlpCollectorOidc.Render

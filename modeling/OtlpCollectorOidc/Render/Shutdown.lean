import OtlpCollectorOidc.Lib.ErrorTree

namespace OtlpCollectorOidc.Render

open Text ErrorTree Relation

def loggerFailed : Bytes := "failed to shutdown logger: "

def serviceFailed : Bytes := "failed to shutdown service after error: "

mutual

def onlyLoggerShutdown : ErrorTree → Bool
  | .join _ errs => eachLoggerShutdown errs && 0 < errs.length
  -- with the service's mark, errors.Unwrap gives nil here
  | .leaf text => loggerFailed.isPrefixOf text
  | .wrap text inner =>
    if loggerFailed.isPrefixOf text then true
    else if serviceFailed.isPrefixOf text then onlyLoggerShutdown inner
    else false

def eachLoggerShutdown : List ErrorTree → Bool
  | [] => true
  | e :: errs => if onlyLoggerShutdown e then eachLoggerShutdown errs else false

end

/-- `otelcol.State`. -/
inductive CollectorState where
  | starting
  | running
  | closing
  | closed
  deriving DecidableEq

def ownLogsUndelivered (state : CollectorState) (err : ErrorTree) : Bool :=
  state = .closed && onlyLoggerShutdown err

/-- What the run command ends with: the line it warns with on stderr, and the error it returns. -/
structure RunEnd where
  warning : Option (Bytes × ErrorTree)
  returned : Option ErrorTree

def runEnd (state : CollectorState) : Option ErrorTree → RunEnd
  | none => ⟨none, none⟩
  | some err =>
    if ownLogsUndelivered state err then
      ⟨some ("Own logs not delivered at shutdown: the logs upstream is unreachable", err), none⟩
    else ⟨none, some (.wrap (ofString "running the collector: " ++ err.text) err)⟩

def RunEnd.exitCode (e : RunEnd) : ℕ := if e.returned.isSome then 1 else 0

/-- One level of the walk: into a join, and into a wrap that the service's shutdown marks. -/
inductive WalkStep : ErrorTree → ErrorTree → Prop
  | join {text : Bytes} {errs : List ErrorTree} {e : ErrorTree} (he : e ∈ errs) : WalkStep (.join text errs) e
  | wrap {text : Bytes} {inner : ErrorTree} (h : serviceFailed <+: text) : WalkStep (.wrap text inner) inner

/-- The walk from an error meets another. -/
def Meets (root e : ErrorTree) : Prop := ReflTransGen WalkStep root e

def WalkStops (e : ErrorTree) : Prop := ∀ e', ¬ WalkStep e e'

theorem wellFounded_walkStep : WellFounded (flip WalkStep) := by
  refine Subrelation.wf ?_ wellFounded_unwraps
  intro e' e h
  cases h with
  | join he => exact .join _ he
  | wrap h => exact .wrap _ _

theorem walkStops_leaf (text : Bytes) : WalkStops (.leaf text) := by
  intro e' h
  cases h

theorem walkStops_wrap_iff {text : Bytes} {inner : ErrorTree} :
    WalkStops (.wrap text inner) ↔ ¬ serviceFailed <+: text := by
  constructor
  · intro hstop h
    exact hstop inner (.wrap h)
  · intro hno e' h
    cases h with
    | wrap h => exact hno h

theorem eachLoggerShutdown_iff {errs : List ErrorTree} :
    eachLoggerShutdown errs = true ↔ ∀ e ∈ errs, onlyLoggerShutdown e = true := by
  induction errs with
  | nil => simp [eachLoggerShutdown]
  | cons e errs ih => simp [eachLoggerShutdown, ih]

/-- No text has both marks. -/
theorem not_loggerFailed {text : Bytes} (h : serviceFailed <+: text) : ¬ loggerFailed <+: text := by
  intro hlogger
  rcases List.prefix_or_prefix_of_prefix hlogger h with h | h
  · exact absurd h (by decide)
  · exact absurd h (by decide)

/-- What each error of the walk must be. -/
def LoggerOnly (e : ErrorTree) : Prop := (WalkStops e → loggerFailed <+: e.text) ∧ ∀ text, e ≠ .join text []

theorem onlyLoggerShutdown_wrap_iff {text : Bytes} {inner : ErrorTree} :
    onlyLoggerShutdown (.wrap text inner) = true ↔
      loggerFailed <+: text ∨ serviceFailed <+: text ∧ onlyLoggerShutdown inner = true := by
  rw [onlyLoggerShutdown]
  split_ifs with hl hs
  · simp [List.isPrefixOf_iff_prefix.mp hl]
  · rw [List.isPrefixOf_iff_prefix] at hl hs
    simp [hl, hs]
  · rw [List.isPrefixOf_iff_prefix] at hl hs
    simp [hl, hs]

/-- The function at an error, by what it is there and what it is one level down. -/
theorem onlyLoggerShutdown_iff_step (e : ErrorTree) :
    onlyLoggerShutdown e = true ↔ LoggerOnly e ∧ ∀ e', WalkStep e e' → onlyLoggerShutdown e' = true := by
  cases e with
  | leaf text =>
    rw [onlyLoggerShutdown, List.isPrefixOf_iff_prefix]
    constructor
    · intro h
      exact ⟨⟨fun _ ↦ h, nofun⟩, nofun⟩
    · intro h
      exact h.1.1 (walkStops_leaf text)
  | wrap text inner =>
    rw [onlyLoggerShutdown_wrap_iff]
    by_cases hs : serviceFailed <+: text
    · have hl := not_loggerFailed hs
      constructor
      · rintro (h | h)
        · exact absurd h hl
        · refine ⟨⟨fun hstop ↦ absurd hs (walkStops_wrap_iff.mp hstop), nofun⟩, ?_⟩
          intro e' hstep
          cases hstep
          exact h.2
      · intro h
        exact Or.inr ⟨hs, h.2 inner (.wrap hs)⟩
    · constructor
      · rintro (h | h)
        · exact ⟨⟨fun _ ↦ h, nofun⟩, fun e' hstep ↦ absurd hstep (walkStops_wrap_iff.mpr hs e')⟩
        · exact absurd h.1 hs
      · intro h
        exact Or.inl (h.1.1 (walkStops_wrap_iff.mpr hs))
  | join text errs =>
    rw [onlyLoggerShutdown, Bool.and_eq_true, eachLoggerShutdown_iff, decide_eq_true_eq]
    constructor
    · rintro ⟨hall, hpos⟩
      obtain ⟨e, errs', rfl⟩ := List.exists_cons_of_length_pos hpos
      refine ⟨⟨fun hstop ↦ absurd (.join List.mem_cons_self) (hstop e), nofun⟩, ?_⟩
      intro e' hstep
      cases hstep with
      | join he => exact hall e' he
    · rintro ⟨⟨-, hne⟩, hstep⟩
      refine ⟨fun e he ↦ hstep e (.join he), ?_⟩
      apply List.length_pos_of_ne_nil
      rintro rfl
      exact hne text rfl

theorem onlyLoggerShutdown_iff_walk (root : ErrorTree) :
    onlyLoggerShutdown root = true ↔ ∀ e, Meets root e → LoggerOnly e :=
  iff_forall_reachable wellFounded_walkStep onlyLoggerShutdown_iff_step root

theorem exitCode_runEnd_iff (state : CollectorState) (err : ErrorTree) :
    (runEnd state (some err)).exitCode = 0 ↔ state = .closed ∧ onlyLoggerShutdown err = true := by
  have hundelivered : ownLogsUndelivered state err = true ↔ state = .closed ∧
      onlyLoggerShutdown err = true := by
    rw [ownLogsUndelivered, Bool.and_eq_true, decide_eq_true_eq]
  rw [← hundelivered, runEnd]
  split_ifs with h
  · simp [RunEnd.exitCode, h]
  · simp [RunEnd.exitCode, h]

/-- A shutdown passes for clean exactly when the logger is all that failed: the walk through joins and
the service's wraps ends in the logger's failures only and meets no empty join. Any other failure on it
makes the run fail. -/
theorem clean_exit_iff (root : ErrorTree) :
    (onlyLoggerShutdown root = true ↔ (∀ e, Meets root e → WalkStops e → loggerFailed <+: e.text) ∧
      ∀ text errs, Meets root (.join text errs) → errs ≠ []) ∧
    (∀ e, Meets root e → WalkStops e → ¬ loggerFailed <+: e.text →
      onlyLoggerShutdown root = false ∧ ∀ state, (runEnd state (some root)).exitCode = 1) ∧
    ∀ state, (runEnd state (some root)).exitCode = 0 ↔ state = .closed ∧ onlyLoggerShutdown root = true := by
  refine ⟨?_, ?_, fun state ↦ exitCode_runEnd_iff state root⟩
  · rw [onlyLoggerShutdown_iff_walk]
    constructor
    · intro h
      refine ⟨fun e he ↦ (h e he).1, ?_⟩
      rintro text errs he rfl
      exact (h _ he).2 text rfl
    · rintro ⟨hstop, hjoin⟩ e he
      refine ⟨hstop e he, ?_⟩
      rintro text rfl
      exact hjoin text [] he rfl
  · intro e he hstop hother
    have hfalse : onlyLoggerShutdown root = false := by
      apply Bool.eq_false_iff.mpr
      intro h
      exact hother (((onlyLoggerShutdown_iff_walk root).mp h e he).1 hstop)
    refine ⟨hfalse, ?_⟩
    intro state
    have hreturned : ownLogsUndelivered state root = false := by
      rw [ownLogsUndelivered, hfalse, Bool.and_false]
    simp [runEnd, hreturned, RunEnd.exitCode]

def mixedFailure : ErrorTree :=
  .join "" [.wrap "failed to shutdown service after error: logger; exporter"
    (.join "" [.leaf "failed to shutdown logger: refused", .leaf "failed to shutdown pipelines: timeout"])]

theorem mixedFailure_not_clean : Meets mixedFailure (.leaf "failed to shutdown pipelines: timeout") ∧
    onlyLoggerShutdown mixedFailure = false ∧ (runEnd .closed (some mixedFailure)).exitCode = 1 := by
  have hmeets : Meets mixedFailure (.leaf "failed to shutdown pipelines: timeout") :=
    .head (.join List.mem_cons_self) (.head (.wrap (by decide)) (.single (.join (by simp))))
  have hfalse := (clean_exit_iff mixedFailure).2.1 _ hmeets (walkStops_leaf _) (by decide)
  exact ⟨hmeets, hfalse.1, hfalse.2 .closed⟩

end OtlpCollectorOidc.Render

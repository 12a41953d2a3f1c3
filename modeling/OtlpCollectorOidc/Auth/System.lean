import OtlpCollectorOidc.Lib.Transition
import OtlpCollectorOidc.Auth.KeySet

namespace OtlpCollectorOidc.Auth

open Text Number Transition

abbrev CallId := ℕ

/-- A JWKS request under way: the instant it began and, once the provider has
answered, the instant it read its keys and the answer. -/
structure Fetch where
  began : ℕ
  answered : Option (ℕ × Answer) := none
  deriving DecidableEq

/-- A fetch that succeeded, with the keys `fetch` makes of its answer. -/
structure Load (jose : Jose) where
  began : ℕ
  readAt : ℕ
  answer : Answer
  keys : JWKS
  fetched : fetch jose answer = .ok keys
  deriving DecidableEq

/-- A call of `VerifySignature`, by where it stands in the code. -/
inductive Call (jose : Jose) where
  | idle
  | called (h : Header)
  | missed (h : Header) (generation : ℕ)
  | locked (h : Header) (generation : ℕ)
  | marking (h : Header) (now : Time)
  | marked (h : Header)
  | fetching (h : Header) (f : Fetch)
  | storing (h : Header) (p : Load jose)
  | looking (h : Header)
  | returning (h : Header) (key : Option JSONWebKey)
  | done (h : Header) (key : Option JSONWebKey)
  deriving DecidableEq

/-- The goroutine of `provider.run`: discovery and the first load, then `keepFresh`. -/
inductive Provider (jose : Jose) where
  | discovering
  | loading (f : Fetch)
  | retrying
  | loaded (k : KeySet)
  | sleeping
  | refreshing (f : Fetch)
  | storing (p : Load jose)
  | stopped

/-- The authenticator's key set and all that touches it. `instant` counts the
steps taken; `stores` and `missStarts` are a history, newest first, that no
step reads: what was stored, and the starting times recorded for unknown kids. -/
structure State (jose : Jose) where
  clock : Time
  instant : ℕ
  published : Answer
  provider : Provider jose
  cache : Option KeySet
  refreshing : Option CallId
  calls : CallId → Call jose
  stores : List (Load jose)
  missStarts : List Time

inductive CallAct where
  | call (h : Header)
  | advance
  | read
  | finish (ok : Bool)

inductive ProviderAct where
  | discover (ok : Bool)
  | advance
  | read
  | finish (ok : Bool)
  | stop

/-- What can happen: time passes, the provider publishes other keys, or one
party takes a step. -/
inductive Act where
  | tick (d : ℕ)
  | publish (a : Answer)
  | provider (a : ProviderAct)
  | call (i : CallId) (a : CallAct)

inductive Effect (jose : Jose) where
  | none
  | acquire (i : CallId)
  | release
  | mark (now : Time)
  | load (p : Load jose)
  | publish (k : KeySet)
  | store (p : Load jose)

section Steps

variable {jose : Jose}

/-- How a fetch ends: with what `fetch` makes of the answer, or broken off
where it stands, by a timeout or a cancelled request. -/
def Fetch.outcome (f : Fetch) : Bool → Option (Except FetchError (Load jose))
  | false => some (.error .request)
  | true => f.answered.map (fun p ↦
      match h : fetch jose p.2 with
      | .ok keys => .ok ⟨f.began, p.1, p.2, keys, h⟩
      | .error e => .error e)

def State.newFetch (s : State jose) : Fetch := { began := s.instant }

def State.answer (s : State jose) (f : Fetch) : Fetch := { f with answered := some (s.instant, s.published) }

def callStep (s : State jose) (i : CallId) : Call jose → CallAct → Option (Call jose × Effect jose)
  | .idle, .call h => if s.cache.isSome then some (.called h, .none) else none
  | .called h, .advance => s.cache.map (fun k ↦
      match k.lookup h.keyID h.algorithm with
      | (some key, _) => (.done h (some key), .none)
      | (none, g) => (.missed h g, .none))
  | .missed h g, .advance => if s.refreshing.isNone then some (.locked h g, .acquire i) else none
  | .locked h g, .advance => s.cache.map (fun k ↦
      if k.stale s.clock g then (.marking h s.clock, .none) else (.looking h, .none))
  | .marking h now, .advance => some (.marked h, .mark now)
  | .marked h, .advance => some (.fetching h s.newFetch, .none)
  | .fetching h f, .read => if f.answered.isNone then some (.fetching h (s.answer f), .none) else none
  | .fetching h f, .finish ok => (f.outcome ok).map (fun r ↦
      match r with
      | .error _ => (.returning h none, .none)
      | .ok p => (.storing h p, .none))
  | .storing h p, .advance => some (.looking h, .store p)
  | .looking h, .advance => s.cache.map (fun k ↦ (.returning h (k.lookup h.keyID h.algorithm).1, .none))
  | .returning h key, .advance => some (.done h key, .release)
  | _, _ => none

def providerStep (s : State jose) : Provider jose → ProviderAct → Option (Provider jose × Effect jose)
  | .discovering, .discover ok => some (if ok then (.loading s.newFetch, .none) else (.retrying, .none))
  | .loading f, .read => if f.answered.isNone then some (.loading (s.answer f), .none) else none
  | .loading f, .finish ok => (f.outcome ok).map (fun r ↦
      match r with
      | .error _ => (.retrying, .none)
      | .ok p => (.loaded (newKeySet p.keys), .load p))
  | .retrying, .advance => some (.discovering, .none)
  | .loaded k, .advance => some (.sleeping, .publish k)
  | .sleeping, .advance => some (.refreshing s.newFetch, .none)
  | .refreshing f, .read => if f.answered.isNone then some (.refreshing (s.answer f), .none) else none
  | .refreshing f, .finish ok => (f.outcome ok).map (fun r ↦
      match r with
      | .error _ => (.sleeping, .none)
      | .ok p => (.storing p, .none))
  | .storing p, .advance => some (.sleeping, .store p)
  | .retrying, .stop | .sleeping, .stop => some (.stopped, .none)
  | _, _ => none

def State.apply (s : State jose) : Effect jose → State jose
  | .none => s
  | .acquire i => { s with refreshing := some i }
  | .release => { s with refreshing := none }
  | .mark now => { s with cache := s.cache.map (·.mark now), missStarts := now :: s.missStarts }
  | .load p => { s with stores := p :: s.stores }
  | .publish k => { s with cache := some k }
  | .store p => { s with cache := s.cache.map (·.store p.keys), stores := p :: s.stores }

def State.moveCall (s : State jose) (i : CallId) (c : Call jose) (e : Effect jose) : State jose :=
  { s.apply e with calls := Function.update s.calls i c, instant := s.instant + 1 }

def State.moveProvider (s : State jose) (q : Provider jose) (e : Effect jose) : State jose :=
  { s.apply e with provider := q, instant := s.instant + 1 }

def step (s : State jose) : Act → Option (State jose)
  | .tick d => some { s with clock := s.clock + d, instant := s.instant + 1 }
  | .publish a => some { s with published := a, instant := s.instant + 1 }
  | .provider a => (providerStep s s.provider a).map (fun r ↦ s.moveProvider r.1 r.2)
  | .call i a => (callStep s i (s.calls i) a).map (fun r ↦ s.moveCall i r.1 r.2)

def State.outcome (s : State jose) : Act → Option (Except FetchError (Load jose))
  | .call i (.finish ok) =>
    match s.calls i with
    | .fetching _ f => f.outcome ok
    | _ => none
  | .provider (.finish ok) =>
    match s.provider with
    | .loading f | .refreshing f => f.outcome ok
    | _ => none
  | _ => none

end Steps

def initial (jose : Jose) (clock : Time) (published : Answer) : State jose where
  clock := clock
  instant := 0
  published := published
  provider := .discovering
  cache := none
  refreshing := none
  calls _ := .idle
  stores := []
  missStarts := []

def Reachable {jose : Jose} (s : State jose) : Prop :=
  ∃ clock published as, run step (initial jose clock published) as = some s

section Inversion

variable {jose : Jose}

inductive CallStep (s : State jose) (i : CallId) :
    Call jose → CallAct → Call jose → Effect jose → Prop where
  | call {h : Header} : s.cache.isSome = true → CallStep s i .idle (.call h) (.called h) .none
  | hit {h : Header} {k : KeySet} {key : JSONWebKey} : s.cache = some k →
      findKey k.keys.keys h.keyID h.algorithm = some key →
      CallStep s i (.called h) .advance (.done h (some key)) .none
  | miss {h : Header} {k : KeySet} : s.cache = some k →
      findKey k.keys.keys h.keyID h.algorithm = none →
      CallStep s i (.called h) .advance (.missed h k.generation) .none
  | acquire {h : Header} {g : ℕ} : s.refreshing = none →
      CallStep s i (.missed h g) .advance (.locked h g) (.acquire i)
  | stale {h : Header} {g : ℕ} {k : KeySet} : s.cache = some k → k.stale s.clock g = true →
      CallStep s i (.locked h g) .advance (.marking h s.clock) .none
  | fresh {h : Header} {g : ℕ} {k : KeySet} : s.cache = some k → k.stale s.clock g = false →
      CallStep s i (.locked h g) .advance (.looking h) .none
  | mark {h : Header} {now : Time} : CallStep s i (.marking h now) .advance (.marked h) (.mark now)
  | start {h : Header} : CallStep s i (.marked h) .advance (.fetching h s.newFetch) .none
  | read {h : Header} {f : Fetch} : f.answered = none →
      CallStep s i (.fetching h f) .read (.fetching h (s.answer f)) .none
  | failed {h : Header} {f : Fetch} {ok : Bool} {e : FetchError} :
      (f.outcome ok : Option (Except FetchError (Load jose))) = some (.error e) →
      CallStep s i (.fetching h f) (.finish ok) (.returning h none) .none
  | loaded {h : Header} {f : Fetch} {ok : Bool} {p : Load jose} : f.outcome ok = some (.ok p) →
      CallStep s i (.fetching h f) (.finish ok) (.storing h p) .none
  | store {h : Header} {p : Load jose} : CallStep s i (.storing h p) .advance (.looking h) (.store p)
  | look {h : Header} {k : KeySet} : s.cache = some k →
      CallStep s i (.looking h) .advance (.returning h (findKey k.keys.keys h.keyID h.algorithm)) .none
  | release {h : Header} {key : Option JSONWebKey} :
      CallStep s i (.returning h key) .advance (.done h key) .release

inductive ProviderStep (s : State jose) :
    Provider jose → ProviderAct → Provider jose → Effect jose → Prop where
  | discovered : ProviderStep s .discovering (.discover true) (.loading s.newFetch) .none
  | undiscovered : ProviderStep s .discovering (.discover false) .retrying .none
  | readFirst {f : Fetch} : f.answered = none →
      ProviderStep s (.loading f) .read (.loading (s.answer f)) .none
  | failedFirst {f : Fetch} {ok : Bool} {e : FetchError} :
      (f.outcome ok : Option (Except FetchError (Load jose))) = some (.error e) →
      ProviderStep s (.loading f) (.finish ok) .retrying .none
  | loadedFirst {f : Fetch} {ok : Bool} {p : Load jose} : f.outcome ok = some (.ok p) →
      ProviderStep s (.loading f) (.finish ok) (.loaded (newKeySet p.keys)) (.load p)
  | retry : ProviderStep s .retrying .advance .discovering .none
  | ready {k : KeySet} : ProviderStep s (.loaded k) .advance .sleeping (.publish k)
  | wake : ProviderStep s .sleeping .advance (.refreshing s.newFetch) .none
  | read {f : Fetch} : f.answered = none →
      ProviderStep s (.refreshing f) .read (.refreshing (s.answer f)) .none
  | failed {f : Fetch} {ok : Bool} {e : FetchError} :
      (f.outcome ok : Option (Except FetchError (Load jose))) = some (.error e) →
      ProviderStep s (.refreshing f) (.finish ok) .sleeping .none
  | loaded {f : Fetch} {ok : Bool} {p : Load jose} : f.outcome ok = some (.ok p) →
      ProviderStep s (.refreshing f) (.finish ok) (.storing p) .none
  | store {p : Load jose} : ProviderStep s (.storing p) .advance .sleeping (.store p)
  | stopRetrying : ProviderStep s .retrying .stop .stopped .none
  | stopSleeping : ProviderStep s .sleeping .stop .stopped .none

inductive Step (s : State jose) : Act → State jose → Prop where
  | tick (d : ℕ) : Step s (.tick d) { s with clock := s.clock + d, instant := s.instant + 1 }
  | publish (a : Answer) : Step s (.publish a) { s with published := a, instant := s.instant + 1 }
  | provider {b : ProviderAct} {q : Provider jose} {e : Effect jose} : ProviderStep s s.provider b q e →
      Step s (.provider b) (s.moveProvider q e)
  | call {i : CallId} {b : CallAct} {c : Call jose} {e : Effect jose} : CallStep s i (s.calls i) b c e →
      Step s (.call i b) (s.moveCall i c e)

variable {s t : State jose} {i : CallId} {a : Act}

theorem callStep_inv {c c' : Call jose} {b : CallAct} {e : Effect jose}
    (h : callStep s i c b = some (c', e)) : CallStep s i c b c' e := by
  unfold callStep at h
  split at h
  · split_ifs at h with hs
    cases h
    exact .call hs
  · rename_i hd
    obtain ⟨k, hk, hr⟩ := Option.map_eq_some_iff.mp h
    simp only [KeySet.lookup] at hr
    cases hf : findKey k.keys.keys hd.keyID hd.algorithm with
    | none =>
      rw [hf] at hr
      cases hr
      exact .miss hk hf
    | some key =>
      rw [hf] at hr
      cases hr
      exact .hit hk hf
  · split_ifs at h with hs
    cases h
    exact .acquire (Option.isNone_iff_eq_none.mp hs)
  · obtain ⟨k, hk, hr⟩ := Option.map_eq_some_iff.mp h
    split_ifs at hr with hs
    · cases hr
      exact .stale hk hs
    · cases hr
      exact .fresh hk (Bool.eq_false_iff.mpr hs)
  · cases h
    exact .mark
  · cases h
    exact .start
  · split_ifs at h with hs
    cases h
    exact .read (Option.isNone_iff_eq_none.mp hs)
  · obtain ⟨r, ho, hr⟩ := Option.map_eq_some_iff.mp h
    cases r with
    | error e =>
      cases hr
      exact .failed ho
    | ok p =>
      cases hr
      exact .loaded ho
  · cases h
    exact .store
  · obtain ⟨k, hk, hr⟩ := Option.map_eq_some_iff.mp h
    cases hr
    exact .look hk
  · cases h
    exact .release
  · cases h

theorem providerStep_inv {q q' : Provider jose} {b : ProviderAct} {e : Effect jose}
    (h : providerStep s q b = some (q', e)) : ProviderStep s q b q' e := by
  unfold providerStep at h
  split at h
  · split_ifs at h with hs
    · cases h
      rw [hs]
      exact .discovered
    · cases h
      rw [Bool.eq_false_iff.mpr hs]
      exact .undiscovered
  · split_ifs at h with hs
    cases h
    exact .readFirst (Option.isNone_iff_eq_none.mp hs)
  · obtain ⟨r, ho, hr⟩ := Option.map_eq_some_iff.mp h
    cases r with
    | error e =>
      cases hr
      exact .failedFirst ho
    | ok p =>
      cases hr
      exact .loadedFirst ho
  · cases h
    exact .retry
  · cases h
    exact .ready
  · cases h
    exact .wake
  · split_ifs at h with hs
    cases h
    exact .read (Option.isNone_iff_eq_none.mp hs)
  · obtain ⟨r, ho, hr⟩ := Option.map_eq_some_iff.mp h
    cases r with
    | error e =>
      cases hr
      exact .failed ho
    | ok p =>
      cases hr
      exact .loaded ho
  · cases h
    exact .store
  · cases h
    exact .stopRetrying
  · cases h
    exact .stopSleeping
  · cases h

theorem step_inv (h : step s a = some t) : Step s a t := by
  cases a with
  | tick d =>
    cases h
    exact .tick d
  | publish x =>
    cases h
    exact .publish x
  | provider b =>
    obtain ⟨⟨q, e⟩, hq, rfl⟩ := Option.map_eq_some_iff.mp h
    exact .provider (providerStep_inv hq)
  | call i b =>
    obtain ⟨⟨c, e⟩, hc, rfl⟩ := Option.map_eq_some_iff.mp h
    exact .call (callStep_inv hc)

end Inversion

section Fields

variable {jose : Jose} (s : State jose) (e : Effect jose) (i : CallId) (c : Call jose) (q : Provider jose)

theorem State.apply_clock : (s.apply e).clock = s.clock := by cases e <;> rfl

@[simp] theorem State.moveCall_clock : (s.moveCall i c e).clock = s.clock := s.apply_clock e

@[simp] theorem State.moveCall_provider : (s.moveCall i c e).provider = s.provider := by cases e <;> rfl

theorem State.moveCall_published : (s.moveCall i c e).published = s.published := by cases e <;> rfl

@[simp] theorem State.moveCall_self : (s.moveCall i c e).calls i = c := Function.update_self ..

theorem State.moveCall_ne {i j : CallId} (h : j ≠ i) : (s.moveCall i c e).calls j = s.calls j :=
  Function.update_of_ne h ..

@[simp] theorem State.moveProvider_clock : (s.moveProvider q e).clock = s.clock := s.apply_clock e

@[simp] theorem State.moveProvider_provider : (s.moveProvider q e).provider = q := rfl

theorem State.moveProvider_published : (s.moveProvider q e).published = s.published := by cases e <;> rfl

@[simp] theorem State.moveProvider_calls : (s.moveProvider q e).calls = s.calls := by cases e <;> rfl

theorem State.outcome_call {s : State jose} {i : CallId} {h : Header} {f : Fetch} {ok : Bool}
    (hc : s.calls i = .fetching h f) :
    s.outcome (.call i (.finish ok)) = f.outcome ok := by
  rw [State.outcome, hc]

theorem State.outcome_refreshing {s : State jose} {f : Fetch} {ok : Bool} (hq : s.provider = .refreshing f) :
    s.outcome (.provider (.finish ok)) = f.outcome ok := by
  rw [State.outcome, hq]

end Fields

def Call.holds {jose : Jose} : Call jose → Bool
  | .locked .. | .marking .. | .marked .. | .fetching .. | .storing .. | .looking .. | .returning .. => true
  | _ => false

def Provider.loads {jose : Jose} : Provider jose → Bool
  | .discovering | .loading _ | .retrying => true
  | _ => false

def Provider.refreshes {jose : Jose} : Provider jose → Bool
  | .sleeping | .refreshing _ | .storing _ => true
  | _ => false

structure Consistent {jose : Jose} (k : KeySet) (stores : List (Load jose)) (starts : List Time) : Prop where
  generation : k.generation = stores.length
  keys : ∃ p rest, stores = p :: rest ∧ k.keys = p.keys
  missFetched : k.missFetched = starts.head?.getD zeroTime

theorem Consistent.mark {jose : Jose} {k : KeySet} {stores : List (Load jose)} {starts : List Time}
    (h : Consistent k stores starts) (now : Time) : Consistent (k.mark now) stores (now :: starts) :=
  ⟨h.generation, h.keys, rfl⟩

theorem Consistent.store {jose : Jose} {k : KeySet} {stores : List (Load jose)} {starts : List Time}
    (h : Consistent k stores starts) (p : Load jose) : Consistent (k.store p.keys) (p :: stores) starts where
  generation := congrArg (· + 1) h.generation
  keys := ⟨p, stores, rfl, rfl⟩
  missFetched := h.missFetched

structure Inv {jose : Jose} (s : State jose) : Prop where
  mutex : ∀ i, (s.calls i).holds = true → s.refreshing = some i
  cached : ∀ k, s.cache = some k → Consistent k s.stores s.missStarts
  loads : s.provider.loads = true → s.cache = none ∧ s.stores = [] ∧ s.missStarts = []
  loaded : ∀ k, s.provider = .loaded k → s.cache = none ∧ Consistent k s.stores s.missStarts
  refreshes : s.provider.refreshes = true → s.cache.isSome = true
  active : ∀ i, s.calls i ≠ .idle → s.cache.isSome = true

theorem inv_initial (jose : Jose) (clock : Time) (published : Answer) :
    Inv (initial jose clock published) where
  mutex _ h := nomatch h
  cached _ h := nomatch h
  loads _ := ⟨rfl, rfl, rfl⟩
  loaded _ h := nomatch h
  refreshes h := nomatch h
  active _ h := absurd rfl h

section Invariant

variable {jose : Jose} {s t : State jose}

theorem mutex_call (hs : ∀ i, (s.calls i).holds = true → s.refreshing = some i) {i : CallId} {b : CallAct}
    {c : Call jose} {e : Effect jose} (h : CallStep s i (s.calls i) b c e) (j : CallId)
    (hj : ((s.moveCall i c e).calls j).holds = true) : (s.moveCall i c e).refreshing = some j := by
  have hi := hs i
  by_cases hji : j = i
  · subst hji
    rw [State.moveCall_self] at hj
    generalize s.calls j = c₀ at h hi
    cases h with
    | acquire => rfl
    | call | hit | miss | release => cases hj
    | stale | fresh | mark | start | read | failed | loaded | store | look => exact hi rfl
  · rw [State.moveCall_ne _ _ _ hji] at hj
    have hj' := hs j hj
    generalize s.calls i = c₀ at h hi
    cases h with
    | acquire hfree => cases hj'.symm.trans hfree
    | release =>
      have hij : some j = some i := hj'.symm.trans (hi rfl)
      exact absurd (Option.some.inj hij) hji
    | call | hit | miss | stale | fresh | mark | start | read | failed | loaded | store | look => exact hj'

/-- A call finds the key set published. -/
theorem CallStep.ready (hs : Inv s) {i : CallId} {b : CallAct} {c : Call jose} {e : Effect jose}
    (h : CallStep s i (s.calls i) b c e) : s.cache.isSome = true := by
  by_cases hi : s.calls i = .idle
  · rw [hi] at h
    cases h with
    | call hc => exact hc
  · exact hs.active i hi

theorem CallStep.effect_cases {i : CallId} {c₀ c : Call jose} {b : CallAct} {e : Effect jose}
    (h : CallStep s i c₀ b c e) :
    (∀ p, e ≠ .load p) ∧ ∀ k, e ≠ .publish k := by
  cases h <;> exact ⟨fun _ he ↦ (nomatch he), fun _ he ↦ (nomatch he)⟩

theorem consistent_apply (hs : ∀ k, s.cache = some k → Consistent k s.stores s.missStarts) {e : Effect jose}
    (he : ∀ p, e ≠ .load p) (he' : ∀ k, e ≠ .publish k) (k : KeySet) (hk : (s.apply e).cache = some k) :
    Consistent k (s.apply e).stores (s.apply e).missStarts := by
  cases e with
  | none => exact hs k hk
  | acquire i => exact hs k hk
  | release => exact hs k hk
  | mark now =>
    obtain ⟨k₀, hk₀, rfl⟩ := Option.map_eq_some_iff.mp hk
    exact (hs k₀ hk₀).mark now
  | store p =>
    obtain ⟨k₀, hk₀, rfl⟩ := Option.map_eq_some_iff.mp hk
    exact (hs k₀ hk₀).store p
  | load p => exact absurd rfl (he p)
  | publish k => exact absurd rfl (he' k)

theorem isSome_apply {e : Effect jose} (hs : s.cache.isSome = true) : (s.apply e).cache.isSome = true := by
  cases e with
  | publish k => rfl
  | mark now => simpa [State.apply] using hs
  | store p => simpa [State.apply] using hs
  | none | acquire | release | load => exact hs

theorem Inv.call (hs : Inv s) {i : CallId} {b : CallAct} {c : Call jose} {e : Effect jose}
    (h : CallStep s i (s.calls i) b c e) : Inv (s.moveCall i c e) where
  mutex := mutex_call hs.mutex h
  cached := consistent_apply hs.cached h.effect_cases.1 h.effect_cases.2
  loads hp := by
    rw [State.moveCall_provider] at hp
    have hr := h.ready hs
    rw [(hs.loads hp).1] at hr
    cases hr
  loaded k hp := by
    rw [State.moveCall_provider] at hp
    have hr := h.ready hs
    rw [(hs.loaded k hp).1] at hr
    cases hr
  refreshes _ := isSome_apply (h.ready hs)
  active _ _ := isSome_apply (h.ready hs)

theorem Inv.provider (hs : Inv s) {b : ProviderAct} {q : Provider jose} {e : Effect jose}
    (h : ProviderStep s s.provider b q e) : Inv (s.moveProvider q e) := by
  generalize hp : s.provider = q₀ at h
  cases h with
  | discovered | undiscovered | readFirst | failedFirst | retry =>
    have hl := hs.loads (by rw [hp]; rfl)
    exact ⟨hs.mutex, hs.cached, fun _ ↦ hl, fun _ h ↦ (nomatch h), fun h ↦ (nomatch h), hs.active⟩
  | wake | read | failed | loaded =>
    have hr := hs.refreshes (by rw [hp]; rfl)
    exact ⟨hs.mutex, hs.cached, fun h ↦ (nomatch h), fun _ h ↦ (nomatch h), fun _ ↦ hr, hs.active⟩
  | stopRetrying | stopSleeping =>
    exact ⟨hs.mutex, hs.cached, fun h ↦ (nomatch h), fun _ h ↦ (nomatch h), fun h ↦ (nomatch h), hs.active⟩
  | @loadedFirst f ok p ho =>
    obtain ⟨hc, hst, hm⟩ := hs.loads (by rw [hp]; rfl)
    refine ⟨hs.mutex, ?_, fun h ↦ (nomatch h), ?_, fun h ↦ (nomatch h), hs.active⟩
    · intro k hk
      cases hc.symm.trans hk
    · intro k hk
      cases hk
      refine ⟨hc, ?_, ⟨p, s.stores, rfl, rfl⟩, ?_⟩
      · change 1 = (p :: s.stores).length
        rw [hst]
        rfl
      · change zeroTime = s.missStarts.head?.getD zeroTime
        rw [hm]
        rfl
  | @ready k =>
    obtain ⟨hc, hk⟩ := hs.loaded k hp
    refine ⟨hs.mutex, ?_, fun h ↦ (nomatch h), fun _ h ↦ (nomatch h), fun _ ↦ rfl, fun _ _ ↦ rfl⟩
    intro k' hk'
    cases hk'
    exact hk
  | @store p =>
    have hr := hs.refreshes (by rw [hp]; rfl)
    exact ⟨hs.mutex, consistent_apply hs.cached (fun _ h ↦ (nomatch h)) (fun _ h ↦ (nomatch h)),
      fun h ↦ (nomatch h), fun _ h ↦ (nomatch h), fun _ ↦ isSome_apply hr, fun _ _ ↦ isSome_apply hr⟩

theorem Inv.step (s : State jose) (a : Act) (t : State jose) (hs : Inv s)
    (h : step s a = some t) : Inv t := by
  cases step_inv h with
  | tick d => exact ⟨hs.mutex, hs.cached, hs.loads, hs.loaded, hs.refreshes, hs.active⟩
  | publish x => exact ⟨hs.mutex, hs.cached, hs.loads, hs.loaded, hs.refreshes, hs.active⟩
  | provider hp => exact hs.provider hp
  | call hc => exact hs.call hc

theorem Reachable.inv (h : Reachable s) : Inv s := by
  obtain ⟨clock, published, as, hr⟩ := h
  exact invariant_run Inv.step (inv_initial jose clock published) hr

theorem Reachable.trans (h : Reachable s) {as : List Act} (hr : run Auth.step s as = some t) :
    Reachable t := by
  obtain ⟨clock, published, bs, hb⟩ := h
  exact ⟨clock, published, bs ++ as, run_trans hb hr⟩

/-- Only its own steps move a call. -/
theorem calls_run_of_ne {j : CallId} {as : List Act} (hne : ∀ a ∈ as, ∀ b, a ≠ .call j b)
    (hr : run Auth.step s as = some t) : t.calls j = s.calls j := by
  have hstep : ∀ (u : State jose) (a : Act) (v : State jose), u.calls j = s.calls j → (∀ b, a ≠ .call j b) →
      Auth.step u a = some v → v.calls j = s.calls j := by
    intro u a v hu ha hv
    cases step_inv hv with
    | tick | publish => exact hu
    | provider => rwa [State.moveProvider_calls]
    | @call i b c e hc =>
      have hji : j ≠ i := by
        intro hji
        exact ha b (by rw [hji])
      rwa [State.moveCall_ne _ _ _ hji]
  exact invariant_along hstep rfl (Along.of_mem hne s) hr

end Invariant

section Outcome

variable {jose : Jose} {f : Fetch}

theorem Fetch.outcome_answered {r : ℕ} {a : Answer} (hf : f.answered = some (r, a)) :
    (f.outcome true : Option (Except FetchError (Load jose))) =
      some (match h : fetch jose a with
        | .ok keys => .ok ⟨f.began, r, a, keys, h⟩
        | .error e => .error e) := by
  rw [Fetch.outcome, hf]
  rfl

theorem Fetch.outcome_error {r : ℕ} {a : Answer} {e : FetchError} (hf : f.answered = some (r, a))
    (h : fetch jose a = .error e) :
    (f.outcome true : Option (Except FetchError (Load jose))) = some (.error e) := by
  rw [Fetch.outcome_answered hf]
  split
  · rename_i hk
    cases hk.symm.trans h
  · rename_i hk
    cases hk.symm.trans h
    rfl

theorem Fetch.outcome_ok {r : ℕ} {a : Answer} {keys : JWKS} (hf : f.answered = some (r, a))
    (h : fetch jose a = .ok keys) : f.outcome true = some (.ok ⟨f.began, r, a, keys, h⟩) := by
  rw [Fetch.outcome_answered hf]
  split
  · rename_i hk
    cases hk.symm.trans h
    rfl
  · rename_i hk
    cases hk.symm.trans h

/-- A load is the answer its fetch was given. -/
theorem Fetch.outcome_load {ok : Bool} {p : Load jose} (h : f.outcome ok = some (.ok p)) :
    ok = true ∧ f.answered = some (p.readAt, p.answer) ∧ p.began = f.began := by
  cases ok with
  | false => cases h
  | true =>
    obtain ⟨⟨r, a⟩, hf, _⟩ := Option.map_eq_some_iff.mp h
    rw [Fetch.outcome_answered hf] at h
    split at h
    · cases h
      exact ⟨rfl, hf, rfl⟩
    · cases h

end Outcome

theorem CallStep.callStep_eq {jose : Jose} {s : State jose} {i : CallId} {c c' : Call jose} {b : CallAct}
    {e : Effect jose} (h : CallStep s i c b c' e) : callStep s i c b = some (c', e) := by
  cases h with
  | call hc => simp [callStep, hc]
  | hit hk hf => simp [callStep, hk, KeySet.lookup, hf]
  | miss hk hf => simp [callStep, hk, KeySet.lookup, hf]
  | acquire hl => simp [callStep, hl]
  | stale hk hs => simp [callStep, hk, hs]
  | fresh hk hs => simp [callStep, hk, hs]
  | mark => rfl
  | start => rfl
  | read hf => simp [callStep, hf]
  | failed ho => simp [callStep, ho]
  | loaded ho => simp [callStep, ho]
  | store => rfl
  | look hk => simp [callStep, hk, KeySet.lookup]
  | release => rfl

/-- A collector that starts while the provider publishes the key it will retire. -/
def exampleStart : State rotationJose := initial rotationJose 0 (.response 200 retiredBody true)

def firstLoad : List Act :=
  [.provider (.discover true), .provider .read, .provider (.finish true), .provider .advance]

def rotatedIn : Header := { keyID := "k1", algorithm := "ES256" }

def missing (i : CallId) : List Act :=
  [.call i (.call rotatedIn), .call i .advance, .call i .advance, .call i .advance, .call i .advance,
    .call i .advance]

end OtlpCollectorOidc.Auth

import OtlpCollectorOidc.Auth.Throttle

namespace OtlpCollectorOidc.Auth

open Text Number Transition

section Fetches

variable {jose : Jose} {s t : State jose} {f : Fetch} {a : Act}

def Load.fetch (p : Load jose) : Fetch := { began := p.began, answered := some (p.readAt, p.answer) }

def Call.fetch : Call jose → Option Fetch
  | .fetching _ f => some f
  | .storing _ p => some p.fetch
  | _ => none

def Provider.fetch : Provider jose → Option Fetch
  | .loading f | .refreshing f => some f
  | .storing p => some p.fetch
  | _ => none

def State.Underway (s : State jose) (f : Fetch) : Prop :=
  s.provider.fetch = some f ∨ ∃ i, (s.calls i).fetch = some f

def State.storing (s : State jose) : Act → Option (Load jose)
  | .provider .advance =>
    match s.provider with
    | .storing p => some p
    | _ => none
  | .call i .advance =>
    match s.calls i with
    | .storing _ p => some p
    | _ => none
  | _ => none

theorem Fetch.outcome_fetch {ok : Bool} {p : Load jose} (h : f.outcome ok = some (.ok p)) : p.fetch = f := by
  obtain ⟨_, ha, hb⟩ := Fetch.outcome_load h
  cases f with
  | mk began answered =>
    cases ha
    cases hb
    rfl

def State.Came (s : State jose) (f : Fetch) : Prop :=
  s.Underway f ∨ f = s.newFetch ∨ ∃ f₀, s.Underway f₀ ∧ f = s.answer f₀

theorem CallStep.fetch_came {i : CallId} {b : CallAct} {c : Call jose} {e : Effect jose}
    (h : CallStep s i (s.calls i) b c e) (hf : c.fetch = some f) : s.Came f := by
  generalize hc : s.calls i = c₀ at h
  have hi : ∀ f₀, c₀.fetch = some f₀ → s.Underway f₀ := by
    intro f₀ hf₀
    rw [← hc] at hf₀
    exact .inr ⟨i, hf₀⟩
  cases h with
  | call | hit | miss | acquire | stale | fresh | mark | failed | store | look | release => cases hf
  | start =>
    cases hf
    exact .inr (.inl rfl)
  | @read hd f₀ hn =>
    cases hf
    exact .inr (.inr ⟨f₀, hi f₀ rfl, rfl⟩)
  | @loaded hd f₀ ok p ho =>
    cases hf
    rw [Fetch.outcome_fetch ho]
    exact .inl (hi f₀ rfl)

theorem ProviderStep.fetch_came {b : ProviderAct} {q : Provider jose} {e : Effect jose}
    (h : ProviderStep s s.provider b q e) (hf : q.fetch = some f) : s.Came f := by
  generalize hq : s.provider = q₀ at h
  have hp : ∀ f₀, q₀.fetch = some f₀ → s.Underway f₀ := by
    intro f₀ hf₀
    rw [← hq] at hf₀
    exact .inl hf₀
  cases h with
  | undiscovered | failedFirst | loadedFirst | retry | ready | failed | store | stopRetrying | stopSleeping =>
    cases hf
  | discovered | wake =>
    cases hf
    exact .inr (.inl rfl)
  | @readFirst f₀ hn | @read f₀ hn =>
    cases hf
    exact .inr (.inr ⟨f₀, hp f₀ rfl, rfl⟩)
  | @loaded f₀ ok p ho =>
    cases hf
    rw [Fetch.outcome_fetch ho]
    exact .inl (hp f₀ rfl)

theorem underway_step (h : step s a = some t) (hf : t.Underway f) : s.Came f := by
  cases step_inv h with
  | tick | publish => exact .inl hf
  | provider hp =>
    obtain hf | ⟨j, hj⟩ := hf
    · rw [State.moveProvider_provider] at hf
      exact hp.fetch_came hf
    · rw [State.moveProvider_calls] at hj
      exact .inl (.inr ⟨j, hj⟩)
  | @call i b c e hc =>
    obtain hf | ⟨j, hj⟩ := hf
    · rw [State.moveCall_provider] at hf
      exact .inl (.inl hf)
    · by_cases hji : j = i
      · rw [hji, State.moveCall_self] at hj
        exact hc.fetch_came hj
      · rw [State.moveCall_ne _ _ _ hji] at hj
        exact .inl (.inr ⟨j, hj⟩)

/-- A step leaves the history alone, or adds to it the load that it stores or
that is the first. -/
theorem stores_step (hi : Inv s) (h : step s a = some t) :
    t.stores = s.stores ∨
      ∃ p, t.stores = p :: s.stores ∧ s.Underway p.fetch ∧ (s.storing a = some p ∨ s.stores = []) := by
  cases step_inv h with
  | tick | publish => exact .inl rfl
  | @provider b q e hp =>
    generalize hq : s.provider = q₀ at hp
    cases hp with
    | @loadedFirst f ok p ho =>
      right
      refine ⟨p, rfl, .inl ?_, .inr (hi.loads (by rw [hq]; rfl)).2.1⟩
      rw [hq, Fetch.outcome_fetch ho]
      rfl
    | @store p =>
      right
      refine ⟨p, rfl, .inl ?_, .inl ?_⟩
      · rw [hq]
        rfl
      · simp only [State.storing, hq]
    | discovered | undiscovered | readFirst | failedFirst | retry | ready | wake | read | failed | loaded
    | stopRetrying | stopSleeping => exact .inl rfl
  | @call i b c e hc =>
    generalize hci : s.calls i = c₀ at hc
    cases hc with
    | @store hd p =>
      right
      refine ⟨p, rfl, .inr ⟨i, ?_⟩, .inl ?_⟩
      · rw [hci]
        rfl
      · simp only [State.storing, hci]
    | call | hit | miss | acquire | stale | fresh | mark | start | read | failed | loaded | look | release =>
      exact .inl rfl

theorem instant_step (h : step s a = some t) : t.instant = s.instant + 1 := by
  cases step_inv h with
  | tick | publish | provider | call => rfl

/-- What holds of a fetch that begins, and of one that is answered if it held
before, holds of every fetch under way and of every load stored. -/
theorem fetches_step {P Q : Fetch → Prop} (hi : Inv s) (h : step s a = some t) (hmono : ∀ f, P f → Q f)
    (hnew : Q s.newFetch) (hanswer : ∀ f, P f → Q (s.answer f))
    (hs : (∀ f, s.Underway f → P f) ∧ ∀ p ∈ s.stores, P p.fetch) :
    (∀ f, t.Underway f → Q f) ∧ ∀ p ∈ t.stores, Q p.fetch := by
  refine ⟨?_, ?_⟩
  · intro f hf
    obtain hf | rfl | ⟨f₀, hf₀, rfl⟩ := underway_step h hf
    · exact hmono f (hs.1 f hf)
    · exact hnew
    · exact hanswer f₀ (hs.1 f₀ hf₀)
  · intro p hp
    obtain hst | ⟨p', hst, hu, _⟩ := stores_step hi h
    · rw [hst] at hp
      exact hmono _ (hs.2 p hp)
    · rw [hst] at hp
      obtain rfl | hp := List.mem_cons.mp hp
      · exact hmono _ (hs.1 _ hu)
      · exact hmono _ (hs.2 p hp)

/-- The fetch began before the instant, and was answered in between. -/
def Fetch.Timed (n : ℕ) (f : Fetch) : Prop :=
  f.began < n ∧ ∀ r x, f.answered = some (r, x) → f.began ≤ r ∧ r < n

structure Timed (s : State jose) : Prop where
  underway : ∀ f, s.Underway f → f.Timed s.instant
  stores : ∀ p ∈ s.stores, p.fetch.Timed s.instant

theorem timed_initial (jose : Jose) (clock : Time) (published : Answer) :
    Timed (initial jose clock published) where
  underway f hf := by
    obtain hf | ⟨i, hf⟩ := hf
    · cases hf
    · cases hf
  stores _ h := nomatch h

theorem Timed.step (s : State jose) (a : Act) (t : State jose) (hs : Inv s ∧ Timed s)
    (h : step s a = some t) : Inv t ∧ Timed t := by
  refine ⟨hs.1.step s a t h, ?_⟩
  have hf := fetches_step (P := Fetch.Timed s.instant) (Q := Fetch.Timed (s.instant + 1)) hs.1 h ?_ ?_ ?_
    ⟨hs.2.underway, hs.2.stores⟩
  · rw [← instant_step h] at hf
    exact ⟨hf.1, hf.2⟩
  · intro f hf
    obtain ⟨hb, hr⟩ := hf
    refine ⟨by omega, ?_⟩
    intro r x hx
    have hrx := hr r x hx
    omega
  · refine ⟨Nat.lt_succ_self _, ?_⟩
    intro r x hx
    cases hx
  · intro f hf
    obtain ⟨hb, _⟩ := hf
    refine ⟨Nat.lt_succ_of_lt hb, ?_⟩
    intro r x hx
    cases hx
    exact ⟨hb.le, Nat.lt_succ_self _⟩

theorem Reachable.timed (h : Reachable s) : Timed s := by
  obtain ⟨clock, published, as, hr⟩ := h
  exact (invariant_run Timed.step ⟨inv_initial jose clock published, timed_initial jose clock published⟩ hr).2

end Fetches

section Order

variable {jose : Jose} {s t : State jose}

/-- The action stores no load before which one that began later was stored. -/
def State.InOrder (s : State jose) (a : Act) : Prop :=
  ∀ p ∈ s.storing a, ∀ q ∈ s.stores, q.began ≤ p.began

instance (s : State jose) (a : Act) : Decidable (s.InOrder a) :=
  inferInstanceAs (Decidable (∀ p ∈ s.storing a, _))

def State.Ordered (s : State jose) : Prop :=
  ∀ p rest, s.stores = p :: rest → ∀ q ∈ s.stores, q.began ≤ p.began

theorem ordered_step (s : State jose) (a : Act) (t : State jose) (hs : Inv s ∧ s.Ordered)
    (ho : s.InOrder a) (h : step s a = some t) : Inv t ∧ t.Ordered := by
  refine ⟨hs.1.step s a t h, ?_⟩
  intro p rest hp q hq
  obtain hst | ⟨p', hst, _, hfrom⟩ := stores_step hs.1 h
  · rw [hst] at hp hq
    exact hs.2 p rest hp q hq
  · cases hst.symm.trans hp
    rw [hst] at hq
    obtain rfl | hq := List.mem_cons.mp hq
    · exact le_rfl
    · obtain hfrom | hnil := hfrom
      · exact ho p hfrom q hq
      · rw [hnil] at hq
        cases hq

def Answer.keys (jose : Jose) (x : Answer) : List JSONWebKey :=
  match fetch jose x with
  | .ok keys => keys.keys
  | .error _ => []

theorem Load.answer_keys (p : Load jose) : p.answer.keys jose = p.keys.keys := by
  rw [Answer.keys, p.fetched]

/-- Every answer read since the instant meets the condition. -/
def Fetch.Since (n : ℕ) (C : Answer → Prop) (f : Fetch) : Prop :=
  ∀ r x, f.answered = some (r, x) → n ≤ r → C x

theorem since_step {n : ℕ} {C : Answer → Prop} (s : State jose) (a : Act) (t : State jose)
    (hs : Inv s ∧ (∀ f, s.Underway f → f.Since n C) ∧ ∀ p ∈ s.stores, p.fetch.Since n C)
    (hc : C s.published) (h : step s a = some t) :
    Inv t ∧ (∀ f, t.Underway f → f.Since n C) ∧ ∀ p ∈ t.stores, p.fetch.Since n C := by
  refine ⟨hs.1.step s a t h, fetches_step hs.1 h (fun _ ↦ id) ?_ ?_ hs.2⟩
  · intro r x hx
    cases hx
  · intro f _ r x hx _
    cases hx
    exact hc

theorem Timed.since (hs : Timed s) (C : Answer → Prop) :
    (∀ f, s.Underway f → f.Since s.instant C) ∧ ∀ p ∈ s.stores, p.fetch.Since s.instant C := by
  have hpast : ∀ f : Fetch, f.Timed s.instant → f.Since s.instant C := by
    intro f hf r x hx hr
    have hrx := hf.2 r x hx
    omega
  exact ⟨fun f hf ↦ hpast f (hs.underway f hf), fun p hp ↦ hpast _ (hs.stores p hp)⟩

end Order

/-- While fetches are stored in the order in which they began, the cache never
goes back in time: it is an answer read after every stored fetch began, so once
a fetch begun after a key's removal is stored, no lookup finds that key. -/
theorem cache_never_goes_back (jose : Jose) (clock : Time) (published : Answer) (as bs : List Act)
    (s t : State jose) (hs : run step (initial jose clock published) as = some s)
    (ht : run step s bs = some t)
    (ho : Along step State.InOrder (initial jose clock published) (as ++ bs)) (k : KeySet)
    (hk : t.cache = some k) :
    (∃ p rest, t.stores = p :: rest ∧ k.keys = p.keys ∧ ∀ q ∈ t.stores, q.began ≤ p.readAt) ∧
    ∀ key, Along step (fun u _ ↦ key ∉ u.published.keys jose) s bs → ∀ q ∈ t.stores, s.instant ≤ q.began →
      ∀ kid alg, (k.lookup kid alg).1 ≠ some key := by
  have hrs : Reachable s := ⟨clock, published, as, hs⟩
  have hrt : Reachable t := hrs.trans ht
  obtain ⟨p, rest, hp, hkeys⟩ := (hrt.inv.cached k hk).keys
  have hmem : p ∈ t.stores := by
    rw [hp]
    exact List.mem_cons_self
  have hread : p.began ≤ p.readAt := ((hrt.timed.stores p hmem).2 _ _ rfl).1
  have hord : t.Ordered := (invariant_along ordered_step
    ⟨inv_initial jose clock published, fun _ _ h ↦ nomatch h⟩ ho (run_trans hs ht)).2
  have hle : ∀ q ∈ t.stores, q.began ≤ p.readAt := fun q hq ↦ (hord p rest hp q hq).trans hread
  refine ⟨⟨p, rest, hp, hkeys, hle⟩, ?_⟩
  intro key hgone q hq hq' kid alg hf
  have hsince := (invariant_along (since_step (C := fun x ↦ key ∉ x.keys jose))
    ⟨hrs.inv, hrs.timed.since _⟩ hgone ht).2.2 p hmem
  have hlacks : key ∉ p.answer.keys jose := hsince _ _ rfl (hq'.trans (hle q hq))
  rw [p.answer_keys, ← hkeys] at hlacks
  exact hlacks (findKey_eq_some hf).1

def rotated : Answer := .response 200 rotatedBody true

def refreshRun : List Act :=
  [.provider .advance, .provider .read, .provider (.finish true), .provider .advance]

theorem removed_key_not_found :
    ∃ s t k, run step exampleStart (firstLoad ++ [.publish rotated]) = some s ∧
      run step s refreshRun = some t ∧ t.cache = some k ∧
      ∀ kid alg, (k.lookup kid alg).1 ≠ some retiredKey := by
  obtain ⟨s, hs, hx⟩ := Option.map_eq_some_iff.mp (by decide +kernel : (run step exampleStart
    (firstLoad ++ [.publish rotated])).map (fun s ↦ (s.instant,
      decide (Along step (fun u _ ↦ retiredKey ∉ u.published.keys rotationJose) s refreshRun))) =
        some (5, true))
  obtain ⟨t, ht, hy⟩ := Option.map_eq_some_iff.mp (by decide +kernel : (run step exampleStart
    ((firstLoad ++ [.publish rotated]) ++ refreshRun)).map
      (fun t ↦ (t.cache.isSome, decide (∃ q ∈ t.stores, 5 ≤ q.began))) = some (true, true))
  simp only [Prod.mk.injEq, decide_eq_true_eq] at hx hy
  obtain ⟨hn, hgone⟩ := hx
  obtain ⟨hk, q, hq, hq'⟩ := hy
  obtain ⟨k, hk⟩ := Option.isSome_iff_exists.mp hk
  obtain ⟨s', hs', ht'⟩ := run_append_eq_some ht
  cases hs.symm.trans hs'
  refine ⟨s, t, k, hs, ht', hk, ?_⟩
  exact (cache_never_goes_back rotationJose 0 _ _ _ s t hs ht' (by decide +kernel) k hk).2
    retiredKey hgone q hq
    (hn.trans_le hq')

/-- The scheduled refresh reads the keys, and one of them is removed before it stores them. -/
def overtaken : List Act := firstLoad ++ [.provider .advance, .provider .read, .publish rotated]

def overtaking : List Act :=
  missing 0 ++ [.call 0 .read, .call 0 (.finish true), .call 0 .advance, .provider (.finish true),
    .provider .advance]

/-- The slow scheduled refresh puts the old keys back, and the removed key is trusted again. -/
theorem removed_key_found_again :
    (¬ ∀ (jose : Jose) (clock : Time) (published : Answer) (as : List Act) (s : State jose) (k : KeySet),
      run step (initial jose clock published) as = some s → s.cache = some k →
      ∃ p rest, s.stores = p :: rest ∧ k.keys = p.keys ∧ ∀ q ∈ s.stores, q.began ≤ p.readAt) ∧
    ¬ ∀ (jose : Jose) (clock : Time) (published : Answer) (as bs : List Act) (s t : State jose) (k : KeySet),
      run step (initial jose clock published) as = some s → run step s bs = some t → t.cache = some k →
      ∀ key, Along step (fun u _ ↦ key ∉ u.published.keys jose) s bs → ∀ q ∈ t.stores, s.instant ≤ q.began →
        ∀ kid alg, (k.lookup kid alg).1 ≠ some key := by
  obtain ⟨s, hs, hx⟩ := Option.map_eq_some_iff.mp (by decide +kernel : (run step exampleStart overtaken).map
    (fun s ↦ (s.instant,
      decide (Along step (fun u _ ↦ retiredKey ∉ u.published.keys rotationJose) s overtaking))) =
        some (7, true))
  obtain ⟨t, ht, hy⟩ := Option.map_eq_some_iff.mp (by decide +kernel : (run step exampleStart
    (overtaken ++ overtaking)).map (fun t ↦ (t.cache.map (fun k ↦ (k.lookup "k0" "ES256").1),
      t.stores.map (fun p ↦ (p.began, p.readAt)))) =
        some (some (some retiredKey), [(4, 5), (12, 13), (0, 1)]))
  simp only [Prod.mk.injEq, decide_eq_true_eq] at hx hy
  obtain ⟨hn, hgone⟩ := hx
  obtain ⟨hk, hst⟩ := hy
  obtain ⟨k, hk, hf⟩ := Option.map_eq_some_iff.mp hk
  obtain ⟨q, hq, hq'⟩ : ∃ q ∈ t.stores, (q.began, q.readAt) = (12, 13) := by
    apply List.mem_map.mp
    rw [hst]
    decide
  obtain ⟨hb, _⟩ := Prod.mk.inj hq'
  refine ⟨?_, ?_⟩
  · intro h
    obtain ⟨p, rest, hp, _, hle⟩ := h rotationJose 0 _ _ t k ht hk
    have hqp := hle q hq
    rw [hp, List.map_cons] at hst
    obtain ⟨_, hr⟩ := Prod.mk.inj (List.cons.inj hst).1
    omega
  · intro h
    obtain ⟨s', hs', ht'⟩ := run_append_eq_some ht
    cases hs.symm.trans hs'
    exact h rotationJose 0 _ _ _ s t k hs ht' hk retiredKey hgone q hq (by omega) "k0" "ES256" hf

end OtlpCollectorOidc.Auth

import OtlpCollectorOidc.Auth.Readiness

namespace OtlpCollectorOidc.Auth

open Text Number Transition

variable {jose : Jose}

def Call.rank : Call jose → ℕ
  | .idle => 11
  | .called _ => 10
  | .missed .. => 9
  | .locked .. => 8
  | .marking .. => 7
  | .marked _ => 6
  | .fetching _ f => if f.answered.isNone then 5 else 4
  | .storing .. => 3
  | .looking _ => 2
  | .returning .. => 1
  | .done .. => 0

def Call.underWay : Call jose → Bool
  | .idle | .done .. => false
  | _ => true

def Act.isOf (i : CallId) : Act → Bool
  | .call j _ => j = i
  | _ => false

section Bound

variable {s t : State jose} {i : CallId}

theorem CallStep.rank_lt {c c' : Call jose} {b : CallAct} {e : Effect jose} (h : CallStep s i c b c' e) :
    c'.rank < c.rank := by
  cases h with
  | read hf => simp [Call.rank, hf, State.answer]
  | failed | loaded =>
    simp only [Call.rank]
    split <;> omega
  | start => simp [Call.rank, State.newFetch]
  | _ => simp [Call.rank]

theorem rank_le (i : CallId) (s : State jose) (a : Act) (t : State jose) (h : step s a = some t) :
    (t.calls i).rank ≤ (s.calls i).rank := by
  cases step_inv h with
  | tick | publish => exact le_rfl
  | provider => rw [State.moveProvider_calls]
  | @call j b c e hc =>
    by_cases hij : i = j
    · subst hij
      rw [State.moveCall_self]
      exact hc.rank_lt.le
    · rw [State.moveCall_ne _ _ _ hij]

theorem rank_lt (i : CallId) (s : State jose) (a : Act) (t : State jose) (ha : a.isOf i = true)
    (h : step s a = some t) :
    (t.calls i).rank < (s.calls i).rank := by
  cases step_inv h with
  | tick | publish => cases ha
  | provider => cases ha
  | @call j b c e hc =>
    obtain rfl : j = i := of_decide_eq_true ha
    rw [State.moveCall_self]
    exact hc.rank_lt

/-- Over any run a call takes eleven steps at most, the first of which makes it. -/
theorem call_steps_le {clock : Time} {published : Answer} {as : List Act}
    (hr : run step (initial jose clock published) as = some s) (i : CallId) :
    as.countP (Act.isOf i) ≤ 11 := by
  have hle := countP_add_le (fun s : State jose ↦ (s.calls i).rank) (rank_le i) (rank_lt i) hr
  have hstart : ((initial jose clock published).calls i).rank = 11 := rfl
  omega

end Bound

section Enabled

variable {s t : State jose}

def Held (s : State jose) : Prop := ∀ j, s.refreshing = some j → (s.calls j).holds = true

theorem Held.call (hs : Held s) {i : CallId} {b : CallAct} {c : Call jose} {e : Effect jose}
    (h : CallStep s i (s.calls i) b c e) : Held (s.moveCall i c e) := by
  intro j hj
  by_cases hji : j = i
  · subst hji
    rw [State.moveCall_self]
    have hheld := hs j
    generalize s.calls j = c₀ at h hheld
    cases h with
    | acquire | stale | fresh | mark | start | read | failed | loaded | store | look => rfl
    | call | hit | miss => cases hheld hj
    | release => cases hj
  · rw [State.moveCall_ne _ _ _ hji]
    generalize s.calls i = c₀ at h
    cases h with
    | acquire => exact absurd (Option.some.inj hj).symm hji
    | release => cases hj
    | call | hit | miss | stale | fresh | mark | start | read | failed | loaded | store | look =>
      exact hs j hj

theorem Held.step (s : State jose) (a : Act) (t : State jose) (hs : Held s)
    (h : step s a = some t) : Held t := by
  cases step_inv h with
  | tick | publish => exact hs
  | @provider b q e hp =>
    intro j hj
    rw [State.moveProvider_calls]
    refine hs j ?_
    generalize s.provider = q₀ at hp
    cases hp <;> exact hj
  | call hc => exact hs.call hc

theorem Reachable.held (h : Reachable s) : Held s := by
  obtain ⟨clock, published, as, hr⟩ := h
  refine invariant_run Held.step ?_ hr
  intro j hj
  cases hj

theorem CallStep.enabled {j : CallId} {c₀ c : Call jose} {b : CallAct} {e : Effect jose}
    (h : CallStep s j c₀ b c e) (hc : s.calls j = c₀) : ∃ b t, Auth.step s (.call j b) = some t :=
  ⟨b, s.moveCall j c e, by rw [Auth.step, hc, h.callStep_eq]; rfl⟩

/-- A call that holds the lock can go on: its fetch can at least break off. -/
theorem Inv.holder_steps (hs : Inv s) {j : CallId} (hj : (s.calls j).holds = true) :
    ∃ b t, Auth.step s (.call j b) = some t := by
  have hactive : s.calls j ≠ .idle := by
    intro hidle
    rw [hidle] at hj
    cases hj
  obtain ⟨k, hk⟩ := Option.isSome_iff_exists.mp (hs.active j hactive)
  cases hc : s.calls j with
  | locked h g =>
    cases hstale : k.stale s.clock g with
    | true => exact (CallStep.stale hk hstale).enabled hc
    | false => exact (CallStep.fresh hk hstale).enabled hc
  | marking h now => exact CallStep.mark.enabled hc
  | marked h => exact CallStep.start.enabled hc
  | fetching h f =>
    have hbroken : (f.outcome false : Option (Except FetchError (Load jose))) = some (.error .request) := rfl
    exact (CallStep.failed hbroken).enabled hc
  | storing h p => exact CallStep.store.enabled hc
  | looking h => exact (CallStep.look hk).enabled hc
  | returning h key => exact CallStep.release.enabled hc
  | idle | called | missed | done => simp [hc, Call.holds] at hj

/-- Every verification comes to its end, however the requests interleave and whatever the provider does:
a call takes eleven steps at most, and one under way can take its next or waits for the lock of one that
can. -/
theorem verification_ends (clock : Time) (published : Answer) (as : List Act) (s : State jose)
    (hr : run step (initial jose clock published) as = some s) :
    (∀ i, as.countP (Act.isOf i) ≤ 11) ∧
    ∀ i, (s.calls i).underWay = true →
      ∃ j, (j = i ∨ (∃ h g, s.calls i = .missed h g) ∧ s.refreshing = some j) ∧ (s.calls j).underWay = true ∧
        ∃ b t, Auth.step s (.call j b) = some t := by
  have hreach : Reachable s := ⟨clock, published, as, hr⟩
  have hinv := hreach.inv
  have hholder : ∀ j, (s.calls j).holds = true → (s.calls j).underWay = true := by
    intro j hj
    cases hc : s.calls j with
    | idle | done => simp [hc, Call.holds] at hj
    | _ => rfl
  refine ⟨call_steps_le hr, ?_⟩
  intro i hi
  cases hheld : (s.calls i).holds with
  | true => exact ⟨i, Or.inl rfl, hi, hinv.holder_steps hheld⟩
  | false =>
    cases hc : s.calls i with
    | called h =>
      obtain ⟨k, hk⟩ := Option.isSome_iff_exists.mp (hinv.active i (by simp [hc]))
      refine ⟨i, Or.inl rfl, hi, ?_⟩
      cases hf : findKey k.keys.keys h.keyID h.algorithm with
      | none => exact (CallStep.miss hk hf).enabled hc
      | some key => exact (CallStep.hit hk hf).enabled hc
    | missed h g =>
      cases hlock : s.refreshing with
      | none => exact ⟨i, Or.inl rfl, hi, (CallStep.acquire hlock).enabled hc⟩
      | some j =>
        have hj := hreach.held j hlock
        exact ⟨j, Or.inr ⟨⟨h, g, rfl⟩, rfl⟩, hholder j hj, hinv.holder_steps hj⟩
    | idle | done => simp [hc, Call.underWay] at hi
    | locked | marking | marked | fetching | storing | looking | returning => simp [hc, Call.holds] at hheld

/-- Two requests miss the same kid; the second waits while the first fetches. -/
def waiting : List Act := firstLoad ++ missing 0 ++ [.call 1 (.call rotatedIn), .call 1 .advance]

theorem waiting_call_not_stuck : ∃ s, run step exampleStart waiting = some s ∧ (s.calls 1).underWay = true ∧
    step s (.call 1 .advance) = none ∧ ∃ j b t, Auth.step s (.call j b) = some t := by
  obtain ⟨s, hs, hx⟩ := Option.map_eq_some_iff.mp (by decide +kernel : (run step exampleStart waiting).map
    (fun s ↦ ((s.calls 1).underWay, (step s (.call 1 .advance)).isNone)) = some (true, true))
  simp only [Prod.mk.injEq, Option.isNone_iff_eq_none] at hx
  obtain ⟨j, -, -, b, t, ht⟩ := (verification_ends 0 _ waiting s hs).2 1 hx.1
  exact ⟨s, hs, hx.1, hx.2, j, b, t, ht⟩

end Enabled

section Ready

variable {s t : State jose}

theorem ProviderStep.providerStep_eq {q q' : Provider jose} {b : ProviderAct} {e : Effect jose}
    (h : ProviderStep s q b q' e) : providerStep s q b = some (q', e) := by
  cases h with
  | discovered | undiscovered | retry | ready | wake | store | stopRetrying | stopSleeping => rfl
  | readFirst hf | read hf => simp [providerStep, hf]
  | failedFirst ho | loadedFirst ho | failed ho | loaded ho => simp [providerStep, ho]

/-- No request of the provider's goroutine fails, it is not stopped, and what is published can be fetched. -/
def Act.favourable (jose : Jose) : Act → Bool
  | .provider (.discover ok) | .provider (.finish ok) => ok
  | .provider .stop => false
  | .publish a => (fetch jose a).isOk
  | _ => true

def Act.isProvider : Act → Bool
  | .provider _ => true
  | _ => false

/-- How many steps of the provider's goroutine are left at most until the keys are there, if nothing fails. -/
def Provider.rank : Provider jose → ℕ
  | .loading f =>
    match f.answered with
    | none => 3
    | some (_, a) => if (Auth.fetch jose a).isOk then 2 else 6
  | .retrying => 5
  | .discovering => 4
  | .loaded _ => 1
  | .sleeping | .refreshing _ | .storing _ | .stopped => 0

theorem ProviderStep.rank_le {q q' : Provider jose} {b : ProviderAct} {e : Effect jose}
    (h : ProviderStep s q b q' e) (hb : (Act.provider b).favourable jose = true)
    (hp : (fetch jose s.published).isOk = true) :
    q'.rank ≤ q.rank - 1 := by
  cases h with
  | discovered => simp [Provider.rank, State.newFetch]
  | undiscovered | stopRetrying | stopSleeping => cases hb
  | readFirst hf => simp [Provider.rank, hf, State.answer, hp]
  | @failedFirst f ok _ ho =>
    cases (show ok = true from hb)
    obtain ⟨⟨r, a⟩, hf, ha⟩ := Option.map_eq_some_iff.mp ho
    have herror : (fetch jose a).isOk = false := by
      cases hx : fetch jose a with
      | error => rfl
      | ok keys =>
        rw [Fetch.outcome_ok hf hx] at ho
        cases ho
    simp [Provider.rank, hf, herror]
  | loadedFirst ho =>
    obtain ⟨-, hf, -⟩ := Fetch.outcome_load ho
    simp only [Provider.rank, hf]
    split_ifs <;> omega
  | _ => simp [Provider.rank]

structure Promising (s : State jose) : Prop where
  inv : Inv s
  published : (fetch jose s.published).isOk = true
  live : s.provider ≠ .stopped

theorem Promising.step {a : Act} (hs : Promising s) (ha : a.favourable jose = true)
    (h : Auth.step s a = some t) :
    Promising t ∧ t.provider.rank ≤ s.provider.rank - if a.isProvider then 1 else 0 := by
  have hinv := hs.inv.step s a t h
  cases step_inv h with
  | tick d => exact ⟨⟨hinv, hs.published, hs.live⟩, le_rfl⟩
  | publish x => exact ⟨⟨hinv, ha, hs.live⟩, le_rfl⟩
  | call hc =>
    refine ⟨⟨hinv, ?_, ?_⟩, ?_⟩
    · rw [State.moveCall_published]
      exact hs.published
    · rw [State.moveCall_provider]
      exact hs.live
    · rw [State.moveCall_provider]
      exact le_rfl
  | @provider b q e hq =>
    refine ⟨⟨hinv, by rw [State.moveProvider_published]; exact hs.published, ?_⟩, hq.rank_le ha hs.published⟩
    rw [State.moveProvider_provider]
    rintro rfl
    generalize s.provider = q₀ at hq
    cases hq with
    | stopRetrying | stopSleeping => cases ha

/-- Once nothing is left to do but refresh, the keys are there. -/
theorem Promising.ready (hs : Promising s) (h : s.provider.rank = 0) : s.cache.isSome = true := by
  apply hs.inv.refreshes
  cases hq : s.provider with
  | sleeping | refreshing | storing => rfl
  | stopped => exact absurd hq hs.live
  | discovering | retrying | loaded => simp [hq, Provider.rank] at h
  | loading f =>
    rw [hq, Provider.rank] at h
    split at h
    · cases h
    · split_ifs at h

theorem Provider.rank_le_six (q : Provider jose) : q.rank ≤ 6 := by
  unfold Provider.rank
  repeat' split
  all_goals decide

/-- The provider's goroutine alone can get to the keys in so many steps, none of which fails. -/
def ReadyIn (s : State jose) (n : ℕ) : Prop :=
  ∃ (bs : List ProviderAct) (t : State jose), bs.length ≤ n ∧
    (∀ b ∈ bs, (Act.provider b).favourable jose = true) ∧ run step s (bs.map .provider) = some t ∧
      t.cache.isSome = true

theorem ReadyIn.cons {n : ℕ} {b : ProviderAct} {q q' : Provider jose} {e : Effect jose} (hq : s.provider = q)
    (hb : (Act.provider b).favourable jose = true) (h : ProviderStep s q b q' e)
    (hr : ReadyIn (s.moveProvider q' e) n) : ReadyIn s (n + 1) := by
  obtain ⟨bs, t, hlen, hbs, hrun, hready⟩ := hr
  refine ⟨b :: bs, t, Nat.succ_le_succ hlen, List.forall_mem_cons.mpr ⟨hb, hbs⟩, ?_, hready⟩
  rw [List.map_cons, run, step, hq, h.providerStep_eq]
  exact hrun

theorem ReadyIn.mono {m n : ℕ} (hr : ReadyIn s m) (h : m ≤ n) : ReadyIn s n := by
  obtain ⟨bs, t, hlen, hrest⟩ := hr
  exact ⟨bs, t, hlen.trans h, hrest⟩

theorem readyIn_loaded {k : KeySet} (hq : s.provider = .loaded k) : ReadyIn s 1 :=
  .cons hq rfl .ready ⟨[], _, le_rfl, by simp, rfl, rfl⟩

theorem readyIn_answered {f : Fetch} {r : ℕ} {a : Answer} {keys : JWKS} (hq : s.provider = .loading f)
    (hf : f.answered = some (r, a)) (h : fetch jose a = .ok keys) : ReadyIn s 2 :=
  .cons hq rfl (.loadedFirst (Fetch.outcome_ok hf h)) (readyIn_loaded rfl)

variable {keys : JWKS} (hfetch : fetch jose s.published = .ok keys)
include hfetch

theorem readyIn_loading {f : Fetch} (hq : s.provider = .loading f) (hf : f.answered = none) : ReadyIn s 3 :=
  .cons hq rfl (.readFirst hf) (readyIn_answered rfl rfl hfetch)

theorem readyIn_discovering (hq : s.provider = .discovering) : ReadyIn s 4 :=
  .cons hq rfl .discovered (readyIn_loading hfetch rfl rfl)

theorem readyIn_retrying (hq : s.provider = .retrying) : ReadyIn s 5 :=
  .cons hq rfl .retry (readyIn_discovering hfetch rfl)

end Ready

theorem Reachable.readyIn {s : State jose} (hs : Reachable s) (hlive : s.provider ≠ .stopped) {keys : JWKS}
    (hfetch : fetch jose s.published = .ok keys) : ReadyIn s 6 := by
  have hcached (h : s.provider.refreshes = true) : ReadyIn s 6 :=
    ⟨[], s, by simp, by simp, rfl, hs.inv.refreshes h⟩
  cases hq : s.provider with
  | discovering => exact (readyIn_discovering hfetch hq).mono (by omega)
  | loading f =>
    cases hf : f.answered with
    | none => exact (readyIn_loading hfetch hq hf).mono (by omega)
    | some p =>
      cases ha : fetch jose p.2 with
      | ok keys => exact (readyIn_answered hq hf ha).mono (by omega)
      | error e => exact .cons hq rfl (.failedFirst (Fetch.outcome_error hf ha)) (readyIn_retrying hfetch rfl)
  | retrying => exact (readyIn_retrying hfetch hq).mono (by omega)
  | loaded k => exact (readyIn_loaded hq).mono (by omega)
  | sleeping | refreshing | storing => exact hcached (by rw [hq]; rfl)
  | stopped => exact absurd hq hlive

/-- However long the provider was away: from every state before Shutdown, once what it publishes can be
fetched, every run in which the goroutine takes six steps and none of its requests fails ends where no
request is answered not ready, and the goroutine can always take steps that do not fail until then. -/
theorem becomes_ready {s : State jose} (hs : Reachable s) (hlive : s.provider ≠ .stopped) {keys : JWKS}
    (hfetch : fetch jose s.published = .ok keys) :
    (∀ (as : List Act) (t : State jose), run step s as = some t → (∀ a ∈ as, a.favourable jose = true) →
      6 ≤ as.countP Act.isProvider → ∀ (a : Authenticator) ctx sources r, a.keys = t.cache →
        (a.authenticate jose ctx sources r).err ≠ some .notReady) ∧
    ∃ (bs : List ProviderAct) (t : State jose), bs.length ≤ 6 ∧
      (∀ b ∈ bs, (Act.provider b).favourable jose = true) ∧ run step s (bs.map .provider) = some t ∧
        ∀ (a : Authenticator) ctx sources r, a.keys = t.cache →
          (a.authenticate jose ctx sources r).err ≠ some .notReady := by
  constructor
  · intro as t hr hall hcount a ctx sources r hkeys
    have hpromising : Promising s := ⟨hs.inv, by rw [hfetch]; rfl, hlive⟩
    have hfav : Along step (fun _ a ↦ a.favourable jose = true) s as := Along.of_mem hall s
    have hrank : t.provider.rank ≤ s.provider.rank - as.countP Act.isProvider :=
      rank_le_sub (fun s ↦ s.provider.rank) (fun _ _ _ hP hC h ↦ hP.step hC h) hpromising hfav hr
    have hend : Promising t := invariant_along (fun _ _ _ hP hC h ↦ (hP.step hC h).1) hpromising hfav hr
    have hle := s.provider.rank_le_six
    exact authenticate_ready (hkeys ▸ hend.ready (by omega))
  · obtain ⟨bs, t, hlen, hbs, hrun, hcache⟩ := hs.readyIn hlive hfetch
    exact ⟨bs, t, hlen, hbs, hrun, fun a ctx sources r hkeys ↦ authenticate_ready (hkeys ▸ hcache)⟩

/-- The first load and the scheduled re-read that follows it, while time passes and the published keys
change. -/
def firstSixSteps : List Act :=
  .tick 5 :: firstLoad ++ [.publish (.response 200 rotatedBody true), .provider .advance, .provider .read]

theorem undiscovered_becomes_ready : exampleStart.cache = none ∧
    (∃ t, run step exampleStart firstSixSteps = some t ∧
      ∀ (a : Authenticator) ctx sources r, a.keys = t.cache →
        (a.authenticate rotationJose ctx sources r).err ≠ some .notReady) ∧
    ∃ (bs : List ProviderAct) (t : State rotationJose), bs.length ≤ 6 ∧
      run step exampleStart (bs.map .provider) = some t ∧
        ∀ (a : Authenticator) ctx sources r, a.keys = t.cache →
          (a.authenticate rotationJose ctx sources r).err ≠ some .notReady := by
  obtain ⟨keys, hkeys⟩ : ∃ keys, fetch rotationJose (.response 200 retiredBody true) = .ok keys := by
    cases h : fetch rotationJose (.response 200 retiredBody true) with
    | ok keys => exact ⟨keys, rfl⟩
    | error e =>
      have hok : (fetch rotationJose (.response 200 retiredBody true)).isOk = true := by decide +kernel
      rw [h] at hok
      cases hok
  obtain ⟨hall, bs, t, hlen, -, hrun, hready⟩ :=
    becomes_ready (s := exampleStart) ⟨0, _, [], rfl⟩ nofun hkeys
  have hsix : (run step exampleStart firstSixSteps).isSome = true := by decide +kernel
  obtain ⟨u, hu⟩ := Option.isSome_iff_exists.mp hsix
  have hfav : ∀ a ∈ firstSixSteps, a.favourable rotationJose = true := List.all_eq_true.mp (by decide +kernel)
  exact ⟨rfl, ⟨u, hu, hall firstSixSteps u hu hfav (by decide)⟩, bs, t, hlen, hrun, hready⟩

end OtlpCollectorOidc.Auth

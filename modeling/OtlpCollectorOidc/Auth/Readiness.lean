import OtlpCollectorOidc.Auth.Authenticate
import OtlpCollectorOidc.Auth.Freshness

namespace OtlpCollectorOidc.Auth

open Text Number Json Transition

section Ready

variable {jose : Jose} {s t : State jose} {a : Act}

def State.publishes (s : State jose) : Act → Bool
  | .provider .advance =>
    match s.provider with
    | .loaded _ => true
    | _ => false
  | _ => false

theorem publishes_loaded (h : s.publishes a = true) :
    a = .provider .advance ∧ ∃ k, s.provider = .loaded k := by
  unfold State.publishes at h
  split at h
  · split at h
    · rename_i k hk
      exact ⟨rfl, k, hk⟩
    · cases h
  · cases h

theorem ready_step (s : State jose) (a : Act) (t : State jose) (hs : Inv s ∧ s.cache.isSome = true)
    (h : step s a = some t) : Inv t ∧ t.cache.isSome = true := by
  refine ⟨hs.1.step s a t h, ?_⟩
  cases step_inv h with
  | tick | publish => exact hs.2
  | provider | call => exact isSome_apply hs.2

theorem publishes_ready (hs : Inv s) (hp : s.publishes a = true) (h : step s a = some t) :
    Inv t ∧ t.cache.isSome = true := by
  refine ⟨hs.step s a t h, ?_⟩
  obtain ⟨rfl, k, hk⟩ := publishes_loaded hp
  rw [step, hk] at h
  cases h
  rfl

theorem publishes_eq_false (s : State jose) (a : Act) (hs : Inv s ∧ s.cache.isSome = true) :
    s.publishes a = false := by
  by_contra hp
  obtain ⟨_, k, hk⟩ := publishes_loaded (Bool.not_eq_false _ ▸ hp)
  have hc := hs.2
  rw [(hs.1.loaded k hk).1] at hc
  cases hc

/-- No discovery has succeeded, so nothing is published. -/
structure Undiscovered (s : State jose) : Prop where
  inv : Inv s
  cache : s.cache = none
  provider : s.provider = .discovering ∨ s.provider = .retrying ∨ s.provider = .stopped

theorem undiscovered_step (s : State jose) (a : Act) (t : State jose) (hs : Undiscovered s)
    (ha : a ≠ .provider (.discover true)) (h : step s a = some t) : Undiscovered t := by
  have hi := hs.inv.step s a t h
  cases step_inv h with
  | tick | publish => exact ⟨hi, hs.cache, hs.provider⟩
  | @provider b q e hp =>
    obtain hq | hq | hq := hs.provider
    · rw [hq] at hp
      cases hp with
      | discovered => exact absurd rfl ha
      | undiscovered => exact ⟨hi, hs.cache, .inr (.inl rfl)⟩
    · rw [hq] at hp
      cases hp with
      | retry => exact ⟨hi, hs.cache, .inl rfl⟩
      | stopRetrying => exact ⟨hi, hs.cache, .inr (.inr rfl)⟩
    · rw [hq] at hp
      cases hp
  | call hc =>
    have hr := hc.ready hs.inv
    rw [hs.cache] at hr
    cases hr

theorem discovered_of_ready {clock : Time} {published : Answer} {as : List Act}
    (hr : run step (initial jose clock published) as = some s) (hs : s.cache.isSome = true) :
    .provider (.discover true) ∈ as := by
  by_contra hn
  have hne : ∀ a ∈ as, a ≠ .provider (.discover true) := by
    intro a ha he
    exact hn (he ▸ ha)
  have hu : Undiscovered s := invariant_along undiscovered_step
    ⟨inv_initial jose clock published, rfl, .inl rfl⟩ (Along.of_mem hne _) hr
  rw [hu.cache] at hs
  cases hs

end Ready

section Failure

variable {jose : Jose} {s t : State jose} {a : Act}

/-- The action ends no fetch, or ends one that fails. -/
def State.Fails (s : State jose) (a : Act) : Prop := ∀ r ∈ s.outcome a, r.isOk = false

instance (s : State jose) (a : Act) : Decidable (s.Fails a) :=
  inferInstanceAs (Decidable (∀ r ∈ s.outcome a, _))

def State.Pending (s : State jose) (p : Load jose) : Prop :=
  s.provider = .storing p ∨ ∃ i h, s.calls i = .storing h p

theorem pending_of_storing {p : Load jose} (h : s.storing a = some p) : s.Pending p := by
  unfold State.storing at h
  split at h
  · split at h
    · rename_i hp
      cases h
      exact .inl hp
    · cases h
  · split at h
    · rename_i hd _ hc
      cases h
      exact .inr ⟨_, hd, hc⟩
    · cases h
  · cases h

/-- The end of a fetch stores nothing, however it comes out. -/
theorem cache_of_outcome {r : Except FetchError (Load jose)} (ho : s.outcome a = some r)
    (h : step s a = some t) : t.cache = s.cache := by
  cases step_inv h with
  | tick | publish => cases ho
  | @provider b q e hp =>
    generalize s.provider = q₀ at hp
    cases hp with
    | failedFirst | loadedFirst | failed | loaded => rfl
    | discovered | undiscovered | readFirst | retry | ready | wake | read | store | stopRetrying
    | stopSleeping => cases ho
  | @call i b c e hc =>
    generalize s.calls i = c₀ at hc
    cases hc with
    | failed | loaded => rfl
    | call | hit | miss | acquire | stale | fresh | mark | start | read | store | look | release => cases ho

theorem pending_step {p : Load jose} (hf : s.Fails a) (h : step s a = some t) (hp : t.Pending p) :
    s.Pending p := by
  cases step_inv h with
  | tick | publish => exact hp
  | @provider b q e hq =>
    obtain hp | ⟨i, hd, hi⟩ := hp
    · rw [State.moveProvider_provider] at hp
      generalize hq₀ : s.provider = q₀ at hq
      subst hp
      cases hq with
      | loaded ho =>
        have hfail := hf _ ((State.outcome_refreshing hq₀).trans ho)
        cases hfail
    · rw [State.moveProvider_calls] at hi
      exact .inr ⟨i, hd, hi⟩
  | @call j b c e hc =>
    obtain hp | ⟨i, hd, hi⟩ := hp
    · rw [State.moveCall_provider] at hp
      exact .inl hp
    · by_cases hij : i = j
      · subst hij
        rw [State.moveCall_self] at hi
        generalize hc₀ : s.calls i = c₀ at hc
        subst hi
        cases hc with
        | loaded ho =>
          have hfail := hf _ ((State.outcome_call hc₀).trans ho)
          cases hfail
      · rw [State.moveCall_ne _ _ _ hij] at hi
        exact .inr ⟨i, hd, hi⟩

/-- While fetches fail, nothing is stored. -/
theorem stores_failed {stores : List (Load jose)} (hne : stores ≠ []) (s : State jose) (a : Act)
    (t : State jose) (hs : Inv s ∧ s.stores = stores ∧ ∀ p, ¬ s.Pending p) (hf : s.Fails a)
    (h : step s a = some t) : Inv t ∧ t.stores = stores ∧ ∀ p, ¬ t.Pending p := by
  obtain ⟨hi, hst, hp⟩ := hs
  refine ⟨hi.step s a t h, ?_, fun p hp' ↦ hp p (pending_step hf h hp')⟩
  obtain hst' | ⟨p, _, _, hfrom | hnil⟩ := stores_step hi h
  · exact hst'.trans hst
  · exact absurd (pending_of_storing hfrom) (hp p)
  · exact absurd (hst.symm.trans hnil) hne

theorem Consistent.eq_of_stores {k k' : KeySet} {stores : List (Load jose)} {starts starts' : List Time}
    (h : Consistent k stores starts) (h' : Consistent k' stores starts') :
    k'.keys = k.keys ∧ k'.generation = k.generation := by
  obtain ⟨p, rest, hp, hk⟩ := h.keys
  obtain ⟨p', rest', hp', hk'⟩ := h'.keys
  cases hp.symm.trans hp'
  exact ⟨hk'.trans hk.symm, h'.generation.trans h.generation.symm⟩

end Failure

section Verdict

variable {jose : Jose} {k k' : KeySet}

def Verifier.Cached (jose : Jose) (v : Verifier) (k : KeySet) (token : Bytes) : Prop :=
  ∀ jws h, jose.parseSignedCompact token v.algorithms = some jws → jws.signatures = [h] →
    (findKey k.keys.keys h.keyID h.algorithm).isSome = true

/-- A token whose key is cached is verified with that key, whatever the clock and the provider say. -/
theorem verifySignature_cached {jws : JSONWebSignature} (hk : k'.keys = k.keys) {now now' : Time}
    {answer answer' : Answer}
    (hc : ∀ h, jws.signatures = [h] → (findKey k.keys.keys h.keyID h.algorithm).isSome = true) :
    (k'.verifySignature jose now' answer' jws).1 = (k.verifySignature jose now answer jws).1 := by
  unfold KeySet.verifySignature
  split
  · rename_i h hs
    obtain ⟨key, hf⟩ := Option.isSome_iff_exists.mp (hc h hs)
    simp only [KeySet.keyFor, KeySet.lookup, hk, hf]
    cases jose.verify jws key <;> rfl
  · rfl

theorem verify_cached {v : Verifier} {token : Bytes} {r r' : Readings} (hk : k'.keys = k.keys)
    (hr : r'.verify = r.verify) (hc : v.Cached jose k token) :
    (v.verify jose k' r' token).1 = (v.verify jose k r token).1 := by
  unfold Verifier.verify
  cases headerAlgorithm token with
  | none => rfl
  | some alg =>
    dsimp only
    split_ifs with ha
    · cases hp : jose.parseSignedCompact token v.algorithms with
      | none => rfl
      | some jws =>
        have he : (k'.verifySignature jose r'.refresh r'.answer jws).1 =
            (k.verifySignature jose r.refresh r.answer jws).1 :=
          verifySignature_cached hk (fun h hs ↦ hc jws h hp hs)
        dsimp only
        generalize k'.verifySignature jose r'.refresh r'.answer jws = x at he ⊢
        generalize k.verifySignature jose r.refresh r.answer jws = y at he ⊢
        obtain ⟨x, k₁⟩ := x
        obtain ⟨y, k₂⟩ := y
        obtain rfl : x = y := he
        cases x with
        | error e => cases e <;> rfl
        | ok payload => exact congrArg (v.checkPayload · payload) hr
    · rfl

def Outcome.verdict (o : Outcome) : Context × Option AuthError := (o.context, o.err)

theorem authenticate_cached {a : Authenticator} {ctx : Context} {sources : Sources} {r r' : Readings}
    (hk : k'.keys = k.keys) (hr : r'.verify = r.verify)
    (hc : ∀ token, bearerToken sources = some token → a.verifier.Cached jose k token) :
    (({ a with keys := some k' } : Authenticator).authenticate jose ctx sources r').verdict =
      (({ a with keys := some k } : Authenticator).authenticate jose ctx sources r).verdict := by
  unfold Authenticator.authenticate
  cases hb : bearerToken sources with
  | none => rfl
  | some token =>
    have he := verify_cached hk hr (hc token hb)
    dsimp only
    generalize a.verifier.verify jose k' r' token = x at he ⊢
    generalize a.verifier.verify jose k r token = y at he ⊢
    obtain ⟨x, k₁⟩ := x
    obtain ⟨y, k₂⟩ := y
    obtain rfl : x = y := he
    cases x with
    | error rej => rfl
    | ok c =>
      dsimp only
      cases a.authorizer.authorize c <;> rfl

theorem authenticate_ready {a : Authenticator} {ctx : Context} {sources : Sources} {r : Readings}
    (hk : a.keys.isSome = true) : (a.authenticate jose ctx sources r).err ≠ some .notReady := by
  obtain ⟨k, hk⟩ := Option.isSome_iff_exists.mp hk
  unfold Authenticator.authenticate
  rw [hk]
  cases bearerToken sources with
  | none => exact nofun
  | some token =>
    dsimp only
    obtain ⟨x, k'⟩ := a.verifier.verify jose k r token
    cases x with
    | error rej => exact nofun
    | ok c =>
      dsimp only
      cases a.authorizer.authorize c with
      | none => exact nofun
      | some rej => exact nofun

end Verdict

/-- Over every run the key set is published once at most, after discovery and a
first load, and from then on there is one: it holds the usable keys of the
answer stored last, and fetches that fail change no verdict on a cached key. -/
theorem readiness_permanent (jose : Jose) (clock : Time) (published : Answer) (as : List Act) (s : State jose)
    (hr : run step (initial jose clock published) as = some s) :
    count step State.publishes (initial jose clock published) as ≤ 1 ∧
    (∀ a r t, s.outcome a = some r → step s a = some t → t.cache = s.cache) ∧
    ∀ k, s.cache = some k →
      .provider (.discover true) ∈ as ∧
      (∃ p ∈ s.stores, ∃ body whole raw, p.answer = .response 200 body whole ∧
        unmarshalRawField "keys" body = some raw ∧ k.keys.keys = signingKeys jose raw) ∧
      k.keys.keys ≠ [] ∧ (∀ key ∈ k.keys.keys, key.isPublic = true ∧ key.use ≠ ofString "enc") ∧
      k.generation = s.stores.length ∧
      ∀ bs t, run step s bs = some t → ∃ k', t.cache = some k' ∧
        (∀ (a : Authenticator) ctx sources r, a.keys = t.cache →
          (a.authenticate jose ctx sources r).err ≠ some .notReady) ∧
        ((∀ p, ¬ s.Pending p) → Along step State.Fails s bs →
          k'.keys = k.keys ∧ k'.generation = k.generation ∧
          ∀ (a : Authenticator) ctx sources r r', r'.verify = r.verify →
            (∀ token, bearerToken sources = some token → a.verifier.Cached jose k token) →
            (({ a with keys := t.cache } : Authenticator).authenticate jose ctx sources r').verdict =
              (({ a with keys := s.cache } : Authenticator).authenticate jose ctx sources r).verdict) := by
  have hs : Reachable s := ⟨clock, published, as, hr⟩
  have hinit := inv_initial jose clock published
  refine ⟨count_le_one Inv.step ready_step publishes_eq_false (fun _ _ _ ↦ publishes_ready) hinit as,
    fun _ _ _ ↦ cache_of_outcome, ?_⟩
  intro k hk
  have hready : s.cache.isSome = true := by
    rw [hk]
    rfl
  have hcons := hs.inv.cached k hk
  obtain ⟨p, rest, hp, hkeys⟩ := hcons.keys
  obtain ⟨body, whole, raw, ha, hraw, hsign⟩ := fetch_eq_ok p.fetched
  have hmem : p ∈ s.stores := by
    rw [hp]
    exact List.mem_cons_self
  refine ⟨discovered_of_ready hr hready, ⟨p, hmem, body, whole, raw, ha, hraw, ?_⟩, k.keys.nonempty,
    k.keys.signing, hcons.generation, ?_⟩
  · rw [hkeys, hsign]
  · intro bs t ht
    obtain ⟨_, hready'⟩ := invariant_run ready_step ⟨hs.inv, hready⟩ ht
    obtain ⟨k', hk'⟩ := Option.isSome_iff_exists.mp hready'
    refine ⟨k', hk', ?_, ?_⟩
    · intro a ctx sources r hkeys'
      exact authenticate_ready (hkeys' ▸ hready')
    · intro hpend hfail
      have hne : s.stores ≠ [] := List.ne_nil_of_mem hmem
      obtain ⟨hi', hst, _⟩ := invariant_along (stores_failed hne) ⟨hs.inv, rfl, hpend⟩ hfail ht
      have hcons' := hi'.cached k' hk'
      rw [hst] at hcons'
      obtain ⟨hke, hge⟩ := hcons.eq_of_stores hcons'
      refine ⟨hke, hge, ?_⟩
      intro a ctx sources r r' hv hc
      rw [hk, hk']
      exact authenticate_cached hke hv hc

/-- A scheduled refresh that times out leaves the keys and the generation of the first load. -/
theorem failed_refresh_keeps_keys :
    ∃ s t k k', run step exampleStart firstLoad = some s ∧ s.cache = some k ∧
      run step s [.provider .advance, .provider (.finish false)] = some t ∧ t.cache = some k' ∧
      k'.keys = k.keys ∧ k'.generation = k.generation := by
  obtain ⟨s, hs, hx⟩ := Option.map_eq_some_iff.mp (by decide +kernel : (run step exampleStart firstLoad).map
    (fun s ↦ (s.cache.isSome, s.provider.fetch,
      decide (Along step State.Fails s [.provider .advance, .provider (.finish false)]),
      (run step s [.provider .advance, .provider (.finish false)]).isSome)) = some (true, none, true, true))
  simp only [Prod.mk.injEq, decide_eq_true_eq] at hx
  obtain ⟨hk, hfetch, hfail, ht⟩ := hx
  obtain ⟨k, hk⟩ := Option.isSome_iff_exists.mp hk
  obtain ⟨t, ht⟩ := Option.isSome_iff_exists.mp ht
  have hpend : ∀ p, ¬ s.Pending p := by
    intro p hp
    obtain hp | ⟨i, h, hi⟩ := hp
    · rw [hp] at hfetch
      cases hfetch
    · have hidle : s.calls i = .idle := calls_run_of_ne (by simp [firstLoad]) hs
      cases hidle.symm.trans hi
  obtain ⟨k', hk', _, hsame⟩ := ((readiness_permanent rotationJose 0 _ _ s hs).2.2 k hk).2.2.2.2.2 _ t ht
  obtain ⟨hkeys, hgen, _⟩ := hsame hpend hfail
  exact ⟨s, t, k, k', hs, hk, ht, hk', hkeys, hgen⟩

end OtlpCollectorOidc.Auth

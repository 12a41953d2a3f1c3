import OtlpCollectorOidc.Auth.Authenticate
import OtlpCollectorOidc.Auth.Rotation

namespace OtlpCollectorOidc.Auth

open Text Number Transition

variable {jose : Jose}

def Call.found : Call jose → Option (Header × JSONWebKey)
  | .returning h (some key) | .done h (some key) => some (h, key)
  | _ => none

section Found

variable {s t : State jose} {C : Answer → Prop}

/-- Every key found is one of an answer that meets the condition. -/
def State.FoundIn (s : State jose) (C : Answer → Prop) : Prop :=
  ∀ i h key, (s.calls i).found = some (h, key) → ∃ x, C x ∧ key ∈ x.keys jose ∧ h.Names key

theorem Inv.found_in_cache (hi : Inv s) (hstores : ∀ p ∈ s.stores, C p.answer) {k : KeySet}
    (hk : s.cache = some k) {h : Header} {key : JSONWebKey}
    (hf : findKey k.keys.keys h.keyID h.algorithm = some key) :
    ∃ x, C x ∧ key ∈ x.keys jose ∧ h.Names key := by
  obtain ⟨p, rest, hp, hkeys⟩ := (hi.cached k hk).keys
  obtain ⟨hmem, hnames⟩ := findKey_eq_some hf
  refine ⟨p.answer, hstores p (by rw [hp]; exact List.mem_cons_self), ?_, hnames⟩
  rw [p.answer_keys, ← hkeys]
  exact hmem

theorem CallStep.foundIn (hi : Inv s) (hstores : ∀ p ∈ s.stores, C p.answer) (hs : s.FoundIn C)
    {i : CallId} {b : CallAct} {c : Call jose} {e : Effect jose} (hc : CallStep s i (s.calls i) b c e)
    {h : Header} {key : JSONWebKey} (hfound : c.found = some (h, key)) :
    ∃ x, C x ∧ key ∈ x.keys jose ∧ h.Names key := by
  have hbefore := hs i h key
  generalize s.calls i = c₀ at hc hbefore
  cases hc with
  | call | miss | acquire | stale | fresh | mark | start | read | failed | loaded | store => cases hfound
  | hit hk hf =>
    cases hfound
    exact hi.found_in_cache hstores hk hf
  | @look hd k hk =>
    cases hf : findKey k.keys.keys hd.keyID hd.algorithm with
    | none =>
      rw [hf] at hfound
      cases hfound
    | some key' =>
      rw [hf] at hfound
      cases hfound
      exact hi.found_in_cache hstores hk hf
  | @release hd key' =>
    cases key' with
    | none => cases hfound
    | some key' => exact hbefore hfound

/-- All keys are of answers that meet the condition: those to be stored, those stored and those found. -/
structure Sourced (C : Answer → Prop) (s : State jose) : Prop where
  inv : Inv s
  underway : ∀ f, s.Underway f → f.Since 0 C
  stores : ∀ p ∈ s.stores, p.fetch.Since 0 C
  found : s.FoundIn C

theorem Sourced.step (s : State jose) (a : Act) (t : State jose) (hs : Sourced C s) (hc : C s.published)
    (h : step s a = some t) : Sourced C t := by
  obtain ⟨hinv, hunderway, hstores⟩ := since_step s a t ⟨hs.inv, hs.underway, hs.stores⟩ hc h
  refine ⟨hinv, hunderway, hstores, ?_⟩
  intro i hd key hfound
  cases step_inv h with
  | tick | publish => exact hs.found i hd key hfound
  | provider =>
    rw [State.moveProvider_calls] at hfound
    exact hs.found i hd key hfound
  | @call j b c e hc =>
    by_cases hij : i = j
    · subst hij
      rw [State.moveCall_self] at hfound
      exact hc.foundIn hs.inv (fun p hp ↦ hs.stores p hp _ _ rfl (Nat.zero_le _)) hs.found hfound
    · rw [State.moveCall_ne _ _ _ hij] at hfound
      exact hs.found i hd key hfound

theorem sourced_initial (C : Answer → Prop) (clock : Time) (published : Answer) :
    Sourced C (initial jose clock published) := by
  refine ⟨inv_initial jose clock published, ?_, by simp [initial],
    by simp [State.FoundIn, initial, Call.found]⟩
  intro f hf
  obtain hf | ⟨i, hf⟩ := hf
  · cases hf
  · cases hf

theorem Answer.signing_keys {x : Answer} {key : JSONWebKey} (h : key ∈ x.keys jose) : key.Signing := by
  unfold Answer.keys at h
  split at h
  · rename_i keys _
    exact keys.signing key h
  · cases h

/-- A key that was found had been published when a first part of the run was over. -/
theorem found_was_published {clock : Time} {published : Answer} {as : List Act}
    (hr : run step (initial jose clock published) as = some s) {i : CallId} {h : Header} {key : JSONWebKey}
    (hfound : (s.calls i).found = some (h, key)) :
    ∃ bs u, bs <+: as ∧ run step (initial jose clock published) bs = some u ∧ key ∈ u.published.keys jose ∧
      h.Names key := by
  let C : Answer → Prop :=
    fun x ↦ ∃ bs u, bs <+: as ∧ run step (initial jose clock published) bs = some u ∧ u.published = x
  have hreached : Along step (fun t _ ↦ ∃ bs, bs <+: as ∧ run step (initial jose clock published) bs = some t)
      (initial jose clock published) as := by
    have hnone : run step (initial jose clock published) [] = some (initial jose clock published) := rfl
    exact Along.of_reached hnone as
  have hstep : ∀ (t : State jose) (a : Act) (u : State jose), Sourced C t →
      (∃ bs, bs <+: as ∧ run step (initial jose clock published) bs = some t) → step t a = some u →
          Sourced C u := by
    rintro t a u ht ⟨bs, hbs, hrun⟩ hu
    exact ht.step t a u ⟨bs, t, hbs, hrun, rfl⟩ hu
  have hsourced := invariant_along hstep (sourced_initial C clock published) hreached hr
  obtain ⟨_, ⟨bs, u, hbs, hrun, rfl⟩, hmem, hnames⟩ := hsourced.found i h key hfound
  exact ⟨bs, u, hbs, hrun, hmem, hnames⟩

end Found

section Verify

/-- What `verify` makes of the key that its call returns. -/
def Verifier.conclude (jose : Jose) (v : Verifier) (now : Time) (jws : JSONWebSignature) :
    Option JSONWebKey → Except RejectionError Claims
  | none => .error (invalidToken .unknownKey)
  | some key =>
    match jose.verify jws key with
    | none => .error (invalidToken .signature)
    | some payload => v.checkPayload now payload

def Verifier.verifyFound (jose : Jose) (v : Verifier) (now : Time) (found : Header → Option JSONWebKey)
    (token : Bytes) :
    Except RejectionError Claims :=
  match headerAlgorithm token with
  | none => .error (invalidToken .malformed)
  | some alg =>
    if alg ∈ v.algorithms then
      match jose.parseSignedCompact token v.algorithms with
      | none => .error (invalidToken .malformed)
      | some jws =>
        match jws.signatures with
        | [h] => v.conclude jose now jws (found h)
        | _ => .error (invalidToken .signature)
    else .error (invalidToken .algorithm)

theorem verify_fst (v : Verifier) (k : KeySet) (r : Readings) (token : Bytes) : (v.verify jose k r token).1 =
    v.verifyFound jose r.verify (fun h ↦ (k.keyFor jose r.refresh r.answer h).1) token := by
  unfold Verifier.verify Verifier.verifyFound
  cases headerAlgorithm token with
  | none => rfl
  | some alg =>
    dsimp only
    split_ifs with halg
    · cases jose.parseSignedCompact token v.algorithms with
      | none => rfl
      | some jws =>
        dsimp only
        rcases hs : jws.signatures with _ | ⟨h, _ | ⟨h', hs'⟩⟩
        · simp only [KeySet.verifySignature, hs]
        · simp only [KeySet.verifySignature, hs]
          rcases k.keyFor jose r.refresh r.answer h with ⟨_ | key, k'⟩
          · rfl
          · dsimp only [Verifier.conclude]
            cases jose.verify jws key <;> rfl
        · simp only [KeySet.verifySignature, hs]
    · rfl

theorem verifyFound_eq_ok {v : Verifier} {now : Time} {found : Header → Option JSONWebKey}
    {token : Bytes} {c : Claims} (h : v.verifyFound jose now found token = .ok c) :
      ∃ alg jws hd key payload, headerAlgorithm token = some alg ∧ alg ∈ v.algorithms ∧
        jose.parseSignedCompact token v.algorithms = some jws ∧ jws.signatures = [hd] ∧
      found hd = some key ∧ jose.verify jws key = some payload ∧ decodeClaims payload = some c ∧
      registered v now c = none := by
  unfold Verifier.verifyFound at h
  cases halg : headerAlgorithm token with
  | none =>
    rw [halg] at h
    cases h
  | some alg =>
    rw [halg] at h
    dsimp only at h
    split_ifs at h with hmem
    cases hjws : jose.parseSignedCompact token v.algorithms with
    | none =>
      rw [hjws] at h
      cases h
    | some jws =>
      rw [hjws] at h
      dsimp only at h
      split at h
      · rename_i hd hs
        cases hkey : found hd with
        | none =>
          rw [hkey] at h
          cases h
        | some key =>
          rw [hkey, Verifier.conclude] at h
          cases hpayload : jose.verify jws key with
          | none =>
            rw [hpayload] at h
            cases h
          | some payload =>
            rw [hpayload] at h
            obtain ⟨hc, hr⟩ := checkPayload_eq_ok h
            exact ⟨alg, jws, hd, key, payload, rfl, hmem, rfl, hs, hkey, hpayload, hc, hr⟩
      · cases h

end Verify

def State.returned (s : State jose) (i : CallId) (h : Header) : Option JSONWebKey :=
  match (s.calls i).found with
  | some (h', key) => if h' = h then some key else none
  | none => none

theorem found_of_returned {s : State jose} {i : CallId} {h : Header} {key : JSONWebKey}
    (hk : s.returned i h = some key) :
    (s.calls i).found = some (h, key) := by
  unfold State.returned at hk
  split at hk
  · rename_i h' key' hf
    split_ifs at hk with heq
    rw [hf, heq, Option.some.inj hk]
  · cases hk

/-- However requests, refreshes and what the provider publishes interleave, a request is let through
only with a token that keeps every rule and whose signature is by a key the provider had published
before. -/
theorem admitted_under_published_key (jose : Jose) (hj : jose.Documented) (cfg : Config)
    (hv : cfg.Valid) (clock : Time) (published : Answer) (as : List Act) (s : State jose)
    (hr : run step (initial jose clock published) as = some s) (i : CallId) (now : Time)
    (token : Bytes) (c : Claims)
    (hverified : Verifier.verifyFound jose ⟨cfg.issuerURL, cfg.audience, cfg.algorithms, cfg.clockSkew⟩ now
      (s.returned i) token =
      .ok c) (hauthorized : Authorizer.authorize ⟨cfg.requiredScope, cfg.requiredClaims⟩ c = none) :
    ClaimsAccepted cfg now c ∧ ∃ bs u, bs <+: as ∧ run step (initial jose clock published) bs = some u ∧
      SignatureAccepted jose cfg (u.published.keys jose) token c := by
  obtain ⟨alg, jws, hd, key, payload, halg, hmem, hjws, hs, hkey, hpayload, hc, hregistered⟩ :=
    verifyFound_eq_ok hverified
  obtain ⟨bs, u, hbs, hrun, hpublished, hkid, hid, halg'⟩ := found_was_published hr (found_of_returned hkey)
  refine ⟨claimsAccepted hv hregistered hauthorized, bs, u, hbs, hrun, ⟨alg, halg, hmem⟩, hv.supported, ?_⟩
  obtain ⟨hd', hs', hmem'⟩ := hj.signature hjws
  cases hs.symm.trans hs'
  obtain ⟨hpublic, huse⟩ := Answer.signing_keys hpublished
  exact ⟨jws, hd, key, payload, hjws, hs, hmem', hkid, hpublished, hid, hpublic, huse, halg', hpayload, hc⟩

def aliceRun : List Act := firstLoad ++ [.call 0 (.call rotatedIn), .call 0 .advance]

theorem alice_admitted_under_published_key :
    ∃ s c, run step (initial (exampleJose aliceToken) 0 rotated) aliceRun = some s ∧
      exampleAuthenticator.verifier.verifyFound (exampleJose aliceToken) exampleReadings.verify
        (s.returned 0) aliceToken.compact =
        .ok c ∧
      ∃ bs u, bs <+: aliceRun ∧ run step (initial (exampleJose aliceToken) 0 rotated) bs = some u ∧
        SignatureAccepted (exampleJose aliceToken) exampleConfig
          (u.published.keys (exampleJose aliceToken)) aliceToken.compact c := by
  obtain ⟨s, hs, hx⟩ := Option.map_eq_some_iff.mp (by decide +kernel :
    (run step (initial (exampleJose aliceToken) 0 rotated) aliceRun).map (fun s ↦
      (exampleAuthenticator.verifier.verifyFound
        (exampleJose aliceToken) exampleReadings.verify (s.returned 0)
        aliceToken.compact).toOption.map (fun c ↦ (exampleAuthenticator.authorizer.authorize c).isNone)) =
          some (some true))
  obtain ⟨c, hc, hauthorized⟩ := Option.map_eq_some_iff.mp hx
  have hverified : exampleAuthenticator.verifier.verifyFound
    (exampleJose aliceToken) exampleReadings.verify (s.returned 0)
      aliceToken.compact = .ok c := by
    cases hv : exampleAuthenticator.verifier.verifyFound
      (exampleJose aliceToken) exampleReadings.verify (s.returned 0)
      aliceToken.compact with
    | error e =>
      rw [hv] at hc
      cases hc
    | ok c' =>
      rw [hv] at hc
      rw [Option.some.inj hc]
  refine ⟨s, c, hs, hverified, ?_⟩
  exact (admitted_under_published_key (exampleJose aliceToken)
    (exampleJose_documented aliceToken (by decide +kernel) (by decide)) exampleConfig exampleConfig_valid 0
      rotated aliceRun s hs
    0 exampleReadings.verify aliceToken.compact c hverified (Option.isNone_iff_eq_none.mp hauthorized)).2

end OtlpCollectorOidc.Auth

import OtlpCollectorOidc.Auth.Identity
import OtlpCollectorOidc.Auth.KeySet

namespace OtlpCollectorOidc.Auth

open Text Number Json

abbrev Sources := List (Bytes × List Bytes)

def authorizationValues (sources : Sources) : List Bytes :=
  sources.flatMap (fun kv ↦ if equalFold kv.1 "authorization" then kv.2 else [])

def bearerToken (sources : Sources) : Option Bytes :=
  match authorizationValues sources with
  | [value] =>
    match cut 0x20 value with
    | some (scheme, token) =>
      if equalFold scheme "bearer" ∧ trimSpace token ≠ [] then some (trimSpace token) else none
    | none => none
  | _ => none

def headerAlgorithm (token : Bytes) : Option Bytes :=
  match token.splitOn 0x2E with
  | [header, _, _] =>
    match (decodeString header).bind unmarshal with
    | some (.obj ms) => (stringField "alg" ms).filter (· ≠ [])
    | _ => none
  | _ => none

/-- What a request may read while it is decided: the clock at `refreshFor`, at
`registered` and at `record`, and how a JWKS request it causes ends. -/
structure Readings where
  refresh : Time
  verify : Time
  record : Time
  answer : Answer

def Verifier.checkPayload (v : Verifier) (now : Time) (payload : Bytes) : Except RejectionError Claims :=
  match decodeClaims payload with
  | none => .error (invalidToken .malformed)
  | some c =>
    match registered v now c with
    | some f => .error (invalidToken f)
    | none => .ok c

def Verifier.verify (jose : Jose) (v : Verifier) (keys : KeySet) (r : Readings) (token : Bytes) :
    Except RejectionError Claims × KeySet :=
  match headerAlgorithm token with
  | none => (.error (invalidToken .malformed), keys)
  | some alg =>
    if alg ∈ v.algorithms then
      match jose.parseSignedCompact token v.algorithms with
      | none => (.error (invalidToken .malformed), keys)
      | some jws =>
        match keys.verifySignature jose r.refresh r.answer jws with
        | (.error .unknownKey, keys) => (.error (invalidToken .unknownKey), keys)
        | (.error .badSignature, keys) => (.error (invalidToken .signature), keys)
        | (.ok payload, keys) => (v.checkPayload r.verify payload, keys)
    else (.error (invalidToken .algorithm), keys)

structure Context where
  addr : Bytes
  metadata : List (Bytes × List Bytes)
  auth : Option AuthData

inductive AuthError where
  | notReady
  | rejected (rej : RejectionError)
  deriving DecidableEq

def AuthError.error : AuthError → Bytes
  | .notReady => errNotReady
  | .rejected rej => rej.error

def AuthError.reason : AuthError → Reason
  | .notReady => .notReady
  | .rejected rej => rej.reason

structure Authenticator where
  verifier : Verifier
  authorizer : Authorizer
  claimAttributes : Attributes
  resourceAttributes : Attributes
  rejections : Rejections
  keys : Option KeySet := none

def newAuthenticator (cfg : Config) : Except ConfigError Authenticator :=
  cfg.allowlist.map (fun algorithms ↦
    { verifier := ⟨cfg.issuerURL, cfg.audience, algorithms, cfg.clockSkew⟩
      authorizer := ⟨cfg.requiredScope, cfg.requiredClaims⟩
      claimAttributes := cfg.claimAttributes
      resourceAttributes := cfg.resourceAttributes
      rejections := { interval := cfg.rejectionLogInterval } })

structure Outcome where
  context : Context
  err : Option AuthError
  next : Authenticator

namespace Authenticator

def refuse (a : Authenticator) (ctx : Context) (now : Time) (err : AuthError) : Outcome where
  context := ctx
  err := some err
  next := { a with rejections := a.rejections.record now err.reason err.error }

def authenticate (jose : Jose) (a : Authenticator) (ctx : Context) (sources : Sources) (r : Readings) :
    Outcome :=
  match bearerToken sources with
  | none => a.refuse ctx r.record (.rejected noToken)
  | some token =>
    match a.keys with
    | none => a.refuse ctx r.record .notReady
    | some keys =>
      match a.verifier.verify jose keys r token with
      | (.error rej, keys') => { a with keys := some keys' }.refuse ctx r.record (.rejected rej)
      | (.ok c, keys') =>
        match a.authorizer.authorize c with
        | some rej => { a with keys := some keys' }.refuse ctx r.record (.rejected rej)
        | none =>
          { context := { ctx with auth := some (newAuthData c a.claimAttributes a.resourceAttributes) }
            err := none
            next := { a with keys := some keys' } }

end Authenticator

theorem bearerToken_eq_some {sources : Sources} {token : Bytes} (h : bearerToken sources = some token) :
    ∃ value scheme rest, authorizationValues sources = [value] ∧ cut 0x20 value = some (scheme, rest) ∧
      equalFold scheme "bearer" = true ∧ token = trimSpace rest ∧ token ≠ [] := by
  unfold bearerToken at h
  split at h
  · rename_i value hv
    split at h
    · rename_i scheme rest hc
      split_ifs at h with hs
      cases h
      exact ⟨value, scheme, rest, hv, hc, hs.1, rfl, hs.2⟩
    · cases h
  · cases h

section Verify

variable {jose : Jose} {k k' : KeySet} {now : Time} {answer : Answer}

theorem refreshFor_found {kid alg : Bytes} {generation : ℕ} {key : JSONWebKey}
    (h : k.refreshFor jose now answer kid alg generation = (some key, k')) :
    findKey k'.keys.keys kid alg = some key := by
  unfold KeySet.refreshFor at h
  split_ifs at h with hs
  · split at h
    · cases (Prod.mk.inj h).1
    · obtain ⟨hk, rfl⟩ := Prod.mk.inj h
      exact hk
  · obtain ⟨hk, rfl⟩ := Prod.mk.inj h
    exact hk

theorem keyFor_found {h : Header} {key : JSONWebKey} (hk : k.keyFor jose now answer h = (some key, k')) :
    findKey k'.keys.keys h.keyID h.algorithm = some key := by
  unfold KeySet.keyFor at hk
  split at hk
  · rename_i key' g hl
    obtain ⟨he, rfl⟩ := Prod.mk.inj hk
    exact (congrArg Prod.fst hl).trans he
  · exact refreshFor_found hk

theorem verifySignature_eq_ok {jws : JSONWebSignature} {payload : Bytes}
    (h : k.verifySignature jose now answer jws = (.ok payload, k')) :
    ∃ hd key, jws.signatures = [hd] ∧ findKey k'.keys.keys hd.keyID hd.algorithm = some key ∧
      jose.verify jws key = some payload := by
  unfold KeySet.verifySignature at h
  split at h
  · rename_i hd hs
    split at h
    · cases (Prod.mk.inj h).1
    · rename_i key k'' hk
      split at h
      · cases (Prod.mk.inj h).1
      · rename_i p hv
        obtain ⟨hp, rfl⟩ := Prod.mk.inj h
        cases hp
        exact ⟨hd, key, hs, keyFor_found hk, hv⟩
  · cases (Prod.mk.inj h).1

theorem checkPayload_eq_ok {v : Verifier} {payload : Bytes} {c : Claims}
    (h : v.checkPayload now payload = .ok c) :
    decodeClaims payload = some c ∧ registered v now c = none := by
  unfold Verifier.checkPayload at h
  split at h
  · cases h
  · rename_i c' hd
    split at h
    · cases h
    · rename_i hr
      cases h
      exact ⟨hd, hr⟩

theorem verify_eq_ok {v : Verifier} {r : Readings} {token : Bytes} {c : Claims}
    (h : v.verify jose k r token = (.ok c, k')) :
    ∃ alg jws hd key payload, headerAlgorithm token = some alg ∧ alg ∈ v.algorithms ∧
      jose.parseSignedCompact token v.algorithms = some jws ∧ jws.signatures = [hd] ∧
      findKey k'.keys.keys hd.keyID hd.algorithm = some key ∧ jose.verify jws key = some payload ∧
      decodeClaims payload = some c ∧ registered v r.verify c = none := by
  unfold Verifier.verify at h
  split at h
  · cases (Prod.mk.inj h).1
  · rename_i alg halg
    split_ifs at h with hmem
    · split at h
      · cases (Prod.mk.inj h).1
      · rename_i jws hjws
        split at h
        · cases (Prod.mk.inj h).1
        · cases (Prod.mk.inj h).1
        · rename_i payload k'' hsig
          obtain ⟨hc, rfl⟩ := Prod.mk.inj h
          obtain ⟨hd, key, hs, hf, hv⟩ := verifySignature_eq_ok hsig
          obtain ⟨hdec, hreg⟩ := checkPayload_eq_ok hc
          exact ⟨alg, jws, hd, key, payload, halg, hmem, hjws, hs, hf, hv, hdec, hreg⟩
    · cases (Prod.mk.inj h).1

end Verify

/-- An authenticator built from the configuration, whatever it has cached and recorded since. -/
def Authenticator.Configured (a : Authenticator) (cfg : Config) : Prop :=
  ∃ a₀, newAuthenticator cfg = .ok a₀ ∧ a = { a₀ with keys := a.keys, rejections := a.rejections }

theorem Authenticator.Configured.fields {a : Authenticator} {cfg : Config} (h : a.Configured cfg)
    (hv : cfg.Valid) :
    a.verifier = ⟨cfg.issuerURL, cfg.audience, cfg.algorithms, cfg.clockSkew⟩ ∧
      a.authorizer = ⟨cfg.requiredScope, cfg.requiredClaims⟩ ∧
      a.claimAttributes = cfg.claimAttributes ∧ a.resourceAttributes = cfg.resourceAttributes := by
  obtain ⟨a₀, ha₀, he⟩ := h
  rw [newAuthenticator, hv.allowlist_eq] at ha₀
  cases ha₀
  rw [he]
  exact ⟨rfl, rfl, rfl, rfl⟩

structure ClaimsAccepted (cfg : Config) (now : Time) (c : Claims) : Prop where
  iss : c.get "iss" = some (.str cfg.issuerURL)
  aud : c.get "aud" = some (.str cfg.audience) ∨
    ∃ xs, c.get "aud" = some (.arr xs) ∧ .str cfg.audience ∈ xs
  exp : ∃ f, c.get "exp" = some (.num f) ∧ now < instant f + cfg.clockSkew
  nbf : ∀ v, c.get "nbf" = some v → ∃ f, v = .num f ∧ instant f ≤ now + cfg.clockSkew
  iat : ∀ v, c.get "iat" = some v → ∃ f, v = .num f ∧ instant f ≤ now + cfg.clockSkew
  scope : (∃ s, c.get "scope" = some (.str s) ∧ cfg.requiredScope ∈ fields s) ∨
    (∃ s, c.get "scp" = some (.str s) ∧ cfg.requiredScope ∈ fields s) ∨
    ∃ xs, c.get "scp" = some (.arr xs) ∧ .str cfg.requiredScope ∈ xs
  required : ∀ name ∈ cfg.requiredClaims,
    ∃ v, c.get name = some v ∧ v ≠ .null ∧ v ≠ .str [] ∧ v ≠ .arr [] ∧ v ≠ .obj []

/-- The signature part of an accepted token: `keys` are the cached keys, and
the claims are those of the payload the signature covers. -/
structure SignatureAccepted (jose : Jose) (cfg : Config) (keys : List JSONWebKey) (token : Bytes)
    (c : Claims) : Prop where
  alg : ∃ alg, headerAlgorithm token = some alg ∧ alg ∈ cfg.algorithms
  supported : ∀ alg ∈ cfg.algorithms, alg ∈ supportedAlgorithms
  verified : ∃ jws h key payload, jose.parseSignedCompact token cfg.algorithms = some jws ∧
    jws.signatures = [h] ∧ h.algorithm ∈ cfg.algorithms ∧ h.keyID ≠ [] ∧
    key ∈ keys ∧ key.keyID = h.keyID ∧ key.isPublic = true ∧ key.use ≠ ofString "enc" ∧
    (key.algorithm = [] ∨ key.algorithm = h.algorithm) ∧ jose.verify jws key = some payload ∧
    decodeClaims payload = some c

theorem claimsAccepted {cfg : Config} (hv : cfg.Valid) {now : Time} {c : Claims}
    (hr : registered ⟨cfg.issuerURL, cfg.audience, cfg.algorithms, cfg.clockSkew⟩ now c = none)
    (ha : Authorizer.authorize ⟨cfg.requiredScope, cfg.requiredClaims⟩ c = none) :
    ClaimsAccepted cfg now c := by
  obtain ⟨hiss, haud, hexp, hnbf, hiat⟩ := registered_eq_none.mp hr
  obtain ⟨hscope, hreq⟩ := authorize_eq_none.mp ha
  exact {
    -- An absent iss reads as the empty string, which no accepted configuration expects.
    iss := stringClaim_eq (checkIss_eq_none.mp hiss) hv.issuer_ne
    aud := audienceContains_iff.mp (checkAud_eq_none.mp haud)
    exp := checkExp_eq_none.mp hexp
    nbf := checkNotAfter_eq_none.mp hnbf
    iat := checkNotAfter_eq_none.mp hiat
    scope := grantsScope_iff.mp hscope
    required := fun name hn ↦ nonEmpty_iff.mp (hreq name hn) }

theorem signatureAccepted {jose : Jose} (hj : jose.Documented) {cfg : Config} (hv : cfg.Valid)
    {k k' : KeySet} {r : Readings} {token : Bytes} {c : Claims}
    (h : Verifier.verify jose ⟨cfg.issuerURL, cfg.audience, cfg.algorithms, cfg.clockSkew⟩ k r token =
      (.ok c, k')) : SignatureAccepted jose cfg k'.keys.keys token c := by
  obtain ⟨alg, jws, hd, key, payload, halg, hmem, hjws, hs, hf, hver, hdec, _⟩ := verify_eq_ok h
  obtain ⟨hd', hs', hmem'⟩ := hj.signature hjws
  cases hs.symm.trans hs'
  obtain ⟨hkey, hkid, hid, halg'⟩ := findKey_eq_some hf
  obtain ⟨hpub, huse⟩ := k'.keys.signing key hkey
  exact ⟨⟨alg, halg, hmem⟩, hv.supported, jws, hd, key, payload, hjws, hs, hmem', hkid, hkey, hid,
    hpub, huse, halg', hver, hdec⟩

theorem refuse_spec (a : Authenticator) (ctx : Context) (now : Time) (e e' : AuthError)
    (h : (a.refuse ctx now e).err = some e') :
    (a.refuse ctx now e).context = ctx ∧ (a.refuse ctx now e).next.rejections.counter =
      Function.update a.rejections.counter e'.reason (a.rejections.counter e'.reason + 1) := by
  cases h
  exact ⟨rfl, Rejections.record_counter _ _ _ _⟩

/-- Authentication fails closed: an authenticated context comes only of a token
that keeps every rule, and any other request leaves its context alone and is
counted once. -/
theorem authenticate_fails_closed (jose : Jose) (hj : jose.Documented) (cfg : Config) (hv : cfg.Valid)
    (a : Authenticator) (ha : a.Configured cfg) (ctx : Context) (sources : Sources) (r : Readings) :
    ((a.authenticate jose ctx sources r).err = none →
      ∃ value scheme rest token c k, authorizationValues sources = [value] ∧
        value = scheme ++ 0x20 :: rest ∧ equalFold scheme "bearer" = true ∧
        token = trimSpace rest ∧ token ≠ [] ∧
        a.keys.isSome = true ∧ (a.authenticate jose ctx sources r).next.keys = some k ∧
        SignatureAccepted jose cfg k.keys.keys token c ∧ ClaimsAccepted cfg r.verify c ∧
        (a.authenticate jose ctx sources r).context =
          { ctx with auth := some (newAuthData c cfg.claimAttributes cfg.resourceAttributes) } ∧
        (a.authenticate jose ctx sources r).next.rejections = a.rejections) ∧
    ∀ e, (a.authenticate jose ctx sources r).err = some e →
      (a.authenticate jose ctx sources r).context = ctx ∧
      (a.authenticate jose ctx sources r).next.rejections.counter =
        Function.update a.rejections.counter e.reason (a.rejections.counter e.reason + 1) := by
  obtain ⟨hver, hauth, hclaims, hres⟩ := ha.fields hv
  unfold Authenticator.authenticate
  cases hb : bearerToken sources with
  | none => exact ⟨fun h ↦ (nomatch h), fun e he ↦ refuse_spec _ _ _ _ _ he⟩
  | some token =>
    cases hk : a.keys with
    | none => exact ⟨fun h ↦ (nomatch h), fun e he ↦ refuse_spec _ _ _ _ _ he⟩
    | some keys =>
      dsimp only
      rcases hvf : a.verifier.verify jose keys r token with ⟨rej | c, k⟩
      · exact ⟨fun h ↦ (nomatch h), fun e he ↦ refuse_spec _ _ _ _ _ he⟩
      · dsimp only
        cases haz : a.authorizer.authorize c with
        | some rej => exact ⟨fun h ↦ (nomatch h), fun e he ↦ refuse_spec _ _ _ _ _ he⟩
        | none =>
          refine ⟨fun _ ↦ ?_, fun e he ↦ (nomatch he)⟩
          obtain ⟨value, scheme, rest, hvals, hval, hsch, htok, hne⟩ := bearerToken_eq_some hb
          rw [hver] at hvf
          rw [hauth] at haz
          obtain ⟨_, _, _, _, _, _, _, _, _, _, _, _, hreg⟩ := verify_eq_ok hvf
          rw [hclaims, hres]
          exact ⟨value, scheme, rest, token, c, k, hvals, (cut_eq_some hval).1, hsch, htok, hne, rfl, rfl,
            signatureAccepted hj hv hvf, claimsAccepted hv hreg haz, rfl, rfl⟩

def publishedKeys : KeySet := newKeySet ⟨[publishedKey], by decide, by decide⟩

def exampleAuthenticator : Authenticator where
  verifier :=
    ⟨exampleConfig.issuerURL, exampleConfig.audience, exampleConfig.algorithms, exampleConfig.clockSkew⟩
  authorizer := ⟨exampleConfig.requiredScope, exampleConfig.requiredClaims⟩
  claimAttributes := exampleConfig.claimAttributes
  resourceAttributes := exampleConfig.resourceAttributes
  rejections := { interval := exampleConfig.rejectionLogInterval }
  keys := some publishedKeys

theorem exampleAuthenticator_configured : exampleAuthenticator.Configured exampleConfig :=
  ⟨{ exampleAuthenticator with keys := none },
    by rw [newAuthenticator, exampleConfig_valid.allowlist_eq]; rfl, rfl⟩

def signedToken (claims segment signature : Bytes) : JSONWebSignature where
  signatures := [⟨"k1", "ES256"⟩]
  payload := claims
  compact :=
    ofString "eyJhbGciOiJFUzI1NiIsImtpZCI6ImsxIn0." ++ segment ++ ofString "." ++ signature

def aliceToken : JSONWebSignature := signedToken
  (ofString "\x7b\"iss\":\"https://id.example\",\"aud\":\"collector\",\"exp\":2000000000," ++
    ofString "\"scope\":\"telemetry:write\",\"sub\":\"u1\",\"preferred_username\":\"alice\"\x7d")
  (ofString "eyJpc3MiOiJodHRwczovL2lkLmV4YW1wbGUiLCJhdWQiOiJjb2xsZWN0b3IiLCJleHAiOjIwMDAwMDAw" ++
    ofString "MDAsInNjb3BlIjoidGVsZW1ldHJ5OndyaXRlIiwic3ViIjoidTEiLCJwcmVmZXJyZWRfdXNlcm5hbWUiOiJhbGljZSJ9")
  "bTymzFPU7qcTq0u4EIrnqHRYS8fkndSK3kmeKG-TgUwJ78hKrdMMhoqRKSI0zUzRxejpwQ5WrlmGJI4OZWK3-A"

def exampleJose (jws : JSONWebSignature) : Jose := providerJose [(publishedText, publishedKey)] [jws]

def exampleSources (jws : JSONWebSignature) : Sources :=
  [("Authorization", [ofString "Bearer " ++ jws.compact])]

def exampleContext : Context := { addr := "192.0.2.7", metadata := [], auth := none }

def exampleReadings : Readings where
  refresh := 1900000000 * second
  verify := 1900000000 * second
  record := 1900000000 * second
  answer := .failed

theorem exampleJose_documented (jws : JSONWebSignature)
    (hs : (jws.compact.splitOn 0x2E).length = 3 ∧
      ∀ segment ∈ jws.compact.splitOn 0x2E, isBase64URL segment = true)
    (hh : jws.signatures.length = 1) : (exampleJose jws).Documented := by
  apply providerJose_documented
  · intro x hx
    rw [List.mem_singleton.mp hx]
    exact hs
  · intro x hx
    rw [List.mem_singleton.mp hx]
    exact hh
  · intro x hx y hy _
    rw [List.mem_singleton.mp hx, List.mem_singleton.mp hy]

theorem alice_authenticated :
    (exampleAuthenticator.authenticate (exampleJose aliceToken) exampleContext (exampleSources aliceToken)
      exampleReadings).err = none ∧
    ∃ (token : Bytes) (c : Claims) (k : KeySet), token ≠ [] ∧
      SignatureAccepted (exampleJose aliceToken) exampleConfig k.keys.keys token c ∧
      ClaimsAccepted exampleConfig exampleReadings.verify c ∧
      (exampleAuthenticator.authenticate (exampleJose aliceToken) exampleContext (exampleSources aliceToken)
        exampleReadings).context = { exampleContext with
          auth := some (newAuthData c exampleConfig.claimAttributes exampleConfig.resourceAttributes) } := by
  have herr : (exampleAuthenticator.authenticate (exampleJose aliceToken) exampleContext
      (exampleSources aliceToken) exampleReadings).err = none := by decide +kernel
  obtain ⟨_, _, _, token, c, k, _, _, _, _, hne, _, _, hs, hc, hctx, _⟩ :=
    (authenticate_fails_closed (exampleJose aliceToken)
      (exampleJose_documented aliceToken (by decide +kernel) (by decide)) exampleConfig exampleConfig_valid
      exampleAuthenticator exampleAuthenticator_configured exampleContext (exampleSources aliceToken)
      exampleReadings).1 herr
  exact ⟨herr, token, c, k, hne, hs, hc, hctx⟩

end OtlpCollectorOidc.Auth

import OtlpCollectorOidc.Auth.Undisturbed
import OtlpCollectorOidc.Receiver.Export
import OtlpCollectorOidc.Receiver.Listener
import OtlpCollectorOidc.Render.Pipeline

namespace OtlpCollectorOidc

open Text Maps
open Auth (Authenticator Claims Jose JSONWebKey KeySet Readings Sources Verifier bearerToken
  newAuthData nonEmptyString
  ClaimsAccepted SignatureAccepted)
open Receiver (Incoming Listener exported)
open Render (Bounds ClientRequest IdentitySettings Record ResourceRecords ScopeRecords Stamped exists_runChain
  identityProcessors
  mem_runChain_scopes runChain runChain_identity stamped)

def Auth.Authenticator.admitted (jose : Jose) (a : Authenticator) (sources : Sources) (r : Readings) :
    Option Claims := do
  let token ← bearerToken sources
  let keys ← a.keys
  (a.verifier.verify jose keys r token).1.toOption.filter (fun c ↦ (a.authorizer.authorize c).isNone)

/-- What `Authenticate` returns and leaves, for a request that it lets through or refuses. -/
inductive Decides (jose : Jose) (a : Authenticator) (ctx : Auth.Context) (sources : Sources) (r : Readings) :
    Auth.Outcome → Prop
  | admits {token : Bytes} {keys keys' : KeySet} {c : Claims} (hkeys : a.keys = some keys)
      (htoken : bearerToken sources = some token)
      (hverify : a.verifier.verify jose keys r token = (.ok c, keys'))
      (hauthorize : a.authorizer.authorize c = none) (hadmitted : a.admitted jose sources r = some c) :
      Decides jose a ctx sources r
        ⟨{ ctx with auth := some (newAuthData c a.claimAttributes a.resourceAttributes) }, none,
          { a with keys := some keys' }⟩
  | refuses {e : Auth.AuthError} {keys' : Option KeySet}
      (hkeys : keys' = a.keys ∨ ∃ keys token, a.keys = some keys ∧
        keys' = some (a.verifier.verify jose keys r token).2)
      (hadmitted : a.admitted jose sources r = none) :
      Decides jose a ctx sources r ({ a with keys := keys' }.refuse ctx r.record e)

section Authenticate

variable {jose : Jose}

theorem decides_authenticate (jose : Jose) (a : Authenticator) (ctx : Auth.Context) (sources : Sources)
    (r : Readings) :
    Decides jose a ctx sources r (a.authenticate jose ctx sources r) := by
  unfold Authenticator.authenticate
  cases htoken : bearerToken sources with
  | none => exact .refuses (Or.inl rfl) (by simp [Authenticator.admitted, htoken])
  | some token =>
    cases hkeys : a.keys with
    | none =>
      -- The set is left as it is: without its name the update of the record is not found.
      refine @Decides.refuses jose a ctx sources r .notReady a.keys (Or.inl rfl) ?_
      simp [Authenticator.admitted, htoken, hkeys]
    | some keys =>
      dsimp only
      rcases hverify : a.verifier.verify jose keys r token with ⟨rej | c, keys'⟩
      · refine .refuses (Or.inr ⟨keys, token, hkeys, by rw [hverify]⟩) ?_
        simp [Authenticator.admitted, htoken, hkeys, hverify, Except.toOption]
      · dsimp only
        cases hauthorize : a.authorizer.authorize c with
        | some rej =>
          refine .refuses (Or.inr ⟨keys, token, hkeys, by rw [hverify]⟩) ?_
          simp [Authenticator.admitted, htoken, hkeys, hverify, Except.toOption, hauthorize]
        | none =>
          refine .admits hkeys htoken hverify hauthorize ?_
          simp [Authenticator.admitted, htoken, hkeys, hverify, Except.toOption, hauthorize]

theorem Decides.configured {a : Authenticator} {ctx : Auth.Context} {sources : Sources} {r : Readings}
    {out : Auth.Outcome} (h : Decides jose a ctx sources r out) {cfg : Auth.Config} (ha : a.Configured cfg) :
    out.next.Configured cfg := by
  obtain ⟨a₀, ha₀, he⟩ := ha
  refine ⟨a₀, ha₀, ?_⟩
  cases h with
  | admits => rw [he]
  | refuses => rw [he]; rfl

theorem mem_keyFor {k : KeySet} {now : Number.Time} {answer : Auth.Answer} {h : Auth.Header}
    {key : JSONWebKey} (hkey : key ∈ (k.keyFor jose now answer h).2.keys.keys) :
    key ∈ k.keys.keys ∨ key ∈ answer.keys jose := by
  cases hf : Auth.findKey k.keys.keys h.keyID h.algorithm with
  | some found =>
    rw [Auth.keyFor_hit hf] at hkey
    exact Or.inl hkey
  | none =>
    rw [Auth.keyFor_miss hf] at hkey
    cases hs : k.stale now k.generation with
    | false =>
      rw [Auth.refreshFor_fresh hs] at hkey
      exact Or.inl hkey
    | true =>
      rw [Auth.refreshFor_stale hs] at hkey
      cases hfetch : Auth.fetch jose answer with
      | error e =>
        rw [Auth.refetch_error hfetch] at hkey
        exact Or.inl hkey
      | ok keys =>
        rw [Auth.refetch_ok hfetch] at hkey
        rw [Auth.Answer.keys, hfetch]
        exact Or.inr hkey

theorem verify_snd (v : Verifier) (k : KeySet) (r : Readings) (token : Bytes) :
    (v.verify jose k r token).2 = k ∨
      ∃ h, (v.verify jose k r token).2 = (k.keyFor jose r.refresh r.answer h).2 := by
  unfold Verifier.verify
  cases Auth.headerAlgorithm token with
  | none => exact Or.inl rfl
  | some alg =>
    dsimp only
    split_ifs
    · cases jose.parseSignedCompact token v.algorithms with
      | none => exact Or.inl rfl
      | some jws =>
        dsimp only
        rcases hs : jws.signatures with _ | ⟨h, _ | ⟨h', hs'⟩⟩
        · simp [KeySet.verifySignature, hs]
        · right
          refine ⟨h, ?_⟩
          simp only [KeySet.verifySignature, hs]
          rcases k.keyFor jose r.refresh r.answer h with ⟨_ | key, k'⟩
          · rfl
          · dsimp only
            cases jose.verify jws key <;> rfl
        · simp [KeySet.verifySignature, hs]
    · exact Or.inl rfl

/-- A key in the set that verification leaves was in it before or is in the answer it fetched. -/
theorem mem_verify {v : Verifier} {k : KeySet} {r : Readings} {token : Bytes} {key : JSONWebKey}
    (h : key ∈ (v.verify jose k r token).2.keys.keys) : key ∈ k.keys.keys ∨ key ∈ r.answer.keys jose := by
  obtain hk | ⟨hd, hk⟩ := verify_snd v k r token
  · rw [hk] at h
    exact Or.inl h
  · rw [hk] at h
    exact mem_keyFor h

def Auth.Authenticator.cached (a : Authenticator) : List JSONWebKey :=
  (a.keys.map (fun k ↦ k.keys.keys)).getD []

theorem Decides.mem_cached {a : Authenticator} {ctx : Auth.Context} {sources : Sources} {r : Readings}
    {out : Auth.Outcome} (h : Decides jose a ctx sources r out) {key : JSONWebKey}
    (hkey : key ∈ out.next.cached) :
    key ∈ a.cached ∨ key ∈ r.answer.keys jose := by
  cases h with
  | @admits token keys keys' c hkeys _ hverify =>
    have hmem : key ∈ (a.verifier.verify jose keys r token).2.keys.keys := by
      rw [hverify]
      exact hkey
    simpa [Authenticator.cached, hkeys] using mem_verify hmem
  | refuses hkeys =>
    obtain rfl | ⟨keys, token, hkeys, rfl⟩ := hkeys
    · exact Or.inl hkey
    · have hmem : key ∈ (a.verifier.verify jose keys r token).2.keys.keys := hkey
      simpa [Authenticator.cached, hkeys] using mem_verify hmem

theorem Auth.SignatureAccepted.mono {cfg : Auth.Config} {keys keys' : List JSONWebKey}
    {token : Bytes} {c : Claims} (h : SignatureAccepted jose cfg keys token c) (hkeys : keys ⊆ keys') :
    SignatureAccepted jose cfg keys' token c := by
  obtain ⟨jws, hd, key, payload, hjws, hs, hmem, hkid, hkey, hrest⟩ := h.verified
  exact ⟨h.alg, h.supported, jws, hd, key, payload, hjws, hs, hmem, hkid, hkeys hkey, hrest⟩

end Authenticate

section Stamp

variable {V R : Type} {str : Bytes → V} {s : IdentitySettings} {b : Bounds V R}

/-- What the chain makes of a record and of its resource, as one item. -/
theorem stamped_of_runChain (hv : s.Valid) {q : ClientRequest V R s} {x x' : ResourceRecords V R}
    (h : runChain str s b q identityProcessors x = some x') (i : Record V R) :
    Stamped str s q.claims ⟨i.attributes, x.resource⟩
      ⟨((i.transformBounds b).attributesIdentity str s (q.authData s)).attributes, x'.resource⟩ := by
  have hstamped := @stamped V str s hv q.order q.reordering q.claims ⟨i.attributes, x.resource⟩
  rw [runChain_identity] at h
  split_ifs at h
  obtain ⟨z, hz, rfl⟩ := Option.map_eq_some_iff.mp h
  obtain ⟨_, _, rfl⟩ := ResourceRecords.filterBounds_eq_some.mp hz
  exact hstamped

end Stamp

/-- The settings as the authenticator is given them and as the processors are. -/
structure Deployment where
  cfg : Auth.Config
  identity : IdentitySettings
  cfgValid : cfg.Valid
  identityValid : identity.Valid
  claims : Reordering cfg.claimAttributes identity.claimAttributes.toMap
  resources : cfg.resourceAttributes = ∅

structure Collector (d : Deployment) where
  listener : Listener
  configured : listener.authenticator.Configured d.cfg

/-- A traces or logs request at the listener: what its body decodes to, and what the memory limiter and
the bounds make of it at that time. -/
structure Sent (V R : Type) where
  incoming : Incoming
  payload : List (ResourceRecords V R)
  overLimit : Bool
  bounds : Bounds V R

namespace Collector

section Run

variable {V R : Type} {d : Deployment} (jose : Jose) (str : Bytes → V)

def next (col : Collector d) (q : Sent V R) : Collector d where
  listener := (col.listener.serve jose q.incoming).next
  configured := (decides_authenticate ..).configured col.configured

def after (col : Collector d) (qs : List (Sent V R)) : Collector d :=
  qs.foldl (fun col q ↦ col.next jose q) col

/-- What the pipeline is handed of a request whose Export handler runs. -/
def handedOn (col : Collector d) (q : Sent V R) : Option (ClientRequest V R d.identity) :=
  if exported (col.listener.serve jose q.incoming).effects then
    (col.listener.authenticator.admitted jose q.incoming.sources q.incoming.readings).map (fun c ↦
      ⟨c, d.cfg.claimAttributes, d.claims, q.overLimit, q.payload⟩)
  else none

/-- What the exporters get, each resource with the request it came in. -/
def delivered (col : Collector d) : List (Sent V R) → List (Sent V R × ResourceRecords V R)
  | [] => []
  | q :: qs =>
    (col.handedOn jose q).toList.flatMap (fun p ↦
      (p.payload.filterMap (runChain str d.identity q.bounds p identityProcessors)).map (fun x ↦ (q, x))) ++
    (col.next jose q).delivered qs

/-- The keys the authenticator has, and those it can come by with the requests. -/
def trusted (col : Collector d) (qs : List (Sent V R)) : List JSONWebKey :=
  col.listener.authenticator.cached ++ qs.flatMap (fun q ↦ q.incoming.readings.answer.keys jose)

end Run

section Delivery

variable {V R : Type} {d : Deployment} {jose : Jose} {str : Bytes → V}

theorem cached_after (col : Collector d) (qs : List (Sent V R)) :
    (col.after jose qs).listener.authenticator.cached ⊆ col.trusted jose qs := by
  induction qs generalizing col with
  | nil => simp [after, trusted]
  | cons q qs ih =>
    intro key hkey
    have hlater := ih (col.next jose q) hkey
    rw [trusted, List.mem_append] at hlater
    rw [trusted, List.flatMap_cons, List.mem_append, List.mem_append]
    obtain hfirst | hlater := hlater
    · obtain hbefore | hanswer := (decides_authenticate ..).mem_cached hfirst
      · exact Or.inl hbefore
      · exact Or.inr (Or.inl hanswer)
    · exact Or.inr (Or.inr hlater)

theorem mem_delivered {col : Collector d} {qs : List (Sent V R)} {q : Sent V R} {x' : ResourceRecords V R} :
    (q, x') ∈ col.delivered jose str qs ↔ ∃ before later p, qs = before ++ q :: later ∧
      (col.after jose before).handedOn jose q = some p ∧
      ∃ x ∈ p.payload, runChain str d.identity q.bounds p identityProcessors x = some x' := by
  induction qs generalizing col with
  | nil => simp [delivered]
  | cons q₀ qs ih =>
    rw [delivered, List.mem_append, ih]
    constructor
    · rintro (h | ⟨before, later, p, rfl, hp, hx⟩)
      · obtain ⟨p, hp, hx⟩ := List.mem_flatMap.mp h
        obtain ⟨x'', hx'', he⟩ := List.mem_map.mp hx
        cases he
        exact ⟨[], qs, p, rfl, Option.mem_toList.mp hp, List.mem_filterMap.mp hx''⟩
      · exact ⟨q₀ :: before, later, p, rfl, hp, hx⟩
    · rintro ⟨before, later, p, hqs, hp, hx⟩
      cases before with
      | nil =>
        obtain ⟨rfl, rfl⟩ := List.cons.inj hqs
        left
        refine List.mem_flatMap.mpr ⟨p, Option.mem_toList.mpr hp, ?_⟩
        exact List.mem_map.mpr ⟨x', List.mem_filterMap.mpr hx, rfl⟩
      | cons q₁ before =>
        obtain ⟨rfl, rfl⟩ := List.cons.inj hqs
        exact Or.inr ⟨before, later, p, rfl, hp, hx⟩

/-- An Export handler runs for the request, whose token keeps every rule and is signed with one of the
keys, and the identity in its context is the token's. -/
structure Admitted (jose : Jose) (keys : List JSONWebKey) (col : Collector d) (q : Sent V R)
    (c : Claims) : Prop where
  ran : exported (col.listener.serve jose q.incoming).effects = true
  context : (col.listener.serve jose q.incoming).context.auth = some (newAuthData c d.cfg.claimAttributes ∅)
  token : ∃ token, bearerToken q.incoming.sources = some token ∧ SignatureAccepted jose d.cfg keys token c
  claims : ClaimsAccepted d.cfg q.incoming.readings.verify c

theorem admitted_of_exported (hj : jose.Documented) {col : Collector d} {q : Sent V R}
    (h : exported (col.listener.serve jose q.incoming).effects = true) :
    ∃ c, col.Admitted jose (col.next jose q).listener.authenticator.cached q c ∧
      col.handedOn jose q = some ⟨c, d.cfg.claimAttributes, d.claims, q.overLimit, q.payload⟩ := by
  have herr := Receiver.err_of_exported h
  have hdecides :=
    decides_authenticate jose col.listener.authenticator q.incoming.ctx q.incoming.sources q.incoming.readings
  have hserve : (col.listener.serve jose q.incoming).context =
      (col.listener.authenticator.authenticate jose q.incoming.ctx q.incoming.sources
        q.incoming.readings).context := rfl
  have hnext : (col.next jose q).listener.authenticator =
      (col.listener.authenticator.authenticate jose q.incoming.ctx q.incoming.sources
        q.incoming.readings).next := rfl
  obtain ⟨hverifier, hauthorizer, hattributes, hresources⟩ := col.configured.fields d.cfgValid
  -- All that is said of the outcome goes along, so that only the way it came about is left to split on.
  generalize col.listener.authenticator.authenticate jose q.incoming.ctx q.incoming.sources
    q.incoming.readings = out at *
  cases hdecides with
  | refuses => cases herr
  | @admits token keys keys' c hkeys htoken hverify hauthorize hadmitted =>
    rw [hverifier] at hverify
    rw [hauthorizer] at hauthorize
    obtain ⟨_, _, _, _, _, _, _, _, _, _, _, _, hregistered⟩ := Auth.verify_eq_ok hverify
    refine ⟨c, ⟨h, ?_, ⟨token, htoken, ?_⟩, Auth.claimsAccepted d.cfgValid hregistered hauthorize⟩, ?_⟩
    · rw [hserve, hattributes, hresources, d.resources]
    · rw [hnext]
      exact Auth.signatureAccepted hj d.cfgValid hverify
    · rw [handedOn, if_pos h, hadmitted]
      rfl

/-- The same after other requests, with the keys that can have been had by then. -/
theorem admitted_after (hj : jose.Documented) (col : Collector d) (before : List (Sent V R)) (q : Sent V R)
    (h : exported ((col.after jose before).listener.serve jose q.incoming).effects = true) :
    ∃ c, (col.after jose before).Admitted jose (col.trusted jose (before ++ [q])) q c ∧
      (col.after jose before).handedOn jose q =
        some ⟨c, d.cfg.claimAttributes, d.claims, q.overLimit, q.payload⟩ := by
  obtain ⟨c, hc, hhanded⟩ := admitted_of_exported hj h
  obtain ⟨token, htoken, hsignature⟩ := hc.token
  refine ⟨c, ⟨hc.ran, hc.context, ⟨token, htoken, hsignature.mono ?_⟩, hc.claims⟩, hhanded⟩
  have hnext : (col.after jose before).next jose q = col.after jose (before ++ [q]) := by
    rw [after, after, List.foldl_append]
    rfl
  rw [hnext]
  exact cached_after col (before ++ [q])

/-- The records of a resource as they are exported: each is one that was sent in its scope, clamped,
with the token's identity and no other. -/
def Attributed (str : Bytes → V) (s : IdentitySettings) (b : Bounds V R) (c : Claims)
    (x x' : ResourceRecords V R) : Prop :=
  ∀ y' ∈ x'.scopes, ∀ j ∈ y'.records, ∃ y ∈ x.scopes, y'.scope = y.scope ∧
    ∃ i ∈ y.records, j.rest = b.clamp i.rest ∧
      Stamped str s c ⟨i.attributes, x.resource⟩ ⟨j.attributes, x'.resource⟩

theorem attributed_of_runChain {s : IdentitySettings} (hv : s.Valid) {b : Bounds V R}
    {p : ClientRequest V R s} {x x' : ResourceRecords V R}
    (h : runChain str s b p identityProcessors x = some x') :
    Attributed str s b p.claims x x' := by
  intro y' hy' j hj
  obtain ⟨y, hy, rfl⟩ := (mem_runChain_scopes h).mp hy'
  obtain ⟨_, hclamped, rfl⟩ := List.mem_map.mp hj
  obtain ⟨i, hi, rfl⟩ := List.mem_map.mp hclamped
  exact ⟨y, hy.2.1, rfl, i, List.mem_of_mem_filter hi, rfl, stamped_of_runChain hv h i⟩

def exampleDeployment : Deployment where
  cfg := Auth.exampleConfig
  identity :=
    { claimAttributes := ⟨[⟨"sub", "user.id"⟩, ⟨"preferred_username", "user.name"⟩, ⟨"email", "user.email"⟩,
        ⟨"name", "user.full_name"⟩], by decide, by decide⟩
      clientResourceAttrs := Render.exampleSettings.clientResourceAttrs }
  cfgValid := Auth.exampleConfig_valid
  identityValid := by unfold IdentitySettings.Valid; decide
  claims := List.Perm.refl _
  resources := rfl

def exampleCollector : Collector exampleDeployment where
  listener :=
    { port := { Receiver.plainPort with
        registered :=
          fun _ ↦ some (Receiver.tracesExporter (fun _ _ ↦ .ok [[[()]]]) (fun _ ↦ [])
            (fun _ ↦ none)).endpoint }
      authenticator := Auth.exampleAuthenticator }
  configured := Auth.exampleAuthenticator_configured

def forgedSpan (sources : Sources) : Sent Bytes Unit where
  incoming := ⟨Auth.exampleContext, sources, Auth.exampleReadings, Receiver.tracesRequest, .dispatched⟩
  payload := [⟨Render.forgedItem.resource, [⟨∅, [⟨Render.forgedItem.attributes, ()⟩]⟩]⟩]
  overLimit := false
  bounds := Render.openBounds

/-- Whatever is sent to the listener and in whichever order, a record is exported only for a request
whose token keeps every rule and is signed with a key had by then, in its scope and clamped, with that
token's identity and no other. -/
theorem delivered_records_attributed (jose : Jose) (hj : jose.Documented) (str : Bytes → V)
    (col : Collector d) (qs : List (Sent V R)) (q : Sent V R) (x' : ResourceRecords V R)
    (h : (q, x') ∈ col.delivered jose str qs) :
    ∃ before later c, qs = before ++ q :: later ∧
      (col.after jose before).Admitted jose (col.trusted jose (before ++ [q])) q c ∧
      ∃ x ∈ q.payload, Attributed str d.identity q.bounds c x x' := by
  obtain ⟨before, later, p, hqs, hp, x, hx, hchain⟩ := mem_delivered.mp h
  have hran : exported ((col.after jose before).listener.serve jose q.incoming).effects = true := by
    by_contra hnot
    rw [handedOn, if_neg hnot] at hp
    cases hp
  obtain ⟨c, hc, hhanded⟩ := admitted_after hj col before q hran
  cases hhanded.symm.trans hp
  exact ⟨before, later, c, hqs, hc, x, hx, attributed_of_runChain d.identityValid hchain⟩

/-- Of a span without a token and one with alice's the second is exported. -/
theorem alice_spans_attributed :
    (exampleCollector.delivered (Auth.exampleJose Auth.aliceToken) id
      [forgedSpan [], forgedSpan (Auth.exampleSources Auth.aliceToken)]).length = 1 ∧
    ∀ p ∈ exampleCollector.delivered (Auth.exampleJose Auth.aliceToken) id
        [forgedSpan [], forgedSpan (Auth.exampleSources Auth.aliceToken)],
      ∃ c, ClaimsAccepted Auth.exampleConfig p.1.incoming.readings.verify c ∧
        ∃ x ∈ p.1.payload, Attributed id exampleDeployment.identity p.1.bounds c x p.2 := by
  refine ⟨by decide +kernel, ?_⟩
  rintro ⟨q, x'⟩ hp
  obtain ⟨_, _, c, _, hc, hx⟩ := delivered_records_attributed (Auth.exampleJose Auth.aliceToken)
    (Auth.exampleJose_documented Auth.aliceToken (by decide +kernel) (by decide)) id
      exampleCollector _ q x' hp
  exact ⟨c, hc.claims, hx⟩

/-- No record that the bounds keep is lost once an Export handler runs for its request and memory is
left for it: it is exported with its token's identity. -/
theorem kept_records_delivered (jose : Jose) (hj : jose.Documented) (str : Bytes → V) (col : Collector d)
    (before later : List (Sent V R)) (q : Sent V R) (hlimit : q.overLimit = false)
    (hran : exported ((col.after jose before).listener.serve jose q.incoming).effects = true)
    (x : ResourceRecords V R) (hx : x ∈ q.payload) (hresource : q.bounds.dropsResource x.resource = false)
    (y : ScopeRecords V R) (hy : y ∈ x.scopes) (i : Record V R) (hi : i ∈ y.records)
    (hkept : q.bounds.dropsRecord i.rest = false) :
    ∃ c x', (col.after jose before).Admitted jose (col.trusted jose (before ++ [q])) q c ∧
      (q, x') ∈ col.delivered jose str (before ++ q :: later) ∧
      ∃ y' ∈ x'.scopes, y'.scope = y.scope ∧ ∃ j ∈ y'.records, j.rest = q.bounds.clamp i.rest ∧
        Stamped str d.identity c ⟨i.attributes, x.resource⟩ ⟨j.attributes, x'.resource⟩ := by
  obtain ⟨c, hc, hhanded⟩ := admitted_after hj col before q hran
  have hkeeps : q.bounds.KeepsScope x y := ⟨hresource, hy, i, hi, hkept⟩
  have hleft : i ∈ y.records.filter (fun i ↦ !q.bounds.dropsRecord i.rest) :=
    List.mem_filter.mpr ⟨hi, by simp [hkept]⟩
  obtain ⟨x', hchain⟩ := exists_runChain str
    (q := (⟨c, d.cfg.claimAttributes, d.claims, q.overLimit, q.payload⟩ : ClientRequest V R d.identity))
      hlimit hkeeps
  refine ⟨c, x', hc, mem_delivered.mpr ⟨before, later, _, rfl, hhanded, x, hx, hchain⟩, _,
    (mem_runChain_scopes hchain).mpr ⟨y, hkeeps, rfl⟩, rfl, _,
      List.mem_map_of_mem (List.mem_map_of_mem hleft), rfl, ?_⟩
  exact stamped_of_runChain d.identityValid hchain i

theorem alice_span_delivered :
    ∃ c x', ClaimsAccepted Auth.exampleConfig Auth.exampleReadings.verify c ∧
      (forgedSpan (Auth.exampleSources Auth.aliceToken), x') ∈
        exampleCollector.delivered (Auth.exampleJose Auth.aliceToken) id
        [forgedSpan [], forgedSpan (Auth.exampleSources Auth.aliceToken)] ∧
      ∃ y' ∈ x'.scopes, ∃ j ∈ y'.records, Stamped id exampleDeployment.identity c
        ⟨Render.forgedItem.attributes, Render.forgedItem.resource⟩ ⟨j.attributes, x'.resource⟩ := by
  obtain ⟨c, x', hc, hx', y', hy', _, j, hj, _, hstamped⟩ :=
    kept_records_delivered (Auth.exampleJose Auth.aliceToken)
    (Auth.exampleJose_documented Auth.aliceToken (by decide +kernel) (by decide)) id exampleCollector
      [forgedSpan []] []
    (forgedSpan (Auth.exampleSources Auth.aliceToken)) rfl (by decide +kernel) _
      (List.mem_singleton.mpr rfl) rfl _
    (List.mem_singleton.mpr rfl) _ (List.mem_singleton.mpr rfl) rfl
  exact ⟨c, x', hc.claims, hx', y', hy', j, hj, hstamped⟩

end Delivery

end Collector

end OtlpCollectorOidc

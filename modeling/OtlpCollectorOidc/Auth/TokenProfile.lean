import OtlpCollectorOidc.Lib.Rules
import OtlpCollectorOidc.Auth.Authenticate
import OtlpCollectorOidc.Auth.Scope

namespace OtlpCollectorOidc.Auth

open Text Number Json Rules

/-- Rules 7 to 14 of the token profile, which are about the claims. -/
inductive ClaimRule where
  | iss
  | aud
  | hasExp
  | notExpired
  | nbf
  | iat
  | scope
  | required (name : Bytes)

inductive Rule where
  | bearer
  | segments
  | algorithm
  | kid
  | signature
  | payload
  | claims (r : ClaimRule)

def claimRules (cfg : Config) : List ClaimRule :=
  [.iss, .aud, .hasExp, .notExpired, .nbf, .iat, .scope] ++ cfg.requiredClaims.map .required

/-- The table, in its order; rule 14 stands once for each required claim. -/
def profile (cfg : Config) : List Rule :=
  [.bearer, .segments, .algorithm, .kid, .signature, .payload] ++ (claimRules cfg).map .claims

def ClaimRule.refusal (cfg : Config) : ClaimRule → Bytes
  | .iss => "invalid token: wrong iss"
  | .aud => "invalid token: wrong aud"
  | .hasExp => "invalid token: missing exp"
  | .notExpired => "invalid token: expired"
  | .nbf => "invalid token: not yet valid"
  | .iat => "invalid token: issued in the future"
  | .scope => ofString "missing scope: " ++ cfg.requiredScope
  | .required name => ofString "missing claim: " ++ name

def Rule.refusal (cfg : Config) : Rule → Bytes
  | .bearer => "no token"
  | .segments => "invalid token: malformed"
  | .algorithm => "invalid token: unsupported alg"
  | .kid => "invalid token: unknown kid"
  | .signature => "invalid token: bad signature"
  | .payload => "invalid token: malformed"
  | .claims r => r.refusal cfg

/-- What the code answers where it finds the rule broken. -/
def ClaimRule.rejection (cfg : Config) : ClaimRule → RejectionError
  | .iss => invalidToken .issuer
  | .aud => invalidToken .audience
  | .hasExp => invalidToken .noExpiry
  | .notExpired => invalidToken .expired
  | .nbf => invalidToken .notYetValid
  | .iat => invalidToken .issuedInFuture
  | .scope => missingScope cfg.requiredScope
  | .required name => missingClaim name

def Rule.rejection (cfg : Config) : Rule → RejectionError
  | .bearer => noToken
  | .segments => invalidToken .malformed
  | .algorithm => invalidToken .algorithm
  | .kid => invalidToken .unknownKey
  | .signature => invalidToken .signature
  | .payload => invalidToken .malformed
  | .claims r => r.rejection cfg

def Fault.rule : Fault → Rule
  | .malformed => .payload
  | .algorithm => .algorithm
  | .unknownKey => .kid
  | .signature => .signature
  | .issuer => .claims .iss
  | .audience => .claims .aud
  | .noExpiry => .claims .hasExp
  | .expired => .claims .notExpired
  | .notYetValid => .claims .nbf
  | .issuedInFuture => .claims .iat

/-- The rule a refusal is for. Rule 2 shares its refusal with rule 6, which stands for both. -/
def RejectionError.rule (e : RejectionError) : Rule :=
  match e.reason with
  | .noToken | .notReady => .bearer
  | .invalidToken => ((Fault.all.find? (fun f ↦ f.string = e.detail)).map Fault.rule).getD .payload
  | .missingScope => .claims .scope
  | .missingClaim => .claims (.required e.detail)

section Rejection

variable {cfg : Config} {rule : Rule}

theorem refusal_eq : rule.refusal cfg = (rule.rejection cfg).error := by
  cases rule with
  | claims r => cases r <;> rfl
  | _ => rfl

theorem invalidToken_proper (f : Fault) : (invalidToken f).Proper := by
  simp [RejectionError.Proper, invalidToken]

theorem rejection_proper : (rule.rejection cfg).Proper := by
  cases rule with
  | bearer => simp [Rule.rejection, RejectionError.Proper, noToken]
  | claims r =>
    cases r with
    | scope => simp [Rule.rejection, ClaimRule.rejection, RejectionError.Proper, missingScope]
    | required name => simp [Rule.rejection, ClaimRule.rejection, RejectionError.Proper, missingClaim]
    | _ => exact invalidToken_proper _
  | _ => exact invalidToken_proper _

theorem rule_rejection (h : rule ≠ .segments) : (rule.rejection cfg).rule = rule := by
  cases rule with
  | segments => exact absurd rfl h
  | claims r => cases r <;> rfl
  | _ => rfl

/-- Only rules 2 and 6 share a refusal. -/
theorem eq_of_rejection_eq {rule' : Rule} (h : rule.rejection cfg = rule'.rejection cfg) :
    rule = rule' ∨ rule.rejection cfg = invalidToken .malformed := by
  by_cases hr : rule = .segments
  · exact .inr (hr ▸ rfl)
  by_cases hr' : rule' = .segments
  · exact .inr (h.trans (hr' ▸ rfl))
  · left
    calc rule = (rule.rejection cfg).rule := (rule_rejection hr).symm
      _ = (rule'.rejection cfg).rule := by rw [h]
      _ = rule' := rule_rejection hr'

theorem rejection_malformed (h : rule.rejection cfg = invalidToken .malformed) :
    rule = .segments ∨ rule = .payload := by
  by_cases hr : rule = .segments
  · exact .inl hr
  · right
    calc rule = (rule.rejection cfg).rule := (rule_rejection hr).symm
      _ = (invalidToken .malformed).rule := by rw [h]
      _ = .payload := rfl

end Rejection

/-- How a date and a space-delimited text are read. -/
structure Reading where
  date : ℚ → ℚ
  scopes : Bytes → List Bytes

/-- The table's own reading: the number itself, and what stands between spaces. -/
def tableReading : Reading := ⟨fun f ↦ f * second, Text.pieces⟩

def codeReading : Reading := ⟨fun f ↦ instant f, fields⟩

def ClaimRule.Holds (rd : Reading) (cfg : Config) (now : Time) (c : Claims) : ClaimRule → Prop
  | .iss => c.get "iss" = some (.str cfg.issuerURL)
  | .aud => c.get "aud" = some (.str cfg.audience) ∨
      ∃ xs, c.get "aud" = some (.arr xs) ∧ .str cfg.audience ∈ xs
  | .hasExp => ∃ v, c.get "exp" = some v
  | .notExpired => ∀ f, c.get "exp" = some (.num f) → (now : ℚ) < rd.date f + cfg.clockSkew
  | .nbf => ∀ f, c.get "nbf" = some (.num f) → rd.date f ≤ now + cfg.clockSkew
  | .iat => ∀ f, c.get "iat" = some (.num f) → rd.date f ≤ now + cfg.clockSkew
  | .scope => (∃ s, c.get "scope" = some (.str s) ∧ cfg.requiredScope ∈ rd.scopes s) ∨
      (∃ s, c.get "scp" = some (.str s) ∧ cfg.requiredScope ∈ rd.scopes s) ∨
      ∃ xs, c.get "scp" = some (.arr xs) ∧ .str cfg.requiredScope ∈ xs
  | .required name =>
      ∃ v, c.get name = some v ∧ v ≠ .null ∧ v ≠ .str [] ∧ v ≠ .arr [] ∧ v ≠ .obj []

def ClaimRule.Kept : Config → Time → Claims → ClaimRule → Prop := ClaimRule.Holds tableReading

def ClaimRule.Passes : Config → Time → Claims → ClaimRule → Prop := ClaimRule.Holds codeReading

def numberOf : Option Value → Option ℚ
  | some (.num f) => some f
  | _ => none

theorem numberOf_eq_some {v : Option Value} {f : ℚ} : numberOf v = some f ↔ v = some (.num f) := by
  rcases v with _ | v
  · simp [numberOf]
  · cases v <;> simp [numberOf]

def textOf : Option Value → Option Bytes
  | some (.str s) => some s
  | _ => none

theorem textOf_eq_some {v : Option Value} {s : Bytes} : textOf v = some s ↔ v = some (.str s) := by
  rcases v with _ | v
  · simp [textOf]
  · cases v <;> simp [textOf]

def ClaimRule.holds (rd : Reading) (cfg : Config) (now : Time) (c : Claims) : ClaimRule → Bool
  | .iss => textOf (c.get "iss") = some cfg.issuerURL
  | .aud => audienceContains (c.get "aud") cfg.audience
  | .hasExp => (c.get "exp").isSome
  | .notExpired => (numberOf (c.get "exp")).all (fun f ↦ (now : ℚ) < rd.date f + cfg.clockSkew)
  | .nbf => (numberOf (c.get "nbf")).all (fun f ↦ rd.date f ≤ now + cfg.clockSkew)
  | .iat => (numberOf (c.get "iat")).all (fun f ↦ rd.date f ≤ now + cfg.clockSkew)
  | .scope => (textOf (c.get "scope")).any (fun s ↦ cfg.requiredScope ∈ rd.scopes s) ||
      ((textOf (c.get "scp")).any (fun s ↦ cfg.requiredScope ∈ rd.scopes s) ||
        match c.get "scp" with
        | some (.arr xs) => xs.any (isString cfg.requiredScope)
        | _ => false)
  | .required name => nonEmpty (c.get name)

theorem holds_iff {rd : Reading} {cfg : Config} {now : Time} {c : Claims} {r : ClaimRule} :
    r.holds rd cfg now c = true ↔ r.Holds rd cfg now c := by
  cases r with
  | iss => simp [ClaimRule.holds, ClaimRule.Holds, textOf_eq_some]
  | aud => exact audienceContains_iff
  | hasExp => exact Option.isSome_iff_exists
  | scope =>
    have harr : (match c.get "scp" with
        | some (.arr xs) => xs.any (isString cfg.requiredScope)
        | _ => false) = true ↔ ∃ xs, c.get "scp" = some (.arr xs) ∧ .str cfg.requiredScope ∈ xs := by
      rcases c.get "scp" with _ | v
      · simp
      · cases v <;> simp [isString_iff]
    simp only [ClaimRule.holds, ClaimRule.Holds, Bool.or_eq_true, harr, Option.any_eq_true, textOf_eq_some,
      decide_eq_true_eq]
  | required name => exact nonEmpty_iff
  | _ => simp [ClaimRule.holds, ClaimRule.Holds, Option.all_eq_true, numberOf_eq_some]

def dateClaims : List Bytes := ["exp", "nbf", "iat"].map ofString

def NumbersWherePresent (c : Claims) : Prop :=
  ∀ name ∈ dateClaims, ∀ v, c.get name = some v → ∃ f, v = .num f

/-- The claims of a payload that is one JSON object, its numbers as they are written. -/
def payloadClaims (payload : Bytes) : Option Claims :=
  match unmarshal payload with
  | some (.obj ms) => some (ofMembers ms)
  | _ => none

/-- Rule 6. -/
def PayloadKept (payload : Bytes) : Prop := ∃ c, payloadClaims payload = some c ∧ NumbersWherePresent c

def isNumber : Value → Bool
  | .num _ => true
  | _ => false

theorem isNumber_iff {v : Value} : isNumber v = true ↔ ∃ f, v = .num f := by
  cases v <;> simp [isNumber]

instance (c : Claims) : Decidable (NumbersWherePresent c) :=
  decidable_of_iff (∀ name ∈ dateClaims, (c.get name).all isNumber = true)
    (by simp only [NumbersWherePresent, Option.all_eq_true, isNumber_iff])

instance (payload : Bytes) : Decidable (PayloadKept payload) :=
  decidable_of_iff ((payloadClaims payload).any (fun c ↦ NumbersWherePresent c) = true)
    (by simp only [PayloadKept, Option.any_eq_true, decide_eq_true_eq])

theorem get_alike {payload : Bytes} {c c' : Claims} (h : payloadClaims payload = some c)
    (h' : decodeClaims payload = some c') (name : Bytes) : Option.Rel Alike (c.get name) (c'.get name) := by
  unfold payloadClaims at h
  unfold decodeClaims at h'
  split at h
  · rename_i ms hread
    split at h'
    · rename_i ns rest hread'
      cases h
      cases h'
      cases decode_alike hread hread' with
      | obj hall =>
        exact Maps.lookup_insertAll_rel (hall.imp fun _ _ hm ↦ alikeMember_iff.mp hm) (fun _ ↦ .none) name
    · cases h'
  · cases h

/-- What the code decodes has numbers where the payload has. -/
theorem PayloadKept.numbers {payload : Bytes} {c' : Claims} (h : PayloadKept payload)
    (h' : decodeClaims payload = some c') : NumbersWherePresent c' := by
  obtain ⟨c, hc, hn⟩ := h
  intro name hname w hw
  have hrel := get_alike hc h' name
  rw [hw] at hrel
  cases hv : c.get name with
  | none =>
    rw [hv] at hrel
    cases hrel
  | some v =>
    obtain ⟨f, rfl⟩ := hn name hname v hv
    rw [hv] at hrel
    cases hrel with
    | some halike =>
      cases halike with
      | num _ f' => exact ⟨f', rfl⟩

def profileAlgorithms : List Bytes := ["RS256", "RS384", "RS512", "ES256", "ES384", "ES512"].map ofString

/-- A base64url segment, with its padding or without it. -/
def decodeSegment (segment : Bytes) : Option Bytes := decodeString (segment.rdropWhile (· = 0x3D))

/-- A token as rule 2 reads it: three base64url segments, the first a JSON
object with a string as its own member alg. -/
def compactJWS (token : Bytes) : Option JSONWebSignature :=
  match (token.splitOn 0x2E).map decodeSegment with
  | [some header, some payload, some _] =>
    match payloadClaims header with
    | some ms =>
      (textOf (ms.get "alg")).map (fun alg ↦ ⟨[⟨(textOf (ms.get "kid")).getD [], alg⟩], payload, token⟩)
    | none => none
  | _ => none

/-- What go-jose accepts after `headerAlgorithm` is the JWS that stands in the token. -/
structure Jose.Faithful (jose : Jose) : Prop extends jose.Documented where
  compact : ∀ {token alg algs jws}, headerAlgorithm token = some alg →
    jose.parseSignedCompact token algs = some jws → compactJWS token = some jws

structure Request where
  jose : Jose
  cfg : Config
  keys : KeySet
  sources : Sources
  readings : Readings

namespace Request

variable (q : Request)

def Bears (token : Bytes) : Prop :=
  ∃ scheme rest, authorizationValues q.sources = [scheme ++ 0x20 :: rest] ∧ 0x20 ∉ scheme ∧
    equalFold scheme "bearer" = true ∧ token = trimSpace rest ∧ token ≠ []

def Carries (jws : JSONWebSignature) (h : Header) : Prop :=
  ∃ token, q.Bears token ∧ compactJWS token = some jws ∧ jws.signatures = [h]

/-- The keys a kid is looked for in: those cached, or, where no key of that kid
is cached and ten seconds have passed since the last such fetch, those fetched now. -/
def keysFor (kid : Bytes) : List JSONWebKey :=
  if (∃ key ∈ q.keys.keys.keys, key.keyID = kid) ∨
      q.readings.refresh < q.keys.missFetched + minRefreshInterval then
    q.keys.keys.keys
  else
    match fetch q.jose q.readings.answer with
    | .ok fetched => fetched.keys
    | .error _ => q.keys.keys.keys

def Names (h : Header) (key : JSONWebKey) : Prop :=
  h.keyID ≠ [] ∧ key ∈ q.keysFor h.keyID ∧ key.keyID = h.keyID

/-- The rules as the table has them, each on the request alone. -/
def Kept : Rule → Prop
  | .bearer => ∃ token, q.Bears token
  | .segments => ∃ jws h, q.Carries jws h
  | .algorithm => ∃ jws h, q.Carries jws h ∧ h.algorithm ∈ profileAlgorithms
  | .kid => ∃ jws h key, q.Carries jws h ∧ q.Names h key
  | .signature => ∃ jws h key, q.Carries jws h ∧ q.Names h key ∧ (q.jose.verify jws key).isSome = true
  | .payload => ∃ jws h, q.Carries jws h ∧ PayloadKept jws.payload
  | .claims r =>
    ∃ jws h c, q.Carries jws h ∧ payloadClaims jws.payload = some c ∧ r.Kept q.cfg q.readings.verify c

/-- The rule whose refusal the profile promises. -/
def BreaksFirst (rule : Rule) : Prop := FirstBroken q.Kept (profile q.cfg) rule

def Reads (jws : JSONWebSignature) (h : Header) : Prop :=
  ∃ token alg, q.Bears token ∧ headerAlgorithm token = some alg ∧ alg ∈ q.cfg.algorithms ∧
    q.jose.parseSignedCompact token q.cfg.algorithms = some jws ∧ jws.signatures = [h]

def RefusesAlg : Prop :=
  ∃ token alg, q.Bears token ∧ headerAlgorithm token = some alg ∧ alg ∉ q.cfg.algorithms

def Finds (h : Header) (key : JSONWebKey) : Prop :=
  (q.keys.keyFor q.jose q.readings.refresh q.readings.answer h).1 = some key

def verifier : Verifier := ⟨q.cfg.issuerURL, q.cfg.audience, q.cfg.algorithms, q.cfg.clockSkew⟩

def authorizer : Authorizer := ⟨q.cfg.requiredScope, q.cfg.requiredClaims⟩

/-- What `verify` and `authorize` make of a signed token's claims. -/
def judge (c : Claims) : Option RejectionError :=
  (registered q.verifier q.readings.verify c).map invalidToken <|> q.authorizer.authorize c

/-- iss and aud are right, and the first date the code finds fault with is not a number. -/
def NumberFault (c : Claims) : Prop :=
  checkIss q.verifier c = none ∧ checkAud q.verifier c = none ∧
    (numericDate c "exp" = .invalid ∨
      checkExp q.verifier q.readings.verify c = none ∧
        (numericDate c "nbf" = .invalid ∨
          checkNbf q.verifier q.readings.verify c = none ∧ numericDate c "iat" = .invalid))

/-- Where the order and the reading of the code cannot be told from the table's. -/
structure InOrder : Prop where
  -- The alg is not judged before the segments.
  segments : ¬ q.Kept .segments → ¬ q.RefusesAlg
  algorithm : q.Kept .segments → ¬ q.Kept .algorithm → q.RefusesAlg
  -- A token with an alg of the table is read, or is one to refuse as malformed in any case.
  header : q.Kept .algorithm → ∀ rule, q.BreaksFirst rule →
    (∃ jws h, q.Reads jws h) ∨ rule = .payload ∧ ¬ q.RefusesAlg
  kid : ∀ jws h rule, q.Kept .kid → q.Reads jws h → q.BreaksFirst rule → ∃ key, q.Finds h key
  signature : ∀ jws h key rule, q.Reads jws h → q.Finds h key → q.BreaksFirst rule →
    ((q.jose.verify jws key).isSome = true ↔ q.Kept .signature)
  -- A payload that breaks rule 6 is refused for a date that is not a number, if it is decoded.
  payload : ∀ jws h c, q.Kept .signature → ¬ q.Kept .payload → q.Reads jws h →
    decodeClaims jws.payload = some c → q.NumberFault c
  decoded : ∀ jws h rule, q.Kept .signature → q.Kept .payload → q.Reads jws h → q.BreaksFirst rule →
    ∃ c, decodeClaims jws.payload = some c
  claims : ∀ jws h c c', q.Kept .signature → q.Kept .payload → q.Reads jws h →
    payloadClaims jws.payload = some c → decodeClaims jws.payload = some c' → ∀ r,
      FirstBroken (ClaimRule.Kept q.cfg q.readings.verify c) (claimRules q.cfg) r →
        FirstBroken (ClaimRule.Passes q.cfg q.readings.verify c') (claimRules q.cfg) r

variable {q}

theorem bears_iff {token : Bytes} : q.Bears token ↔ bearerToken q.sources = some token := by
  constructor
  · intro hx
    obtain ⟨scheme, rest, hvals, hns, hs, rfl, hne⟩ := hx
    simp only [bearerToken, hvals, cut_append hns]
    exact if_pos ⟨hs, hne⟩
  · intro h
    obtain ⟨value, scheme, rest, hvals, hcut, hs, htok, hne⟩ := bearerToken_eq_some h
    obtain ⟨hval, hns⟩ := cut_eq_some hcut
    exact ⟨scheme, rest, hval ▸ hvals, hns, hs, htok, hne⟩

theorem Bears.unique {token token' : Bytes} (h : q.Bears token) (h' : q.Bears token') : token = token' :=
  Option.some.inj ((bears_iff.mp h).symm.trans (bears_iff.mp h'))

section Table

variable {jws jws' : JSONWebSignature} {h h' : Header} {rule : Rule}

theorem Carries.unique (hc : q.Carries jws h) (hc' : q.Carries jws' h') : jws = jws' ∧ h = h' := by
  obtain ⟨token, hb, hp, hs⟩ := hc
  obtain ⟨token', hb', hp', hs'⟩ := hc'
  cases hb.unique hb'
  cases hp.symm.trans hp'
  cases hs.symm.trans hs'
  exact ⟨rfl, rfl⟩

theorem kept_bearer (h : q.Kept .segments) : q.Kept .bearer := by
  obtain ⟨jws, h, token, hb, _⟩ := h
  exact ⟨token, hb⟩

theorem kept_segments (h : q.Kept .algorithm) : q.Kept .segments := by
  obtain ⟨jws, h, hc, _⟩ := h
  exact ⟨jws, h, hc⟩

theorem kept_kid (h : q.Kept .signature) : q.Kept .kid := by
  obtain ⟨jws, h, key, hc, hn, _⟩ := h
  exact ⟨jws, h, key, hc, hn⟩

theorem kept_payload_iff (hc : q.Carries jws h) : q.Kept .payload ↔ PayloadKept jws.payload := by
  constructor
  · rintro ⟨jws', h', hc', hp⟩
    obtain ⟨rfl, rfl⟩ := hc.unique hc'
    exact hp
  · intro hp
    exact ⟨jws, h, hc, hp⟩

theorem kept_claims {c : Claims} (hc : q.Carries jws h) (hp : payloadClaims jws.payload = some c) :
    (fun r ↦ q.Kept (.claims r)) = ClaimRule.Kept q.cfg q.readings.verify c := by
  funext r
  apply propext
  constructor
  · rintro ⟨jws', h', c', hc', hp', hr⟩
    obtain ⟨rfl, rfl⟩ := hc.unique hc'
    cases hp.symm.trans hp'
    exact hr
  · intro hr
    exact ⟨jws, h, c, hc, hp, hr⟩

theorem breaksFirst_iff (ha : q.Kept .algorithm) :
    q.BreaksFirst rule ↔
      FirstBroken q.Kept (.kid :: .signature :: .payload :: (claimRules q.cfg).map .claims) rule := by
  have hs := kept_segments ha
  simp only [BreaksFirst, profile, List.cons_append, List.nil_append]
  rw [firstBroken_cons_of_kept (kept_bearer hs), firstBroken_cons_of_kept hs, firstBroken_cons_of_kept ha]

/-- Past rule 6 the first broken rule is the first the claims break. -/
theorem breaksFirst_claims {c : Claims} (ha : q.Kept .algorithm) (hs : q.Kept .signature)
    (hp : q.Kept .payload) (hc : q.Carries jws h) (hcl : payloadClaims jws.payload = some c) :
    q.BreaksFirst rule ↔
      ∃ r, FirstBroken (ClaimRule.Kept q.cfg q.readings.verify c) (claimRules q.cfg) r ∧
        rule = .claims r := by
  rw [breaksFirst_iff ha, firstBroken_cons_of_kept (kept_kid hs), firstBroken_cons_of_kept hs,
    firstBroken_cons_of_kept hp, firstBroken_map, kept_claims hc hcl]

end Table

section Code

variable {jws : JSONWebSignature} {h : Header} {key : JSONWebKey}

theorem Reads.carries (hj : q.jose.Faithful) (hr : q.Reads jws h) : q.Carries jws h := by
  obtain ⟨token, alg, hb, hh, _, hp, hs⟩ := hr
  exact ⟨token, hb, hj.compact hh hp, hs⟩

theorem Reads.kept (hj : q.jose.Faithful) (hv : q.cfg.Valid) (hr : q.Reads jws h) : q.Kept .algorithm := by
  refine ⟨jws, h, hr.carries hj, ?_⟩
  obtain ⟨token, alg, _, _, _, hp, hs⟩ := hr
  obtain ⟨h', hs', hmem⟩ := hj.signature hp
  cases hs.symm.trans hs'
  exact hv.supported _ hmem

/-- A key the code finds is one the kid names, or shares its kid with one. -/
theorem exists_names_of_finds (hf : q.Finds h key) : ∃ key', q.Names h key' := by
  unfold Finds KeySet.keyFor KeySet.lookup at hf
  cases hc : findKey q.keys.keys.keys h.keyID h.algorithm with
  | some key' =>
    obtain ⟨hm, hne, hid, _⟩ := findKey_eq_some hc
    exact ⟨key', hne, by rwa [keysFor, if_pos (.inl ⟨key', hm, hid⟩)], hid⟩
  | none =>
    simp only [hc, KeySet.refreshFor, KeySet.lookup, KeySet.refresh] at hf
    split_ifs at hf with hstale
    -- A set that is not stale is looked through again, in vain.
    cases hfetch : fetch q.jose q.readings.answer with
    | error e => simp [hfetch, Except.map] at hf
    | ok fetched =>
      simp only [hfetch, Except.map] at hf
      obtain ⟨hm, hne, hid, _⟩ := findKey_eq_some hf
      by_cases hany : ∃ key ∈ q.keys.keys.keys, key.keyID = h.keyID
      · obtain ⟨key', hm', hid'⟩ := id hany
        exact ⟨key', hne, by rwa [keysFor, if_pos (.inl hany)], hid'⟩
      · have hlate : ¬ q.readings.refresh < q.keys.missFetched + minRefreshInterval := by
          simp only [KeySet.stale, Bool.and_eq_true, decide_eq_true_eq] at hstale
          exact not_lt.mpr (le_sub_iff_add_le'.mp ((le_sub_iff (by decide) (by decide)).mp hstale.2))
        have hkeys : q.keysFor h.keyID = fetched.keys := by
          rw [keysFor, if_neg (not_or.mpr ⟨hany, hlate⟩), hfetch]
        exact ⟨key, hne, by rw [hkeys]; exact hm, hid⟩

theorem Finds.kept (hj : q.jose.Faithful) (hr : q.Reads jws h) (hf : q.Finds h key) : q.Kept .kid := by
  obtain ⟨key', hn⟩ := exists_names_of_finds hf
  exact ⟨jws, h, key', hr.carries hj, hn⟩

end Code

section Claims

variable {c : Claims}

theorem iss_cases (hv : q.cfg.Valid) :
    (ClaimRule.iss.Passes q.cfg q.readings.verify c ∧ checkIss q.verifier c = none) ∨
      (¬ ClaimRule.iss.Passes q.cfg q.readings.verify c ∧ checkIss q.verifier c = some .issuer) := by
  by_cases hi : stringClaim c "iss" = q.cfg.issuerURL
  · left
    exact ⟨stringClaim_eq hi hv.issuer_ne, checkIss_eq_none.mpr hi⟩
  · right
    refine ⟨fun hk ↦ hi ?_, if_pos hi⟩
    have hk : c.get "iss" = some (.str q.cfg.issuerURL) := hk
    rw [stringClaim, hk]

theorem aud_cases :
    (ClaimRule.aud.Passes q.cfg q.readings.verify c ∧ checkAud q.verifier c = none) ∨
      (¬ ClaimRule.aud.Passes q.cfg q.readings.verify c ∧ checkAud q.verifier c = some .audience) := by
  by_cases ha : audienceContains (c.get "aud") q.cfg.audience = true
  · left
    exact ⟨audienceContains_iff.mp ha, if_pos ha⟩
  · right
    exact ⟨fun hk ↦ ha (audienceContains_iff.mpr hk), if_neg ha⟩

theorem exp_cases (hn : NumbersWherePresent c) :
    (ClaimRule.hasExp.Passes q.cfg q.readings.verify c ∧
        ClaimRule.notExpired.Passes q.cfg q.readings.verify c ∧
          checkExp q.verifier q.readings.verify c = none) ∨
      (¬ ClaimRule.hasExp.Passes q.cfg q.readings.verify c ∧
        checkExp q.verifier q.readings.verify c = some .noExpiry) ∨
      (ClaimRule.hasExp.Passes q.cfg q.readings.verify c ∧
        ¬ ClaimRule.notExpired.Passes q.cfg q.readings.verify c ∧
        checkExp q.verifier q.readings.verify c = some .expired) := by
  cases hg : c.get "exp" with
  | none =>
    right; left
    refine ⟨fun ⟨v, hv⟩ ↦ ?_, by simp [checkExp, numericDate, hg]⟩
    cases hg.symm.trans hv
  | some v =>
    obtain ⟨f, rfl⟩ := hn "exp" (by decide) v hg
    have hkept : ClaimRule.notExpired.Passes q.cfg q.readings.verify c ↔
        q.readings.verify < instant f + q.cfg.clockSkew := by
      constructor
      · intro h
        have hlt : (q.readings.verify : ℚ) < instant f + q.cfg.clockSkew := h f hg
        exact_mod_cast hlt
      · intro h g hg'
        cases hg.symm.trans hg'
        have hlt : (q.readings.verify : ℚ) < instant f + q.cfg.clockSkew := by exact_mod_cast h
        exact hlt
    by_cases hlt : q.readings.verify < instant f + q.cfg.clockSkew
    · left
      exact ⟨⟨_, hg⟩, hkept.mpr hlt, by simp [checkExp, numericDate, hg, verifier, hlt]⟩
    · right; right
      exact ⟨⟨_, hg⟩, fun h ↦ hlt (hkept.mp h), by simp [checkExp, numericDate, hg, verifier, hlt]⟩

theorem notAfter_cases (hn : NumbersWherePresent c) (name : Bytes) (hname : name ∈ dateClaims)
    (fault : Fault) :
    ((∀ f, c.get name = some (.num f) → codeReading.date f ≤ q.readings.verify + q.cfg.clockSkew) ∧
        checkNotAfter q.verifier q.readings.verify c name fault = none) ∨
      (¬ (∀ f, c.get name = some (.num f) → codeReading.date f ≤ q.readings.verify + q.cfg.clockSkew) ∧
        checkNotAfter q.verifier q.readings.verify c name fault = some fault) := by
  have hdate (f : ℚ) : codeReading.date f ≤ q.readings.verify + q.cfg.clockSkew ↔
      instant f ≤ q.readings.verify + q.cfg.clockSkew := by
    change (instant f : ℚ) ≤ _ ↔ _
    exact_mod_cast Iff.rfl
  simp only [hdate]
  cases hg : c.get name with
  | none =>
    left
    refine ⟨fun f hf ↦ ?_, by simp [checkNotAfter, numericDate, hg]⟩
    cases hf
  | some v =>
    obtain ⟨f, rfl⟩ := hn name hname v hg
    by_cases hlt : q.readings.verify + q.cfg.clockSkew < instant f
    · right
      refine ⟨fun h ↦ ?_, by simp [checkNotAfter, numericDate, hg, verifier, hlt]⟩
      exact absurd (h f rfl) (not_le.mpr hlt)
    · left
      refine ⟨fun f' hf' ↦ ?_, by simp [checkNotAfter, numericDate, hg, verifier, hlt]⟩
      cases hf'
      exact not_lt.mp hlt

theorem authorize_rejection {r : ClaimRule}
    (h : FirstBroken (ClaimRule.Passes q.cfg q.readings.verify c)
      (.scope :: q.cfg.requiredClaims.map .required) r) :
    q.authorizer.authorize c = some (r.rejection q.cfg) := by
  by_cases hs : grantsScope c q.cfg.requiredScope = true
  · have hk : ClaimRule.scope.Passes q.cfg q.readings.verify c := grantsScope_iff.mp hs
    rw [firstBroken_cons_of_kept hk, firstBroken_map] at h
    obtain ⟨name, hname, rfl⟩ := h
    have hcheck : ∀ name ∈ q.cfg.requiredClaims, (!nonEmpty (c.get name)) = true ↔
        ¬ (ClaimRule.required name).Passes q.cfg q.readings.verify c := by
      intro name _
      rw [Bool.not_eq_true', ← Bool.not_eq_true]
      exact not_congr nonEmpty_iff
    rw [firstBroken_iff_find hcheck] at hname
    simp only [Authorizer.authorize, authorizer, if_pos hs, hname, Option.map_some]
    rfl
  · have hk : ¬ ClaimRule.scope.Passes q.cfg q.readings.verify c := fun h ↦ hs (grantsScope_iff.mpr h)
    rw [firstBroken_cons_of_not hk] at h
    rw [h, Authorizer.authorize, authorizer, if_neg hs]
    rfl

/-- Where the dates are numbers, the code refuses the claims by the first rule they do not pass. -/
theorem judge_rejection (hv : q.cfg.Valid) (hn : NumbersWherePresent c) {r : ClaimRule}
    (h : FirstBroken (ClaimRule.Passes q.cfg q.readings.verify c) (claimRules q.cfg) r) :
    q.judge c = some (r.rejection q.cfg) := by
  rw [claimRules] at h
  simp only [List.cons_append, List.nil_append] at h
  unfold judge registered checkNbf checkIat
  obtain ⟨hk, hi⟩ | ⟨hk, hi⟩ := iss_cases (c := c) hv
  swap
  · rw [firstBroken_cons_of_not hk] at h
    rw [h, hi]
    rfl
  rw [firstBroken_cons_of_kept hk] at h
  obtain ⟨hk, ha⟩ | ⟨hk, ha⟩ := aud_cases (q := q) (c := c)
  swap
  · rw [firstBroken_cons_of_not hk] at h
    rw [h, hi, ha]
    rfl
  rw [firstBroken_cons_of_kept hk] at h
  obtain ⟨hk, hk', he⟩ | ⟨hk, he⟩ | ⟨hk, hk', he⟩ := exp_cases (q := q) hn
  rotate_left
  · rw [firstBroken_cons_of_not hk] at h
    rw [h, hi, ha, he]
    rfl
  · rw [firstBroken_cons_of_kept hk, firstBroken_cons_of_not hk'] at h
    rw [h, hi, ha, he]
    rfl
  rw [firstBroken_cons_of_kept hk, firstBroken_cons_of_kept hk'] at h
  obtain ⟨hk, hb⟩ | ⟨hk, hb⟩ := notAfter_cases (q := q) hn "nbf" (by decide) .notYetValid
  swap
  · rw [firstBroken_cons_of_not hk] at h
    rw [h, hi, ha, he, hb]
    rfl
  rw [firstBroken_cons_of_kept hk] at h
  obtain ⟨hk, ht⟩ | ⟨hk, ht⟩ := notAfter_cases (q := q) hn "iat" (by decide) .issuedInFuture
  swap
  · rw [firstBroken_cons_of_not hk] at h
    rw [h, hi, ha, he, hb, ht]
    rfl
  rw [firstBroken_cons_of_kept hk] at h
  rw [hi, ha, he, hb, ht]
  exact authorize_rejection h

theorem judge_eq_none (hn : NumbersWherePresent c)
    (h : ∀ r ∈ claimRules q.cfg, r.Passes q.cfg q.readings.verify c) : q.judge c = none := by
  have hmem {r : ClaimRule} (hr : r ∈ [.iss, .aud, .hasExp, .notExpired, .nbf, .iat, .scope]) :
      r.Passes q.cfg q.readings.verify c := h r (List.mem_append_left _ hr)
  have hiss : c.get "iss" = some (.str q.cfg.issuerURL) := hmem (r := .iss) (by simp)
  have hi : checkIss q.verifier c = none := checkIss_eq_none.mpr (by rw [stringClaim, hiss]; rfl)
  have ha : checkAud q.verifier c = none := if_pos (audienceContains_iff.mpr (hmem (r := .aud) (by simp)))
  have hreg : registered q.verifier q.readings.verify c = none := by
    refine registered_eq_none.mpr ⟨hi, ha, ?_, ?_, ?_⟩
    · obtain ⟨_, _, he⟩ | ⟨hk, _⟩ | ⟨_, hk, _⟩ := exp_cases (q := q) hn
      · exact he
      · exact absurd (hmem (by simp)) hk
      · exact absurd (hmem (by simp)) hk
    · obtain ⟨_, hb⟩ | ⟨hk, _⟩ := notAfter_cases (q := q) hn "nbf" (by decide) .notYetValid
      · exact hb
      · exact absurd (hmem (r := .nbf) (by simp)) hk
    · obtain ⟨_, hb⟩ | ⟨hk, _⟩ := notAfter_cases (q := q) hn "iat" (by decide) .issuedInFuture
      · exact hb
      · exact absurd (hmem (r := .iat) (by simp)) hk
  have hauth : q.authorizer.authorize c = none := by
    refine authorize_eq_none.mpr ⟨grantsScope_iff.mpr (hmem (r := .scope) (by simp)), fun name hname ↦ ?_⟩
    exact nonEmpty_iff.mpr (h (.required name) (List.mem_append_right _ (List.mem_map_of_mem hname)))
  rw [judge, hreg, hauth]
  rfl

end Claims

theorem or_eq_some {a b : Option Fault} {f : Fault} :
    (a <|> b) = some f ↔ a = some f ∨ a = none ∧ b = some f := by
  cases a <;> simp

theorem registered_malformed_iff {c : Claims} :
    registered q.verifier q.readings.verify c = some .malformed ↔ q.NumberFault c := by
  rw [registered, or_eq_some, or_eq_some, or_eq_some, or_eq_some, checkExp_eq_malformed, checkNbf, checkIat,
    checkNotAfter_eq_malformed (by decide), checkNotAfter_eq_malformed (by decide), NumberFault, checkNbf]
  simp only [checkIss_ne_malformed, checkAud_ne_malformed, false_or]

theorem authorize_proper {a : Authorizer} {c : Claims} {rej : RejectionError} (h : a.authorize c = some rej) :
    rej.Proper ∧ rej.reason ≠ .invalidToken := by
  rw [Authorizer.authorize] at h
  split_ifs at h with hs
  · obtain ⟨name, _, rfl⟩ := Option.map_eq_some_iff.mp h
    simp [RejectionError.Proper, missingClaim]
  · cases h
    simp [RejectionError.Proper, missingScope]

/-- The claims make a token invalid only by what `registered` finds. -/
theorem judge_invalidToken_iff {c : Claims} {f : Fault} :
    q.judge c = some (invalidToken f) ↔ registered q.verifier q.readings.verify c = some f := by
  rw [judge]
  cases hr : registered q.verifier q.readings.verify c with
  | some g =>
    change some (invalidToken g) = some _ ↔ _
    rw [Option.some.injEq, Option.some.injEq, invalidToken_inj]
  | none =>
    change q.authorizer.authorize c = some _ ↔ _
    refine iff_of_false (fun h ↦ ?_) (by simp)
    exact (authorize_proper h).2 rfl

theorem judge_proper {c : Claims} {rej : RejectionError} (h : q.judge c = some rej) : rej.Proper := by
  rw [judge] at h
  cases hr : registered q.verifier q.readings.verify c with
  | some f =>
    rw [hr] at h
    cases h
    exact invalidToken_proper f
  | none =>
    rw [hr] at h
    exact (authorize_proper h).1

theorem registered_ne_signature {v : Verifier} {now : Time} {c : Claims} :
    registered v now c ≠ some .signature := by
  have hafter {name : Bytes} {f : Fault} (hf : f ≠ .signature) :
      checkNotAfter v now c name f ≠ some .signature := by
    unfold checkNotAfter
    split
    · simp
    · simp
    · split_ifs <;> simp [hf]
  have hexp : checkExp v now c ≠ some .signature := by
    unfold checkExp
    split
    · simp
    · simp
    · split_ifs <;> simp
  rw [registered, Ne, or_eq_some, or_eq_some, or_eq_some, or_eq_some]
  simp [checkIss, checkAud, hexp, checkNbf, checkIat, hafter]

def verdict (q : Request) : Option RejectionError :=
  match bearerToken q.sources with
  | none => some noToken
  | some token =>
    match (q.verifier.verify q.jose q.keys q.readings token).1 with
    | .error rej => some rej
    | .ok c => q.authorizer.authorize c

theorem authenticate_verdict {a : Authenticator} (ha : a.Configured q.cfg) (hv : q.cfg.Valid)
    (hk : a.keys = some q.keys) (ctx : Context) :
    (a.authenticate q.jose ctx q.sources q.readings).err = q.verdict.map .rejected := by
  obtain ⟨hver, hauth, _, _⟩ := ha.fields hv
  unfold Authenticator.authenticate verdict verifier authorizer
  rw [hk, hver, hauth]
  cases bearerToken q.sources with
  | none => rfl
  | some token =>
    dsimp only
    rcases Verifier.verify q.jose ⟨q.cfg.issuerURL, q.cfg.audience, q.cfg.algorithms, q.cfg.clockSkew⟩
      q.keys q.readings token with ⟨rej | c, k⟩
    · rfl
    · dsimp only
      cases Authorizer.authorize ⟨q.cfg.requiredScope, q.cfg.requiredClaims⟩ c with
      | none => rfl
      | some rej => rfl

section Verdict

variable {jws : JSONWebSignature} {h : Header} {key : JSONWebKey}

theorem verdict_no_token (hb : ¬ q.Kept .bearer) : q.verdict = some noToken := by
  cases hbt : bearerToken q.sources with
  | none => rw [verdict, hbt]
  | some token => exact absurd ⟨token, bears_iff.mpr hbt⟩ hb

theorem RefusesAlg.verdict (hr : q.RefusesAlg) : q.verdict = some (invalidToken .algorithm) := by
  obtain ⟨token, alg, hb, hh, hm⟩ := hr
  have hm' : alg ∉ q.verifier.algorithms := hm
  simp only [Request.verdict, bears_iff.mp hb, Verifier.verify, hh, if_neg hm']

theorem verdict_unread (hj : q.jose.Faithful) (hb : q.Kept .bearer) (ha : ¬ q.RefusesAlg)
    (hr : ¬ ∃ jws h, q.Reads jws h) : q.verdict = some (invalidToken .malformed) := by
  obtain ⟨token, hb⟩ := hb
  cases hh : headerAlgorithm token with
  | none => simp only [verdict, bears_iff.mp hb, Verifier.verify, hh]
  | some alg =>
    have hm : alg ∈ q.verifier.algorithms := by
      by_contra hm
      exact ha ⟨token, alg, hb, hh, hm⟩
    have hp : q.jose.parseSignedCompact token q.verifier.algorithms = none := by
      by_contra hp
      obtain ⟨jws, hjws⟩ := Option.ne_none_iff_exists'.mp hp
      obtain ⟨h, hs, _⟩ := hj.signature hjws
      exact hr ⟨jws, h, token, alg, hb, hh, hm, hjws, hs⟩
    simp only [verdict, bears_iff.mp hb, Verifier.verify, hh, if_pos hm, hp]

theorem Reads.verdict (hr : q.Reads jws h) :
    q.verdict = match (q.keys.keyFor q.jose q.readings.refresh q.readings.answer h).1 with
      | none => some (invalidToken .unknownKey)
      | some key =>
        match q.jose.verify jws key with
        | none => some (invalidToken .signature)
        | some p =>
          match decodeClaims p with
          | none => some (invalidToken .malformed)
          | some c => q.judge c := by
  obtain ⟨token, alg, hb, hh, hm, hp, hs⟩ := hr
  have hm : alg ∈ q.verifier.algorithms := hm
  have hp : q.jose.parseSignedCompact token q.verifier.algorithms = some jws := hp
  simp only [Request.verdict, bears_iff.mp hb, Verifier.verify, hh, if_pos hm, hp, KeySet.verifySignature, hs]
  rcases q.keys.keyFor q.jose q.readings.refresh q.readings.answer h with ⟨_ | key, k⟩
  · rfl
  · dsimp only
    cases q.jose.verify jws key with
    | none => rfl
    | some p =>
      dsimp only [Verifier.checkPayload]
      cases decodeClaims p with
      | none => rfl
      | some c =>
        dsimp only [judge]
        cases registered q.verifier q.readings.verify c with
        | none => rfl
        | some f => rfl

variable (hr : q.Reads jws h)
include hr

theorem verdict_unknown (hf : ¬ ∃ key, q.Finds h key) : q.verdict = some (invalidToken .unknownKey) := by
  have hn : (q.keys.keyFor q.jose q.readings.refresh q.readings.answer h).1 = none := by
    by_contra hk
    exact hf (Option.ne_none_iff_exists'.mp hk)
  rw [hr.verdict, hn]

theorem verdict_unsigned (hf : q.Finds h key) (hv : ¬ (q.jose.verify jws key).isSome = true) :
    q.verdict = some (invalidToken .signature) := by
  rw [Option.not_isSome_iff_eq_none] at hv
  rw [hr.verdict, hf]
  simp only [hv]

theorem verdict_signed (hj : q.jose.Faithful) (hf : q.Finds h key)
    (hv : (q.jose.verify jws key).isSome = true) :
    q.verdict = match decodeClaims jws.payload with
      | none => some (invalidToken .malformed)
      | some c => q.judge c := by
  obtain ⟨p, hp⟩ := Option.isSome_iff_exists.mp hv
  rw [hr.verdict, hf]
  simp only [hp]
  rw [hj.payload hp]

end Verdict

theorem verdict_proper (hj : q.jose.Faithful) {rej : RejectionError} (h : q.verdict = some rej) :
    rej.Proper := by
  by_cases hb : q.Kept .bearer
  swap
  · cases (verdict_no_token hb).symm.trans h
    simp [RejectionError.Proper, noToken]
  by_cases ha : q.RefusesAlg
  · cases ha.verdict.symm.trans h
    exact invalidToken_proper _
  by_cases hr : ∃ jws h, q.Reads jws h
  swap
  · cases (verdict_unread hj hb ha hr).symm.trans h
    exact invalidToken_proper _
  obtain ⟨jws, hd, hr⟩ := hr
  by_cases hf : ∃ key, q.Finds hd key
  swap
  · cases (verdict_unknown hr hf).symm.trans h
    exact invalidToken_proper _
  obtain ⟨key, hf⟩ := hf
  by_cases hv : (q.jose.verify jws key).isSome = true
  swap
  · cases (verdict_unsigned hr hf hv).symm.trans h
    exact invalidToken_proper _
  rw [verdict_signed hr hj hf hv] at h
  cases hd : decodeClaims jws.payload with
  | none =>
    rw [hd] at h
    cases h
    exact invalidToken_proper _
  | some c =>
    rw [hd] at h
    exact judge_proper h

section Order

variable (hj : q.jose.Faithful) (hv : q.cfg.Valid) {rule : Rule}
include hj hv

/-- From a token that is read, the code follows the table. -/
theorem read_rejection (ho : q.InOrder) {jws : JSONWebSignature} {h : Header} (hr : q.Reads jws h)
    (hf : q.BreaksFirst rule) : q.verdict = some (rule.rejection q.cfg) := by
  have hc := hr.carries hj
  have ha := hr.kept hj hv
  have hbreaks := (breaksFirst_iff ha).mp hf
  by_cases hkid : q.Kept .kid
  swap
  · rw [(firstBroken_cons_of_not hkid).mp hbreaks]
    exact verdict_unknown hr (fun ⟨key, hfind⟩ ↦ hkid (hfind.kept hj hr))
  obtain ⟨key, hfind⟩ := ho.kid jws h rule hkid hr hf
  have hver := ho.signature jws h key rule hr hfind hf
  rw [firstBroken_cons_of_kept hkid] at hbreaks
  by_cases hsig : q.Kept .signature
  swap
  · rw [(firstBroken_cons_of_not hsig).mp hbreaks]
    exact verdict_unsigned hr hfind (fun hs ↦ hsig (hver.mp hs))
  rw [firstBroken_cons_of_kept hsig] at hbreaks
  rw [verdict_signed hr hj hfind (hver.mpr hsig)]
  by_cases hpay : q.Kept .payload
  · obtain ⟨c', hd⟩ := ho.decoded jws h rule hsig hpay hr hf
    have hkept := (kept_payload_iff hc).mp hpay
    obtain ⟨c, hcl, _⟩ := id hkept
    obtain ⟨r, hfirst, rfl⟩ := (breaksFirst_claims ha hsig hpay hc hcl).mp hf
    rw [hd]
    exact judge_rejection hv (hkept.numbers hd) (ho.claims jws h c c' hsig hpay hr hcl hd r hfirst)
  · rw [(firstBroken_cons_of_not hpay).mp hbreaks]
    cases hd : decodeClaims jws.payload with
    | none => rfl
    | some c =>
      exact judge_invalidToken_iff.mpr (registered_malformed_iff.mpr (ho.payload jws h c hsig hpay hr hd))

theorem rejection_of_inOrder (ho : q.InOrder) (hf : q.BreaksFirst rule) :
    q.verdict = some (rule.rejection q.cfg) := by
  have hfirst := hf
  simp only [BreaksFirst, profile, List.cons_append, List.nil_append] at hfirst
  by_cases hb : q.Kept .bearer
  swap
  · rw [(firstBroken_cons_of_not hb).mp hfirst]
    exact verdict_no_token hb
  rw [firstBroken_cons_of_kept hb] at hfirst
  by_cases hs : q.Kept .segments
  swap
  · rw [(firstBroken_cons_of_not hs).mp hfirst]
    exact verdict_unread hj hb (ho.segments hs) (fun ⟨jws, h, hr⟩ ↦ hs ⟨jws, h, hr.carries hj⟩)
  rw [firstBroken_cons_of_kept hs] at hfirst
  by_cases ha : q.Kept .algorithm
  swap
  · rw [(firstBroken_cons_of_not ha).mp hfirst]
    exact (ho.algorithm hs ha).verdict
  by_cases hr : ∃ jws h, q.Reads jws h
  · obtain ⟨jws, h, hr⟩ := hr
    exact read_rejection hj hv ho hr hf
  · obtain ⟨rfl, hno⟩ := (ho.header ha rule hf).resolve_left hr
    exact verdict_unread hj hb hno hr

end Order

section Answers

variable (hall : ∀ rule, q.BreaksFirst rule → q.verdict = some (rule.rejection q.cfg)) {rule : Rule}
include hall

/-- A rule that is kept is not the one answered, unless the answer is malformed. -/
theorem verdict_ne_of_kept {rule' : Rule} (hf : q.BreaksFirst rule) (hk : q.Kept rule')
    (hne : rule'.rejection q.cfg ≠ invalidToken .malformed) : q.verdict ≠ some (rule'.rejection q.cfg) := by
  intro hverdict
  have he := Option.some.inj ((hall rule hf).symm.trans hverdict)
  obtain rfl | hmal := eq_of_rejection_eq he
  · exact hf.broken hk
  · exact hne (he.symm.trans hmal)

theorem eq_payload_of_verdict (hf : q.BreaksFirst rule) (hs : q.Kept .segments)
    (hverdict : q.verdict = some (invalidToken .malformed)) : rule = .payload := by
  obtain rfl | h := rejection_malformed (Option.some.inj ((hall rule hf).symm.trans hverdict))
  · exact absurd hs hf.broken
  · exact h

variable (hj : q.jose.Faithful) (hv : q.cfg.Valid) {jws : JSONWebSignature} {h : Header}

theorem finds_of_answers (hk : q.Kept .kid) (hr : q.Reads jws h) (hf : q.BreaksFirst rule) :
    ∃ key, q.Finds h key := by
  by_contra hno
  exact verdict_ne_of_kept hall hf hk (fun h ↦ by cases invalidToken_inj.mp h) (verdict_unknown hr hno)

include hj hv

theorem signature_of_answers {key : JSONWebKey} (hr : q.Reads jws h) (hfind : q.Finds h key)
    (hf : q.BreaksFirst rule) : (q.jose.verify jws key).isSome = true ↔ q.Kept .signature := by
  constructor
  · intro hver
    by_contra hk
    have hfirst : q.BreaksFirst .signature :=
      (breaksFirst_iff (hr.kept hj hv)).mpr (.later (hfind.kept hj hr) (.here hk))
    have hverdict := (verdict_signed hr hj hfind hver).symm.trans (hall _ hfirst)
    cases hd : decodeClaims jws.payload with
    | none =>
      rw [hd] at hverdict
      cases invalidToken_inj.mp (Option.some.inj hverdict)
    | some c =>
      rw [hd] at hverdict
      exact registered_ne_signature (judge_invalidToken_iff.mp hverdict)
  · intro hk
    by_contra hver
    exact verdict_ne_of_kept hall hf hk (fun h ↦ by cases invalidToken_inj.mp h)
      (verdict_unsigned hr hfind hver)

/-- A token that is read and keeps rule 5 is decoded and judged. -/
theorem judged_of_answers (hs : q.Kept .signature) (hr : q.Reads jws h) (hf : q.BreaksFirst rule) :
    (match decodeClaims jws.payload with
      | none => some (invalidToken .malformed)
      | some c => q.judge c) = some (rule.rejection q.cfg) := by
  obtain ⟨key, hfind⟩ := finds_of_answers hall (kept_kid hs) hr hf
  have hsigned := (signature_of_answers hall hj hv hr hfind hf).mpr hs
  exact (verdict_signed hr hj hfind hsigned).symm.trans (hall rule hf)

theorem decoded_of_answers (hs : q.Kept .signature) (hp : q.Kept .payload) (hr : q.Reads jws h)
    (hf : q.BreaksFirst rule) : ∃ c, decodeClaims jws.payload = some c := by
  by_contra hno
  have hd : decodeClaims jws.payload = none := by
    by_contra hd
    exact hno (Option.ne_none_iff_exists'.mp hd)
  have hverdict := judged_of_answers hall hj hv hs hr hf
  rw [hd] at hverdict
  have hpayload := eq_payload_of_verdict hall hf (kept_segments (hr.kept hj hv))
    ((hall rule hf).trans hverdict.symm)
  rw [hpayload] at hf
  exact hf.broken hp

theorem claims_of_answers {c c' : Claims} (hs : q.Kept .signature) (hp : q.Kept .payload)
    (hr : q.Reads jws h) (hcl : payloadClaims jws.payload = some c)
    (hd : decodeClaims jws.payload = some c') {r : ClaimRule}
    (hfirst : FirstBroken (ClaimRule.Kept q.cfg q.readings.verify c) (claimRules q.cfg) r) :
    FirstBroken (ClaimRule.Passes q.cfg q.readings.verify c') (claimRules q.cfg) r := by
  have hc := hr.carries hj
  have hnum := ((kept_payload_iff hc).mp hp).numbers hd
  have hf := (breaksFirst_claims (hr.kept hj hv) hs hp hc hcl).mpr ⟨r, hfirst, rfl⟩
  have hverdict := judged_of_answers hall hj hv hs hr hf
  rw [hd] at hverdict
  obtain hpass | ⟨r', hr'⟩ :=
    forall_or_firstBroken (ClaimRule.Passes q.cfg q.readings.verify c') (claimRules q.cfg)
  · cases (judge_eq_none hnum hpass).symm.trans hverdict
  · have he : Rule.rejection q.cfg (.claims r) = Rule.rejection q.cfg (.claims r') :=
      Option.some.inj (hverdict.symm.trans (judge_rejection hv hnum hr'))
    obtain hrule | hmal := eq_of_rejection_eq he
    · cases hrule
      exact hr'
    · obtain h | h := rejection_malformed hmal <;> cases h

theorem inOrder_of_answers : q.InOrder where
  segments hs hr := by
    obtain ⟨token, alg, hb, _⟩ := id hr
    have hbearer : q.Kept .bearer := ⟨token, hb⟩
    have hverdict := hr.verdict.symm.trans (hall .segments (.later hbearer (.here hs)))
    cases invalidToken_inj.mp (Option.some.inj hverdict)
  algorithm hs ha := by
    by_contra hr
    have hread : ¬ ∃ jws h, q.Reads jws h := fun ⟨jws, h, hread⟩ ↦ ha (hread.kept hj hv)
    have hverdict := (verdict_unread hj (kept_bearer hs) hr hread).symm.trans
      (hall .algorithm (.later (kept_bearer hs) (.later hs (.here ha))))
    cases invalidToken_inj.mp (Option.some.inj hverdict)
  header ha rule hf := by
    by_cases hr : ∃ jws h, q.Reads jws h
    · exact .inl hr
    · right
      have hno : ¬ q.RefusesAlg := fun href ↦
        verdict_ne_of_kept hall hf ha (fun h ↦ by cases invalidToken_inj.mp h) href.verdict
      have hs := kept_segments ha
      exact ⟨eq_payload_of_verdict hall hf hs (verdict_unread hj (kept_bearer hs) hno hr), hno⟩
  kid _ _ _ hk hr hf := finds_of_answers hall hk hr hf
  signature _ _ _ _ hr hfind hf := signature_of_answers hall hj hv hr hfind hf
  payload jws h c hs hp hr hd := by
    have hfirst : q.BreaksFirst .payload :=
      (breaksFirst_iff (hr.kept hj hv)).mpr (.later (kept_kid hs) (.later hs (.here hp)))
    have hverdict := judged_of_answers hall hj hv hs hr hfirst
    rw [hd] at hverdict
    exact registered_malformed_iff.mp (judge_invalidToken_iff.mp hverdict)
  decoded _ _ _ hs hp hr hf := decoded_of_answers hall hj hv hs hp hr hf
  claims _ _ _ _ hs hp hr hcl hd _ hfirst := claims_of_answers hall hj hv hs hp hr hcl hd hfirst

end Answers

end Request

def exampleRequest (jws : JSONWebSignature) (now : Time) : Request where
  jose := exampleJose jws
  cfg := exampleConfig
  keys := publishedKeys
  sources := exampleSources jws
  readings := { exampleReadings with verify := now }

/-- A token of another issuer whose exp is a string. -/
def neverToken : JSONWebSignature := signedToken
  "\x7b\"iss\":\"https://other.example\",\"exp\":\"never\"\x7d"
  "eyJpc3MiOiJodHRwczovL290aGVyLmV4YW1wbGUiLCJleHAiOiJuZXZlciJ9"
  "LAkKyhyFkNxSOHk1UUJNXV6quZ1ZTRWHnbWXKAG2XofRspZ-eKjNc7kL4zHNBVp9-wfg462mIeXeb9bogMzEcA"

theorem exampleJose_faithful {jws : JSONWebSignature} (hd : (exampleJose jws).Documented)
    (hc : compactJWS jws.compact = some jws) : (exampleJose jws).Faithful := by
  refine ⟨hd, fun {token alg algs jws'} _ hp ↦ ?_⟩
  have hmem := List.mem_of_find?_eq_some hp
  have hfound := List.find?_some hp
  rw [List.mem_singleton] at hmem
  simp only [Bool.and_eq_true, decide_eq_true_eq] at hfound
  rw [← hfound.1, hmem]
  exact hc

section Example

variable {jws : JSONWebSignature} {now : Time} (hs : jws.signatures = [⟨"k1", "ES256"⟩])
  (hb : bearerToken (exampleSources jws) = some jws.compact) (hc : compactJWS jws.compact = some jws)
include hs hb hc

theorem exampleRequest_carries : (exampleRequest jws now).Carries jws ⟨"k1", "ES256"⟩ :=
  ⟨jws.compact, Request.bears_iff.mpr hb, hc, hs⟩

theorem exampleRequest_kept_algorithm : (exampleRequest jws now).Kept .algorithm :=
  ⟨jws, _, exampleRequest_carries hs hb hc, by decide⟩

theorem exampleRequest_kept_signature : (exampleRequest jws now).Kept .signature := by
  refine ⟨jws, _, publishedKey, exampleRequest_carries hs hb hc, ⟨by decide, ?_, rfl⟩, ?_⟩
  · have hcached : ∃ key ∈ publishedKeys.keys.keys, key.keyID = ofString "k1" :=
      ⟨publishedKey, by decide, rfl⟩
    rw [Request.keysFor, if_pos (.inl hcached)]
    exact List.mem_singleton_self publishedKey
  · simp [exampleRequest, exampleJose, providerJose]

theorem exampleRequest_breaks_payload (hp : ¬ PayloadKept jws.payload) :
    (exampleRequest jws now).BreaksFirst .payload := by
  have hsig : (exampleRequest jws now).Kept .signature := exampleRequest_kept_signature hs hb hc
  refine (Request.breaksFirst_iff (exampleRequest_kept_algorithm hs hb hc)).mpr
    (.later (Request.kept_kid hsig) (.later hsig (.here ?_)))
  rw [Request.kept_payload_iff (exampleRequest_carries hs hb hc)]
  exact hp

def sameClaims (now : Time) (payload : Bytes) : Bool :=
  (payloadClaims payload).all fun c ↦ (decodeClaims payload).any fun c' ↦
    (claimRules exampleConfig).all fun r ↦
      r.holds tableReading exampleConfig now c = r.holds codeReading exampleConfig now c'

variable (hj : (exampleJose jws).Faithful) (hh : headerAlgorithm jws.compact = some (ofString "ES256"))
include hj hh

theorem exampleRequest_inOrder (hp : PayloadKept jws.payload) (hsame : sameClaims now jws.payload = true) :
    (exampleRequest jws now).InOrder := by
  have hj : (exampleRequest jws now).jose.Faithful := hj
  have hcarries : (exampleRequest jws now).Carries jws ⟨"k1", "ES256"⟩ := exampleRequest_carries hs hb hc
  have halg : (exampleRequest jws now).Kept .algorithm := exampleRequest_kept_algorithm hs hb hc
  have hsig : (exampleRequest jws now).Kept .signature := exampleRequest_kept_signature hs hb hc
  have hpay : (exampleRequest jws now).Kept .payload := (Request.kept_payload_iff hcarries).mpr hp
  have hparse : (exampleJose jws).parseSignedCompact jws.compact supportedAlgorithms = some jws := by
    have ha : ∀ h ∈ jws.signatures, h.algorithm ∈ supportedAlgorithms := by
      rw [hs]
      decide
    simpa [exampleJose, providerJose] using ha
  have hreads : (exampleRequest jws now).Reads jws ⟨"k1", "ES256"⟩ :=
    ⟨jws.compact, _, Request.bears_iff.mpr hb, hh, (by decide : _ ∈ supportedAlgorithms), hparse, hs⟩
  have hagree : ∀ c, payloadClaims jws.payload = some c → ∃ c', decodeClaims jws.payload = some c' ∧
      ∀ r ∈ claimRules exampleConfig, r.Kept exampleConfig now c ↔ r.Passes exampleConfig now c' := by
    intro c hcl
    simp only [sameClaims, hcl, Option.all_some, Option.any_eq_true, List.all_eq_true,
      decide_eq_true_eq] at hsame
    obtain ⟨c', hd, hr⟩ := hsame
    refine ⟨c', hd, fun r hmem ↦ ?_⟩
    rw [ClaimRule.Kept, ClaimRule.Passes, ← holds_iff, ← holds_iff, hr r hmem]
  constructor
  · intro hno
    exact absurd (Request.kept_segments halg) hno
  · intro _ hno
    exact absurd halg hno
  · intro _ rule _
    exact .inl ⟨jws, _, hreads⟩
  · intro jws' h rule _ hr _
    obtain ⟨rfl, rfl⟩ := hcarries.unique (hr.carries hj)
    exact ⟨publishedKey, by rfl⟩
  · intro jws' h key rule hr hfind _
    obtain ⟨rfl, rfl⟩ := hcarries.unique (hr.carries hj)
    have hkey : some publishedKey = some key := hfind
    cases hkey
    exact iff_of_true (by simp [exampleRequest, exampleJose, providerJose]) hsig
  · intro jws' h c _ hno
    exact absurd hpay hno
  · intro jws' h rule _ _ hr _
    obtain ⟨rfl, rfl⟩ := hcarries.unique (hr.carries hj)
    obtain ⟨c, hcl, _⟩ := hp
    obtain ⟨c', hd, _⟩ := hagree c hcl
    exact ⟨c', hd⟩
  · intro jws' h c c' _ _ hr hcl hd r hfirst
    obtain ⟨rfl, rfl⟩ := hcarries.unique (hr.carries hj)
    obtain ⟨c'', hd', hiff⟩ := hagree c hcl
    cases hd.symm.trans hd'
    exact (firstBroken_congr hiff).mp hfirst

end Example

end OtlpCollectorOidc.Auth

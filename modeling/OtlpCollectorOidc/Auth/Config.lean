import Mathlib.Data.List.AList
import OtlpCollectorOidc.Lib.Number
import OtlpCollectorOidc.Lib.Url

namespace OtlpCollectorOidc.Auth

open Text Number

/-- A Go map from strings to strings, its entries in one of the orders `range` may yield. -/
abbrev Attributes := AList (fun _ : Bytes ↦ Bytes)

structure Config where
  issuerURL : Bytes
  audience : Bytes
  discoveryRetry : Duration
  jwksRefresh : Duration
  requiredScope : Bytes
  requiredClaims : List Bytes
  claimAttributes : Attributes
  resourceAttributes : Attributes
  clockSkew : Duration
  rejectionLogInterval : Duration
  algorithms : List Bytes

inductive ConfigError where
  | noIssuer
  | issuerNotURL
  | noAudience
  | discoveryRetry
  | jwksRefresh
  | requiredScope
  | emptyRequiredClaim
  | emptyClaimAttribute
  | emptyResourceKey
  | attributeCollision (attr : Bytes)
  | clockSkew
  | rejectionLogInterval
  | noAlgorithms
  | unsupportedAlgorithms (name : Bytes)
  deriving DecidableEq

/-- The text of each error; `%q` quotes a name as `strconv.Quote` does. -/
def ConfigError.error (quote : Bytes → Bytes) : ConfigError → Bytes
  | .noIssuer => "issuer_url must be set"
  | .issuerNotURL => "issuer_url must be an absolute http or https URL"
  | .noAudience => "audience must be set"
  | .discoveryRetry => "discovery_retry must be positive"
  | .jwksRefresh => "jwks_refresh must be positive"
  | .requiredScope => "required_scope must be one non-empty scope token"
  | .emptyRequiredClaim => "required_claims must not contain an empty name"
  | .emptyClaimAttribute => "claim_attributes must not contain an empty claim or attribute"
  | .emptyResourceKey => "resource_attributes must not contain an empty key"
  | .attributeCollision attr =>
    ofString "an attribute is named by both claim_attributes and resource_attributes: " ++ attr
  | .clockSkew => "clock_skew must not be negative"
  | .rejectionLogInterval => "rejection_log_interval must be positive"
  | .noAlgorithms => "algorithms must name at least one algorithm"
  | .unsupportedAlgorithms name =>
    ofString "algorithms may contain only RS256, RS384, RS512, ES256, ES384, ES512: " ++ quote name

def supportedAlgorithms : List Bytes :=
  ["RS256", "RS384", "RS512", "ES256", "ES384", "ES512"].map ofString

def Config.checkIssuer (c : Config) : List ConfigError :=
  if c.issuerURL = [] then [.noIssuer]
  else match Url.parse c.issuerURL with
    | none => [.issuerNotURL]
    | some u =>
      if (u.scheme ≠ ofString "http" ∧ u.scheme ≠ ofString "https") ∨ u.host = [] then [.issuerNotURL]
      else []

def firstUnsupported : List Bytes → Option Bytes
  | [] => none
  | name :: names => if name ∈ supportedAlgorithms then firstUnsupported names else some name

/-- `Config.algorithms`: the allowlist, or why there is none. -/
def Config.allowlist (c : Config) : Except ConfigError (List Bytes) :=
  if c.algorithms = [] then .error .noAlgorithms
  else match firstUnsupported c.algorithms with
    | some name => .error (.unsupportedAlgorithms name)
    | none => .ok c.algorithms

def check (bad : Bool) (e : ConfigError) : List ConfigError := if bad then [e] else []

/-- `Config.Validate`: every setting it refuses, none when it accepts. -/
def Config.validate (c : Config) : List ConfigError :=
  c.checkIssuer ++
  check (c.audience = []) .noAudience ++
  check (c.discoveryRetry ≤ 0) .discoveryRetry ++
  check (c.jwksRefresh ≤ 0) .jwksRefresh ++
  check (c.requiredScope = [] || c.requiredScope.any (· ∈ ofString " \t\r\n")) .requiredScope ++
  check (c.requiredClaims.any (· = [])) .emptyRequiredClaim ++
  check (c.claimAttributes.entries.any (fun e ↦ e.1 = [] || e.2 = [])) .emptyClaimAttribute ++
  check (c.resourceAttributes.entries.any (fun e ↦ e.1 = [])) .emptyResourceKey ++
  (c.claimAttributes.entries.filter (fun e ↦ (c.resourceAttributes.lookup e.2).isSome)).map
    (fun e ↦ .attributeCollision e.2) ++
  check (c.clockSkew < 0) .clockSkew ++
  check (c.rejectionLogInterval ≤ 0) .rejectionLogInterval ++
  match c.allowlist with
  | .error e => [e]
  | .ok _ => []

def Config.Valid (c : Config) : Prop := c.validate = []

def createDefaultConfig : Config where
  issuerURL := []
  audience := []
  discoveryRetry := 30 * second
  jwksRefresh := 10 * 60 * second
  requiredScope := "telemetry:write"
  requiredClaims := ["sub", "preferred_username"]
  claimAttributes := ⟨[⟨"sub", "user.id"⟩, ⟨"preferred_username", "user.name"⟩,
    ⟨"email", "user.email"⟩, ⟨"name", "user.full_name"⟩], by unfold List.NodupKeys; decide⟩
  resourceAttributes := ∅
  clockSkew := 60 * second
  rejectionLogInterval := 60 * second
  algorithms := supportedAlgorithms

theorem check_eq_nil {bad : Bool} {e : ConfigError} : check bad e = [] ↔ bad = false := by
  cases bad <;> simp [check]

theorem firstUnsupported_eq_none {names : List Bytes} :
    firstUnsupported names = none ↔ ∀ name ∈ names, name ∈ supportedAlgorithms := by
  induction names with
  | nil => simp [firstUnsupported]
  | cons name names ih =>
    rw [firstUnsupported]
    split_ifs with h
    · simp [ih, h]
    · simp [h]

namespace Config.Valid

variable {c : Config}

theorem issuer_ne (h : c.Valid) : c.issuerURL ≠ [] := by
  intro he
  simp [Config.Valid, Config.validate, Config.checkIssuer, he] at h

theorem collision_free (h : c.Valid) {e : Sigma (fun _ : Bytes ↦ Bytes)}
    (he : e ∈ c.claimAttributes.entries) : c.resourceAttributes.lookup e.2 = none := by
  simp only [Config.Valid, Config.validate, List.append_eq_nil_iff, List.map_eq_nil_iff,
    List.filter_eq_nil_iff] at h
  have hc := h.1.1.1.2 e he
  simpa using hc

theorem allowlist_eq (h : c.Valid) : c.allowlist = .ok c.algorithms := by
  simp only [Config.Valid, Config.validate, List.append_eq_nil_iff] at h
  have ha := h.2
  unfold Config.allowlist at ha ⊢
  split_ifs at ha ⊢ with hn
  · cases hf : firstUnsupported c.algorithms with
    | none => rfl
    | some name => simp [hf] at ha

theorem supported (h : c.Valid) : ∀ name ∈ c.algorithms, name ∈ supportedAlgorithms := by
  have ha := h.allowlist_eq
  unfold Config.allowlist at ha
  split_ifs at ha with hn
  cases hf : firstUnsupported c.algorithms with
  | none => exact firstUnsupported_eq_none.mp hf
  | some name => simp [hf] at ha

end Config.Valid

/-- The defaults are accepted once the two settings that have none are. -/
theorem createDefaultConfig_valid {issuer audience : Bytes}
    (hi : Config.checkIssuer { createDefaultConfig with issuerURL := issuer } = [])
    (ha : audience ≠ []) :
    Config.Valid { createDefaultConfig with issuerURL := issuer, audience := audience } := by
  have hissuer : Config.checkIssuer
      { createDefaultConfig with issuerURL := issuer, audience := audience } = [] := hi
  rw [Config.Valid, Config.validate, hissuer]
  simp only [List.nil_append, List.append_eq_nil_iff, check_eq_nil]
  refine ⟨⟨⟨⟨⟨⟨⟨⟨⟨⟨decide_eq_false ha, ?_⟩, ?_⟩, ?_⟩, ?_⟩, ?_⟩, ?_⟩, ?_⟩, ?_⟩, ?_⟩, ?_⟩ <;> rfl

def exampleConfig : Config :=
  { createDefaultConfig with issuerURL := "https://id.example", audience := "collector" }

theorem exampleConfig_valid : exampleConfig.Valid := createDefaultConfig_valid (by decide +kernel) (by decide)

end OtlpCollectorOidc.Auth

import OtlpCollectorOidc.Lib.Json
import OtlpCollectorOidc.Lib.Number

namespace OtlpCollectorOidc.Auth

open Text Number Json

/-- go-jose's `JSONWebKey`: what the code reads of it, what `IsPublic` answers
and the key itself. -/
structure JSONWebKey where
  keyID : Bytes
  algorithm : Bytes
  use : Bytes
  isPublic : Bool
  key : Bytes
  deriving DecidableEq

structure Header where
  keyID : Bytes
  algorithm : Bytes
  deriving DecidableEq

structure JSONWebSignature where
  signatures : List Header
  payload : Bytes
  compact : Bytes
  deriving DecidableEq

/-- What the code calls of go-jose, which is not in the repository. -/
structure Jose where
  unmarshalJSON : Bytes → Option JSONWebKey
  parseSignedCompact : Bytes → List Bytes → Option JSONWebSignature
  verify : JSONWebSignature → JSONWebKey → Option Bytes

def isBase64URL (segment : Bytes) : Bool := (decodeString (segment.rdropWhile (· = 0x3D))).isSome

/-- What go-jose documents of `ParseSignedCompact` and `Verify`: a compact JWS
has three base64url segments and one signature, whose alg the caller must have
allowed, and a signature that verifies yields the payload. -/
structure Jose.Documented (jose : Jose) : Prop where
  segments : ∀ {token algs jws}, jose.parseSignedCompact token algs = some jws →
    (token.splitOn 0x2E).length = 3 ∧ ∀ segment ∈ token.splitOn 0x2E, isBase64URL segment = true
  signature : ∀ {token algs jws}, jose.parseSignedCompact token algs = some jws →
    ∃ h, jws.signatures = [h] ∧ h.algorithm ∈ algs
  allowlist : ∀ {token algs algs' jws h}, jose.parseSignedCompact token algs = some jws →
    jws.signatures = [h] → h.algorithm ∈ algs' → jose.parseSignedCompact token algs' = some jws
  payload : ∀ {jws key payload}, jose.verify jws key = some payload → payload = jws.payload

def providerJose (keys : List (Bytes × JSONWebKey)) (tokens : List JSONWebSignature) : Jose where
  unmarshalJSON text := (keys.find? (·.1 = text)).map Prod.snd
  parseSignedCompact token algs :=
    tokens.find? (fun jws ↦ jws.compact = token && jws.signatures.all (·.algorithm ∈ algs))
  verify jws key :=
    if jws.compact ∈ tokens.map JSONWebSignature.compact ∧ key ∈ keys.map Prod.snd then some jws.payload
    else none

theorem providerJose_documented {keys : List (Bytes × JSONWebKey)} {tokens : List JSONWebSignature}
    (hs : ∀ jws ∈ tokens, (jws.compact.splitOn 0x2E).length = 3 ∧
      ∀ segment ∈ jws.compact.splitOn 0x2E, isBase64URL segment = true)
    (hh : ∀ jws ∈ tokens, jws.signatures.length = 1)
    (hu : ∀ jws ∈ tokens, ∀ jws' ∈ tokens, jws.compact = jws'.compact → jws = jws') :
    (providerJose keys tokens).Documented := by
  have hf {token algs jws} (h : (providerJose keys tokens).parseSignedCompact token algs = some jws) :
      jws ∈ tokens ∧ jws.compact = token ∧ ∀ h ∈ jws.signatures, h.algorithm ∈ algs := by
    have hp := List.find?_some h
    simp only [Bool.and_eq_true, decide_eq_true_eq, List.all_eq_true] at hp
    exact ⟨List.mem_of_find?_eq_some h, hp⟩
  constructor
  · intro token algs jws h
    obtain ⟨hm, rfl, _⟩ := hf h
    exact hs jws hm
  · intro token algs jws h
    obtain ⟨hm, _, ha⟩ := hf h
    obtain ⟨hd, he⟩ := List.length_eq_one_iff.mp (hh jws hm)
    exact ⟨hd, he, ha hd (by simp [he])⟩
  · intro token algs algs' jws hd h he ha
    obtain ⟨hm, rfl, _⟩ := hf h
    have hsome : ((providerJose keys tokens).parseSignedCompact jws.compact algs').isSome := by
      rw [providerJose, List.find?_isSome]
      exact ⟨jws, hm, by simp [he, ha]⟩
    obtain ⟨jws', h'⟩ := Option.isSome_iff_exists.mp hsome
    obtain ⟨hm', hc, _⟩ := hf h'
    rw [h', hu jws' hm' jws hm hc]
  · intro jws key payload h
    simp only [providerJose] at h
    split_ifs at h
    exact (Option.some.inj h).symm

def JSONWebKey.Signing (k : JSONWebKey) : Prop := k.isPublic = true ∧ k.use ≠ ofString "enc"

instance (k : JSONWebKey) : Decidable k.Signing := inferInstanceAs (Decidable (_ ∧ _))

/-- What `parseJWKS` may return: at least one key, each public and none for encryption. -/
structure JWKS where
  keys : List JSONWebKey
  nonempty : keys ≠ []
  signing : ∀ k ∈ keys, k.Signing
  deriving DecidableEq

inductive FetchError where
  | request
  | status
  | reading
  | tooLarge
  | decoding
  | noSigningKey
  deriving DecidableEq

/-- How a JWKS request ended: not at all, or with a body that arrived whole or broke off. -/
inductive Answer where
  | failed
  | response (status : ℕ) (body : Bytes) (whole : Bool)
  deriving DecidableEq

def maxJWKSBytes : ℕ := 2 ^ 20

def minRefreshInterval : Duration := 10 * second

def fetchTimeout : Duration := 10 * second

structure KeySet where
  keys : JWKS
  generation : ℕ
  missFetched : Time
  deriving DecidableEq

def findKey (keys : List JSONWebKey) (kid alg : Bytes) : Option JSONWebKey :=
  if kid = [] then none
  else keys.find? (fun k ↦ k.keyID = kid && (k.algorithm = [] || k.algorithm = alg))

inductive VerifyError where
  | unknownKey
  | badSignature
  deriving DecidableEq

section Fetching

variable (jose : Jose)

def documentKeys (raw : List Bytes) : List JSONWebKey := raw.filterMap jose.unmarshalJSON

def signingKeys (raw : List Bytes) : List JSONWebKey :=
  (documentKeys jose raw).filter (fun k ↦ k.Signing)

theorem signingKeys_signing (raw : List Bytes) : ∀ k ∈ signingKeys jose raw, k.Signing := fun _ hk ↦
  of_decide_eq_true (List.mem_filter.mp hk).2

def parseJWKS (body : Bytes) : Except FetchError JWKS :=
  match unmarshalRawField "keys" body with
  | none => .error .decoding
  | some raw =>
    if h : signingKeys jose raw = [] then .error .noSigningKey
    else .ok ⟨signingKeys jose raw, h, signingKeys_signing jose raw⟩

def fetch : Answer → Except FetchError JWKS
  | .failed => .error .request
  | .response status body whole =>
    if status ≠ 200 then .error .status
    -- The limited reader stops one byte past the bound, so a longer body never breaks off.
    else if ¬ whole ∧ body.length ≤ maxJWKSBytes then .error .reading
    else if (body.take (maxJWKSBytes + 1)).length > maxJWKSBytes then .error .tooLarge
    else parseJWKS jose body

/-- `newKeySet` and the first `refresh` in one: nobody sees the set in between. -/
def newKeySet (keys : JWKS) : KeySet := { keys := keys, generation := 1, missFetched := zeroTime }

namespace KeySet

def lookup (k : KeySet) (kid alg : Bytes) : Option JSONWebKey × ℕ :=
  (findKey k.keys.keys kid alg, k.generation)

def store (k : KeySet) (keys : JWKS) : KeySet :=
  { k with keys := keys, generation := k.generation + 1 }

def refresh (k : KeySet) (answer : Answer) : Except FetchError KeySet :=
  (fetch jose answer).map k.store

def refreshed (k : KeySet) (answer : Answer) : KeySet :=
  match k.refresh jose answer with
  | .ok k' => k'
  | .error _ => k

def stale (k : KeySet) (now : Time) (generation : ℕ) : Bool :=
  k.generation = generation && minRefreshInterval ≤ sub now k.missFetched

def mark (k : KeySet) (now : Time) : KeySet := { k with missFetched := now }

def refreshFor (k : KeySet) (now : Time) (answer : Answer) (kid alg : Bytes) (generation : ℕ) :
    Option JSONWebKey × KeySet :=
  if k.stale now generation then
    match (k.mark now).refresh jose answer with
    | .error _ => (none, k.mark now)
    | .ok k' => ((k'.lookup kid alg).1, k')
  else ((k.lookup kid alg).1, k)

/-- The key a header names, after one refresh at most, and the set it leaves. -/
def keyFor (k : KeySet) (now : Time) (answer : Answer) (h : Header) : Option JSONWebKey × KeySet :=
  match k.lookup h.keyID h.algorithm with
  | (some key, _) => (some key, k)
  | (none, generation) => k.refreshFor jose now answer h.keyID h.algorithm generation

def verifySignature (k : KeySet) (now : Time) (answer : Answer) (jws : JSONWebSignature) :
    Except VerifyError Bytes × KeySet :=
  match jws.signatures with
  | [h] =>
    match k.keyFor jose now answer h with
    | (none, k') => (.error .unknownKey, k')
    | (some key, k') =>
      match jose.verify jws key with
      | none => (.error .badSignature, k')
      | some payload => (.ok payload, k')
  | _ => (.error .badSignature, k)

end KeySet

end Fetching

theorem findKey_eq_some {keys : List JSONWebKey} {kid alg : Bytes} {key : JSONWebKey}
    (h : findKey keys kid alg = some key) :
    key ∈ keys ∧ kid ≠ [] ∧ key.keyID = kid ∧ (key.algorithm = [] ∨ key.algorithm = alg) := by
  unfold findKey at h
  split_ifs at h with hk
  have hf := List.find?_some h
  simp only [Bool.and_eq_true, Bool.or_eq_true, decide_eq_true_eq] at hf
  exact ⟨List.mem_of_find?_eq_some h, hk, hf⟩

/-- A named key can be found, if not always itself: one with its kid and alg before it shadows it. -/
theorem findKey_of_mem {keys : List JSONWebKey} {kid alg : Bytes} {key : JSONWebKey}
    (hm : key ∈ keys) (hn : kid ≠ []) (hk : key.keyID = kid)
    (ha : key.algorithm = [] ∨ key.algorithm = alg) : ∃ key', findKey keys kid alg = some key' := by
  have hs : (keys.find? (fun k ↦ k.keyID = kid && (k.algorithm = [] || k.algorithm = alg))).isSome := by
    rw [List.find?_isSome]
    exact ⟨key, hm, by simpa [hk] using ha⟩
  obtain ⟨key', hk'⟩ := Option.isSome_iff_exists.mp hs
  exact ⟨key', by rw [findKey, if_neg hn, hk']⟩

def publishedText : Bytes :=
  ofString "\x7b\"kty\":\"EC\",\"crv\":\"P-256\",\"kid\":\"k1\"," ++
    ofString "\"x\":\"3iKwYVuOHnOI7hLp_UIb2qTcL_2u5uPBY951nKOYxjI\"," ++
    ofString "\"y\":\"tpeyKi_474vg7teoMgSzztoJa4ojTRbfBBdzUuoAeRA\"\x7d"

def publishedKey : JSONWebKey where
  keyID := "k1"
  algorithm := []
  use := []
  isPublic := true
  key := "3iKwYVuOHnOI7hLp_UIb2qTcL_2u5uPBY951nKOYxjI.tpeyKi_474vg7teoMgSzztoJa4ojTRbfBBdzUuoAeRA"

def retiredText : Bytes :=
  ofString "\x7b\"kty\":\"EC\",\"crv\":\"P-256\",\"kid\":\"k0\"," ++
    ofString "\"x\":\"Akph0W-z_cJJRYjbC2QIS6_Rtu8OjRyrwm6EEDu7i2M\"," ++
    ofString "\"y\":\"mhQFq4zFDsFObJtkPSlVTCW_yK7Y2q74-jCrPuMmsfQ\"\x7d"

def retiredKey : JSONWebKey where
  keyID := "k0"
  algorithm := []
  use := []
  isPublic := true
  key := "Akph0W-z_cJJRYjbC2QIS6_Rtu8OjRyrwm6EEDu7i2M.mhQFq4zFDsFObJtkPSlVTCW_yK7Y2q74-jCrPuMmsfQ"

def rotationJose : Jose := providerJose [(retiredText, retiredKey), (publishedText, publishedKey)] []

def bothKeys : KeySet := newKeySet ⟨[retiredKey, publishedKey], by decide, by decide⟩

def retiredBody : Bytes := ofString "\x7b\"keys\":[" ++ retiredText ++ ofString "]\x7d"

def rotatedBody : Bytes := ofString "\x7b\"keys\":[" ++ publishedText ++ ofString "]\x7d"

def emptiedBody : Bytes := "\x7b\"keys\":[]\x7d"

section Refresh

variable {jose : Jose} {k : KeySet}

theorem fetch_eq_ok {answer : Answer} {keys : JWKS} (h : fetch jose answer = .ok keys) :
    ∃ body whole raw, answer = .response 200 body whole ∧
      unmarshalRawField "keys" body = some raw ∧ keys.keys = signingKeys jose raw := by
  cases answer with
  | failed => cases h
  | response status body whole =>
    rw [fetch] at h
    split_ifs at h with hs hw hl
    unfold parseJWKS at h
    cases hr : unmarshalRawField "keys" body with
    | none => simp [hr] at h
    | some raw =>
      rw [hr] at h
      dsimp only at h
      split_ifs at h with hn
      cases h
      exact ⟨body, whole, raw, by rw [not_not.mp hs], hr, rfl⟩

theorem fetch_document {body : Bytes} {raw : List Bytes} (hl : body.length ≤ maxJWKSBytes)
    (hr : unmarshalRawField "keys" body = some raw) :
    fetch jose (.response 200 body true) =
      if h : signingKeys jose raw = [] then .error .noSigningKey
      else .ok ⟨signingKeys jose raw, h, signingKeys_signing jose raw⟩ := by
  have ht : ¬ (body.take (maxJWKSBytes + 1)).length > maxJWKSBytes := by
    rw [List.length_take]
    omega
  simp only [fetch, ne_eq, not_true_eq_false, if_false, false_and, if_neg ht, parseJWKS, hr]

theorem refreshed_document {body : Bytes} {raw : List Bytes} (hl : body.length ≤ maxJWKSBytes)
    (hr : unmarshalRawField "keys" body = some raw) :
    (k.refreshed jose (.response 200 body true)).keys.keys =
      if signingKeys jose raw = [] then k.keys.keys else signingKeys jose raw := by
  unfold KeySet.refreshed KeySet.refresh
  rw [fetch_document hl hr]
  split_ifs with h
  · rfl
  · rfl

/-- A key the provider no longer publishes is dropped by the next re-read,
unless the document has no key left that the collector can use. -/
theorem refreshed_trusts_document_iff (jose : Jose) (k : KeySet) (body : Bytes) (raw : List Bytes)
    (hl : body.length ≤ maxJWKSBytes) (hr : unmarshalRawField "keys" body = some raw) :
    (∀ kid alg key, ((k.refreshed jose (.response 200 body true)).lookup kid alg).1 = some key →
      key ∈ documentKeys jose raw) ↔
    (∃ key ∈ documentKeys jose raw, key.Signing) ∨ ∀ key ∈ k.keys.keys, key.keyID = [] := by
  simp only [KeySet.lookup, refreshed_document hl hr]
  split_ifs with hn
  · have hd : ∀ key ∈ documentKeys jose raw, ¬ key.Signing := by
      simpa only [signingKeys, List.filter_eq_nil_iff, decide_eq_true_eq] using hn
    constructor
    · intro h
      right
      intro key hk
      by_contra hid
      obtain ⟨key', hf⟩ := findKey_of_mem hk hid rfl (Or.inr rfl)
      exact hd key' (h _ _ key' hf) (k.keys.signing key' (findKey_eq_some hf).1)
    · intro h
      obtain ⟨key, hk, hs⟩ | h := h
      · exact absurd hs (hd key hk)
      · intro kid alg key hf
        obtain ⟨hm, hne, hid, _⟩ := findKey_eq_some hf
        exact absurd (hid.symm.trans (h key hm)) hne
  · constructor
    · intro _
      left
      obtain ⟨key, hk⟩ := List.exists_mem_of_ne_nil _ hn
      exact ⟨key, (List.mem_filter.mp hk).1, signingKeys_signing jose raw key hk⟩
    · intro _ kid alg key hf
      exact (List.mem_filter.mp (findKey_eq_some hf).1).1

end Refresh

theorem rotated_out_key_untrusted :
    (bothKeys.lookup "k0" "ES256").1 = some retiredKey ∧
    ∀ kid alg key, ((bothKeys.refreshed rotationJose (.response 200 rotatedBody true)).lookup kid alg).1 =
      some key → key ∈ documentKeys rotationJose [publishedText] := by
  refine ⟨by decide, ?_⟩
  apply (refreshed_trusts_document_iff rotationJose bothKeys rotatedBody [publishedText]
    (by decide +kernel) (by decide +kernel)).mpr
  left
  exact ⟨publishedKey, by decide +kernel, by decide⟩

/-- The provider revokes every key, and the cache goes on trusting them all. -/
theorem revoked_key_still_trusted :
    ¬ ∀ (jose : Jose) (k : KeySet) (body : Bytes) (raw : List Bytes), body.length ≤ maxJWKSBytes →
      unmarshalRawField "keys" body = some raw →
      ∀ kid alg key, ((k.refreshed jose (.response 200 body true)).lookup kid alg).1 = some key →
        key ∈ documentKeys jose raw := by
  intro h
  have hk := h rotationJose bothKeys emptiedBody [] (by decide +kernel) (by decide +kernel)
    "k0" "ES256" retiredKey (by decide +kernel)
  cases hk

def es256Token : JSONWebSignature where
  signatures := [{ keyID := "k1", algorithm := "ES256" }]
  payload := "\x7b\x7d"
  compact := "e30.e30.c2ln"

def rsaText : Bytes :=
  "\x7b\"kty\":\"RSA\",\"kid\":\"k1\",\"n\":\"0vx7agoebGcQSuuPiLJXZptN\",\"e\":\"AQAB\"\x7d"

def rsaKey : JSONWebKey where
  keyID := "k1"
  algorithm := []
  use := []
  isPublic := true
  key := "0vx7agoebGcQSuuPiLJXZptN.AQAB"

def twoTypesJose : Jose :=
  { providerJose [(rsaText, rsaKey), (publishedText, publishedKey)] [] with
    verify := fun jws key ↦ if key = publishedKey then some jws.payload else none }

def twoTypesBody (first second : Bytes) : Bytes :=
  ofString "\x7b\"keys\":[" ++ first ++ ofString "," ++ second ++ ofString "]\x7d"

section Shadowing

/-- A key that has the kid of a header, and its alg or none. -/
def Header.Fits (h : Header) (k : JSONWebKey) : Prop :=
  k.keyID = h.keyID ∧ (k.algorithm = [] ∨ k.algorithm = h.algorithm)

variable {jose : Jose} {k : KeySet} {jws : JSONWebSignature} {h : Header} {now : Time} {answer : Answer}

theorem findKey_eq_some_iff {keys : List JSONWebKey} {key : JSONWebKey} :
    findKey keys h.keyID h.algorithm = some key ↔
      h.keyID ≠ [] ∧ h.Fits key ∧ ∃ before after, keys = before ++ key :: after ∧
        ∀ k ∈ before, ¬ h.Fits k := by
  unfold findKey
  split_ifs with hid
  · simp [hid]
  · simp only [List.find?_eq_some_iff_append, Bool.and_eq_true, Bool.or_eq_true, decide_eq_true_eq, ne_eq,
      hid, not_false_eq_true, true_and, Header.Fits, Bool.not_eq_true', Bool.and_eq_false_iff,
        Bool.or_eq_false_iff,
      decide_eq_false_iff_not, not_and_or, not_or]

/-- A header without a kid names no key, whatever is fetched. -/
theorem keyFor_of_no_kid (hid : h.keyID = []) : (k.keyFor jose now answer h).1 = none := by
  have hnone : ∀ k' : KeySet, (k'.lookup h.keyID h.algorithm).1 = none := by
    intro k'
    rw [KeySet.lookup, findKey, if_pos hid]
  have hlookup : k.lookup h.keyID h.algorithm = (none, k.generation) := Prod.ext (hnone k) rfl
  rw [KeySet.keyFor, hlookup]
  dsimp only
  unfold KeySet.refreshFor
  split_ifs
  · cases (k.mark now).refresh jose answer with
    | error e => rfl
    | ok k' => exact hnone k'
  · exact hnone k

theorem verifySignature_eq_ok_iff (hs : jws.signatures = [h]) :
    (∃ payload, (k.verifySignature jose now answer jws).1 = .ok payload) ↔
      ∃ key, (k.keyFor jose now answer h).1 = some key ∧ (jose.verify jws key).isSome = true := by
  rw [KeySet.verifySignature, hs]
  dsimp only
  rcases k.keyFor jose now answer h with ⟨_ | key, k'⟩
  · simp
  · cases hv : jose.verify jws key <;> simp [hv]

/-- With a key in the cache that the header names, the first of these alone is tried. -/
theorem keyFor_of_named {other : JSONWebKey} (hm : other ∈ k.keys.keys) (ho : h.Fits other) :
    (k.keyFor jose now answer h).1 = findKey k.keys.keys h.keyID h.algorithm := by
  by_cases hid : h.keyID = []
  · rw [keyFor_of_no_kid hid, findKey, if_pos hid]
  · obtain ⟨key, hkey⟩ := findKey_of_mem hm hid ho.1 ho.2
    rw [KeySet.keyFor, KeySet.lookup, hkey]

/-- The first key of the set that the header names is the one that signed the token. -/
structure FirstSigned (jose : Jose) (keys : List JSONWebKey) (jws : JSONWebSignature)
    (h : Header) : Prop where
  kid : h.keyID ≠ []
  verifies : ∀ before key after, keys = before ++ key :: after → (∀ k ∈ before, ¬ h.Fits k) → h.Fits key →
    (jose.verify jws key).isSome = true

theorem firstSigned_iff {keys : List JSONWebKey} {other : JSONWebKey} (hm : other ∈ keys)
    (ho : h.Fits other) :
    FirstSigned jose keys jws h ↔
      ∃ key, findKey keys h.keyID h.algorithm = some key ∧ (jose.verify jws key).isSome = true := by
  constructor
  · rintro ⟨hid, hfirst⟩
    obtain ⟨key, hkey⟩ := findKey_of_mem hm hid ho.1 ho.2
    obtain ⟨_, hnames, before, after, hkeys, hbefore⟩ := findKey_eq_some_iff.mp hkey
    exact ⟨key, hkey, hfirst before key after hkeys hbefore hnames⟩
  · rintro ⟨key, hkey, hverifies⟩
    refine ⟨(findKey_eq_some_iff.mp hkey).1, ?_⟩
    intro before key' after hkeys hbefore hnames
    have hkey' :=
      findKey_eq_some_iff.mpr ⟨(findKey_eq_some_iff.mp hkey).1, hnames, before, after, hkeys, hbefore⟩
    rw [Option.some.inj (hkey'.symm.trans hkey)]
    exact hverifies

/-- A token that some key of the cached document verifies is accepted exactly when that
key is not behind another one the token's kid and alg name as well. -/
theorem published_key_accepted_iff (jose : Jose) (k : KeySet) (now : Time) (answer : Answer)
    (jws : JSONWebSignature) (h : Header) (hs : jws.signatures = [h]) :
    ((∃ key ∈ k.keys.keys, h.Fits key ∧ (jose.verify jws key).isSome = true) →
      ∃ payload, (k.verifySignature jose now answer jws).1 = .ok payload) ↔
    ((∃ key ∈ k.keys.keys, h.Fits key ∧ (jose.verify jws key).isSome = true) →
      FirstSigned jose k.keys.keys jws h) := by
  refine forall_congr' (fun hsigned ↦ ?_)
  obtain ⟨other, hm, ho, _⟩ := hsigned
  rw [verifySignature_eq_ok_iff hs, keyFor_of_named hm ho, firstSigned_iff hm ho]

end Shadowing

theorem first_of_two_types_accepted :
    ∃ keys, parseJWKS twoTypesJose (twoTypesBody publishedText rsaText) = .ok keys ∧
      keys.keys = [publishedKey, rsaKey] ∧
    ∃ payload, ((newKeySet keys).verifySignature twoTypesJose 0 .failed es256Token).1 = .ok payload := by
  refine ⟨⟨[publishedKey, rsaKey], by decide, by decide⟩, by decide +kernel, rfl, ?_⟩
  refine (published_key_accepted_iff twoTypesJose _ 0 .failed es256Token _ rfl).mpr ?_ ?_
  · intro _
    refine ⟨by decide, ?_⟩
    intro before key after hkeys hbefore _
    cases before with
    | nil =>
      cases hkeys
      rfl
    | cons first before =>
      have hfirst : publishedKey = first := (List.cons.inj hkeys).1
      exact absurd ⟨rfl, Or.inl rfl⟩ (hbefore publishedKey (hfirst ▸ List.mem_cons_self))
  · exact ⟨publishedKey, by decide, ⟨rfl, Or.inl rfl⟩, rfl⟩

/-- The document publishes the key that signed the token, behind a key of another type and the
same kid, and the token is refused. -/
theorem second_of_two_types_refused :
    ∃ keys, parseJWKS twoTypesJose (twoTypesBody rsaText publishedText) = .ok keys ∧
      publishedKey ∈ keys.keys ∧ twoTypesJose.verify es256Token publishedKey = some es256Token.payload ∧
    ((newKeySet keys).verifySignature twoTypesJose 0 .failed es256Token).1 = .error .badSignature := by
  refine ⟨⟨[rsaKey, publishedKey], by decide, by decide⟩, by decide +kernel, by decide, rfl, ?_⟩
  decide +kernel

end OtlpCollectorOidc.Auth

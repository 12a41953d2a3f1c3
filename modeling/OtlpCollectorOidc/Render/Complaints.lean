import OtlpCollectorOidc.Lib.Validation
import OtlpCollectorOidc.Render.Identity

namespace OtlpCollectorOidc.Render

open Text Maps Validation

def before (kvs : List KeyValue) (kv : KeyValue) : List KeyValue := kvs.takeWhile (· ≠ kv)

def lastTo (kvs : List KeyValue) (attr : Bytes) : Option KeyValue :=
  (kvs.filter (fun kv ↦ kv.value = attr)).getLast?

def claimable (attr : Bytes) : Bool := attr ≠ [] && !clientOwned attr

def sharedWords (first kv : KeyValue) : Bytes :=
  first.key ++ ofString " and " ++ kv.key ++ ofString " both map to " ++ kv.value

def resourceWords (kv claim : KeyValue) : Bytes :=
  kv.key ++ ofString " is the attribute of claim " ++ claim.key

/-- No two of the complaints about the claims and the resource attributes read the same: no two
claims map to one name of the client's, and where keys hold the words of a
complaint, the complaints that quote them can still be told apart. -/
structure WordsApart (claims resources : List KeyValue) : Prop where
  owned : ∀ kv ∈ claims, ∀ kv' ∈ claims, clientOwned kv.value = true → kv.value = kv'.value → kv = kv'
  shared : ∀ kv ∈ claims, ∀ kv' ∈ claims, claimable kv.value = true → claimable kv'.value = true →
    ∀ first ∈ lastTo (before claims kv) kv.value, ∀ first' ∈ lastTo (before claims kv') kv'.value,
      sharedWords first kv = sharedWords first' kv' → kv = kv'
  resource : ∀ kv ∈ resources, ∀ kv' ∈ resources, clientOwned kv.key = false → clientOwned kv'.key = false →
    ∀ claim ∈ lastTo claims kv.key, ∀ claim' ∈ lastTo claims kv'.key,
      resourceWords kv claim = resourceWords kv' claim' → kv = kv'

theorem targets_append (kvs : List KeyValue) (kv : KeyValue) :
    targets (kvs ++ [kv]) = (targets kvs).insert kv.value kv.key := by
  rw [targets, List.map_append, insertAll_append]
  rfl

theorem lastTo_append (kvs : List KeyValue) (kv : KeyValue) (attr : Bytes) :
    lastTo (kvs ++ [kv]) attr = if kv.value = attr then some kv else lastTo kvs attr := by
  rw [lastTo, List.filter_append, List.filter_singleton]
  split_ifs <;> simp_all [lastTo]

theorem claim_targets_eq {kvs : List KeyValue} (hk : ∀ kv ∈ kvs, kv.key ≠ []) (attr : Bytes) :
    (targets kvs).claim attr = (lastTo kvs attr).map KeyValue.key := by
  induction kvs using List.reverseRecOn with
  | nil => rfl
  | append_singleton kvs kv ih =>
    rw [targets_append, lastTo_append]
    split_ifs with h
    · rw [← h, Targets.claim_insert (hk kv (by simp))]
      rfl
    · rw [Targets.claim_insert_ne (Ne.symm h), ih (fun x hx ↦ hk x (List.mem_append_left _ hx))]

theorem before_append {us vs : List KeyValue} {kv : KeyValue} (h : kv ∉ us) :
    before (us ++ kv :: vs) kv = us := by
  have hne : ∀ x ∈ us, decide (x ≠ kv) = true := fun x hx ↦ decide_eq_true (fun he ↦ h (he ▸ hx))
  rw [before, List.takeWhile_append_of_pos hne]
  simp

/-- Each claim is judged by those before it. -/
theorem claimErrors_targets (us kvs : List KeyValue) (hn : (us ++ kvs).Nodup) :
    claimErrors (targets us) kvs =
      kvs.flatMap (fun kv ↦ claimError (targets (before (us ++ kvs) kv)) kv) := by
  induction kvs generalizing us with
  | nil => rfl
  | cons kv kvs ih =>
    have hkv : kv ∉ us := fun hm ↦ (List.nodup_append.mp hn).2.2 kv hm kv List.mem_cons_self rfl
    have he : us ++ kv :: kvs = (us ++ [kv]) ++ kvs := by simp
    rw [claimErrors, List.flatMap_cons, before_append hkv, ← targets_append, ih _ (he ▸ hn), he]

theorem length_claimError (t : Targets) (kv : KeyValue) : (claimError t kv).length ≤ 1 := by
  unfold claimError
  split_ifs
  · simp
  · simp
  · cases t.claim kv.value <;> simp

theorem length_resourceError (t : Targets) (kv : KeyValue) : (resourceError t kv).length ≤ 1 := by
  unfold resourceError
  split_ifs
  · simp
  · cases t.claim kv.key <;> simp

inductive ClaimComplaint (kvs : List KeyValue) (kv : KeyValue) : IdentityError → Prop where
  | noAttribute : kv.value = [] → ClaimComplaint kvs kv (.noAttribute kv.key)
  | clients : clientOwned kv.value = true → ClaimComplaint kvs kv (.clientsAttribute kv.value)
  | shared {first : KeyValue} : claimable kv.value = true → first ∈ lastTo kvs kv.value →
    ClaimComplaint kvs kv (.sharedAttribute first.key kv.key kv.value)

theorem mem_claimError {kvs : List KeyValue} (hk : ∀ x ∈ kvs, x.key ≠ []) {kv : KeyValue}
    {e : IdentityError} :
    e ∈ claimError (targets kvs) kv ↔ ClaimComplaint kvs kv e := by
  unfold claimError
  rw [claim_targets_eq hk]
  constructor
  · intro he
    split_ifs at he with hv hc
    · rw [List.mem_singleton.mp he]
      exact .noAttribute hv
    · rw [List.mem_singleton.mp he]
      exact .clients hc
    · cases hl : lastTo kvs kv.value with
      | none => simp [hl] at he
      | some first =>
        rw [hl] at he
        rw [List.mem_singleton.mp he]
        exact .shared (by simp [claimable, hv, hc]) hl
  · intro h
    cases h with
    | noAttribute hv => simp [hv]
    | clients hc =>
      have hv : kv.value ≠ [] := by
        intro hv
        rw [hv] at hc
        cases hc
      simp [hv, hc]
    | shared hc hl =>
      rw [claimable, Bool.and_eq_true, Bool.not_eq_true', decide_eq_true_iff] at hc
      simp [hc.1, hc.2, Option.mem_def.mp hl]

inductive ResourceComplaint (claims : List KeyValue) (kv : KeyValue) : IdentityError → Prop where
  | clients : clientOwned kv.key = true → ResourceComplaint claims kv (.clientsResource kv.key)
  | claims {claim : KeyValue} : clientOwned kv.key = false → claim ∈ lastTo claims kv.key →
    ResourceComplaint claims kv (.claimsResource kv.key claim.key)

theorem mem_resourceError {claims : List KeyValue} (hk : ∀ x ∈ claims, x.key ≠ []) {kv : KeyValue}
    {e : IdentityError} :
    e ∈ resourceError (targets claims) kv ↔ ResourceComplaint claims kv e := by
  unfold resourceError
  rw [claim_targets_eq hk]
  constructor
  · intro he
    split_ifs at he with hc
    · rw [List.mem_singleton.mp he]
      exact .clients hc
    · cases hl : lastTo claims kv.key with
      | none => simp [hl] at he
      | some claim =>
        rw [hl] at he
        rw [List.mem_singleton.mp he]
        exact .claims (Bool.eq_false_iff.mpr hc) hl
  · intro h
    cases h with
    | clients hc => simp [hc]
    | claims hc hl => simp [hc, Option.mem_def.mp hl]

theorem clientOwned_iff {attr : Bytes} :
    clientOwned attr = true ↔ attr = ofString "service.name" ∨ attr = ofString "service.version" := by
  simp [clientOwned]

def IdentityError.opening : IdentityError → Bytes
  | .noAttribute _ => "CLAIM_ATTRIBUTES: claim "
  | .clientsAttribute _ => "CLAIM_ATTRIBUTES: servic"
  | .sharedAttribute _ _ _ => "CLAIM_ATTRIBUTES: claims"
  | .noClaims | .clientsResource _ | .claimsResource _ _ => []

theorem ClaimComplaint.take_error {kvs : List KeyValue} {kv : KeyValue} {e : IdentityError}
    (h : ClaimComplaint kvs kv e) :
    e.error.take 24 = e.opening := by
  cases h with
  | noAttribute _ =>
    rw [IdentityError.error, List.append_assoc, List.take_append_of_le_length (by decide),
      IdentityError.opening]
    decide
  | clients hc =>
    obtain hs | hs := clientOwned_iff.mp hc <;>
    · rw [hs]
      decide
  | shared _ _ =>
    rw [IdentityError.error, List.append_assoc, List.append_assoc, List.append_assoc, List.append_assoc,
      List.take_append_of_le_length (by decide), IdentityError.opening]
    decide

theorem claim_texts_nodup_iff {kvs : List KeyValue} (hn : (kvs.map KeyValue.key).Nodup)
    (hk : ∀ x ∈ kvs, x.key ≠ []) :
    ((claimErrors ∅ kvs).map IdentityError.error).Nodup ↔
      (∀ kv ∈ kvs, ∀ kv' ∈ kvs, clientOwned kv.value = true → kv.value = kv'.value → kv = kv') ∧
      ∀ kv ∈ kvs, ∀ kv' ∈ kvs, claimable kv.value = true → claimable kv'.value = true →
        ∀ first ∈ lastTo (before kvs kv) kv.value, ∀ first' ∈ lastTo (before kvs kv') kv'.value,
          sharedWords first kv = sharedWords first' kv' → kv = kv' := by
  have hnodup : kvs.Nodup := hn.of_map
  have hbefore (kv : KeyValue) : ∀ x ∈ before kvs kv, x.key ≠ [] :=
    fun x hx ↦ hk x (List.takeWhile_subset _ hx)
  have herrs : claimErrors ∅ kvs = kvs.flatMap (fun kv ↦ claimError (targets (before kvs kv)) kv) :=
    claimErrors_targets [] kvs hnodup
  have hmem (kv : KeyValue) (e : IdentityError) :
      e ∈ claimError (targets (before kvs kv)) kv ↔ ClaimComplaint (before kvs kv) kv e :=
        mem_claimError (hbefore kv)
  rw [herrs, nodup_texts_iff IdentityError.error hnodup (fun kv _ ↦ length_claimError _ kv)]
  simp only [hmem]
  constructor
  · intro h
    refine ⟨?_, ?_⟩
    · intro kv hkv kv' hkv' hc he
      exact h kv hkv kv' hkv' _ (.clients hc) _ (.clients (he ▸ hc)) (by rw [he])
    · intro kv hkv kv' hkv' hc hc' first hfirst first' hfirst' he
      refine h kv hkv kv' hkv' _ (.shared hc hfirst) _ (.shared hc' hfirst') ?_
      simpa [IdentityError.error, sharedWords] using he
  · rintro ⟨howned, hshared⟩ kv hkv kv' hkv' e he e' he' ht
    have hopening := he.take_error.symm.trans ((congrArg (List.take 24) ht).trans he'.take_error)
    cases he with
    | noAttribute _ =>
      cases he' with
      | noAttribute _ => exact List.inj_on_of_nodup_map hn hkv hkv' (by simpa [IdentityError.error] using ht)
      | clients _ => exact absurd hopening (by simp [IdentityError.opening, ofString_inj])
      | shared _ _ => exact absurd hopening (by simp [IdentityError.opening, ofString_inj])
    | clients hc =>
      cases he' with
      | noAttribute _ => exact absurd hopening (by simp [IdentityError.opening, ofString_inj])
      | clients _ => exact howned kv hkv kv' hkv' hc (by simpa [IdentityError.error] using ht)
      | shared _ _ => exact absurd hopening (by simp [IdentityError.opening, ofString_inj])
    | shared hc hl =>
      cases he' with
      | noAttribute _ => exact absurd hopening (by simp [IdentityError.opening, ofString_inj])
      | clients _ => exact absurd hopening (by simp [IdentityError.opening, ofString_inj])
      | shared hc' hl' =>
        refine hshared kv hkv kv' hkv' hc hc' _ hl _ hl' ?_
        simpa [IdentityError.error, sharedWords] using ht

theorem clients_ne_claims {kv : KeyValue} (hc : clientOwned kv.key = true) (key claim : Bytes) :
    (IdentityError.clientsResource kv.key).error ≠ (IdentityError.claimsResource key claim).error := by
  intro he
  rw [IdentityError.error, IdentityError.error, List.append_assoc, List.append_assoc, List.append_assoc,
    List.append_cancel_left_eq, ← List.append_assoc] at he
  have hinfix : ofString " is the attribute of claim " <:+: kv.key ++ ofString " is the client's" :=
    ⟨key, claim, he.symm⟩
  obtain hs | hs := clientOwned_iff.mp hc <;>
  · rw [hs] at hinfix
    exact absurd hinfix (by decide)

theorem resource_texts_nodup_iff {claims resources : List KeyValue} (hn : (resources.map KeyValue.key).Nodup)
    (hk : ∀ x ∈ claims, x.key ≠ []) :
    ((resources.flatMap (resourceError (targets claims))).map IdentityError.error).Nodup ↔
      ∀ kv ∈ resources, ∀ kv' ∈ resources, clientOwned kv.key = false → clientOwned kv'.key = false →
        ∀ claim ∈ lastTo claims kv.key, ∀ claim' ∈ lastTo claims kv'.key,
          resourceWords kv claim = resourceWords kv' claim' → kv = kv' := by
  rw [nodup_texts_iff IdentityError.error hn.of_map (fun kv _ ↦ length_resourceError _ kv)]
  simp only [mem_resourceError hk]
  constructor
  · intro h kv hkv kv' hkv' hc hc' claim hl claim' hl' he
    refine h kv hkv kv' hkv' _ (.claims hc hl) _ (.claims hc' hl') ?_
    simpa [IdentityError.error, resourceWords] using he
  · intro h kv hkv kv' hkv' e he e' he' ht
    cases he with
    | clients hc =>
      cases he' with
      | clients _ => exact List.inj_on_of_nodup_map hn hkv hkv' (by simpa [IdentityError.error] using ht)
      | claims _ _ => exact absurd ht (clients_ne_claims hc _ _)
    | claims hc hl =>
      cases he' with
      | clients hc' => exact absurd ht.symm (clients_ne_claims hc' _ _)
      | claims hc' hl' =>
        refine h kv hkv kv' hkv' hc hc' _ hl _ hl' ?_
        simpa [IdentityError.error, resourceWords] using ht

def IdentityError.subject : IdentityError → Bytes
  | .noClaims | .noAttribute _ | .clientsAttribute _ | .sharedAttribute _ _ _ => "CLAIM_ATTRIBUTES"
  | .clientsResource _ | .claimsResource _ _ => "CLIENT_RESOURCE_ATTRIBUTES"

theorem subject_of_mem_claimErrors {t : Targets} {kvs : List KeyValue} {e : IdentityError}
    (h : e ∈ claimErrors t kvs) :
    e.subject = ofString "CLAIM_ATTRIBUTES" := by
  induction kvs generalizing t with
  | nil => cases h
  | cons kv kvs ih =>
    obtain h | h := List.mem_append.mp h
    · unfold claimError at h
      split_ifs at h
      · rw [List.mem_singleton.mp h, IdentityError.subject]
      · rw [List.mem_singleton.mp h, IdentityError.subject]
      · cases hc : t.claim kv.value with
        | none => simp [hc] at h
        | some first =>
          rw [hc] at h
          rw [List.mem_singleton.mp h, IdentityError.subject]
    · exact ih h

theorem subject_of_mem_resourceError {t : Targets} {kv : KeyValue} {e : IdentityError}
    (h : e ∈ resourceError t kv) :
    e.subject = ofString "CLIENT_RESOURCE_ATTRIBUTES" := by
  unfold resourceError at h
  split_ifs at h
  · rw [List.mem_singleton.mp h, IdentityError.subject]
  · cases hc : t.claim kv.key with
    | none => simp [hc] at h
    | some claim =>
      rw [hc] at h
      rw [List.mem_singleton.mp h, IdentityError.subject]

theorem take_error_subject (e : IdentityError) : e.error.take 16 = e.subject.take 16 := by
  cases e <;> simp only [IdentityError.error, IdentityError.subject, List.append_assoc]
  case noClaims => decide
  all_goals
    rw [List.take_append_of_le_length (by decide)]
    decide

/-- No text stands twice among what Validate refuses, unless the words of two complaints coincide. -/
theorem texts_nodup_iff (s : IdentitySettings) :
    (s.validate.map IdentityError.error).Nodup ↔
      WordsApart s.claimAttributes.pairs s.clientResourceAttrs.pairs := by
  have hclaims := claim_texts_nodup_iff s.claimAttributes.nodup s.claimAttributes.key_ne
  have hresources := resource_texts_nodup_iff s.clientResourceAttrs.nodup s.claimAttributes.key_ne
  have hnone : (((if s.claimAttributes.pairs = [] then [IdentityError.noClaims] else []) ++
      claimErrors ∅ s.claimAttributes.pairs).map IdentityError.error).Nodup ↔
      ((claimErrors ∅ s.claimAttributes.pairs).map IdentityError.error).Nodup := by
    split_ifs with h
    · rw [h]
      simp [claimErrors]
    · rw [List.nil_append]
  rw [IdentitySettings.validate, List.map_append, List.nodup_append', hnone, hclaims, hresources]
  constructor
  · rintro ⟨⟨howned, hshared⟩, hresource, _⟩
    exact ⟨howned, hshared, hresource⟩
  · intro h
    refine ⟨⟨h.owned, h.shared⟩, h.resource, ?_⟩
    intro t ht ht'
    obtain ⟨e, he, rfl⟩ := List.mem_map.mp ht
    obtain ⟨e', he', hee'⟩ := List.mem_map.mp ht'
    obtain ⟨kv, _, hkv⟩ := List.mem_flatMap.mp he'
    have hsubject : e.subject = ofString "CLAIM_ATTRIBUTES" := by
      obtain he | he := List.mem_append.mp he
      · rw [eq_of_mem_complaint he, IdentityError.subject]
      · exact subject_of_mem_claimErrors he
    have htake := congrArg (List.take 16) hee'
    rw [take_error_subject, take_error_subject, hsubject, subject_of_mem_resourceError hkv] at htake
    exact absurd htake (by decide)

end OtlpCollectorOidc.Render

import OtlpCollectorOidc.Auth.Identity
import OtlpCollectorOidc.Render.Values

namespace OtlpCollectorOidc.Render

open Text Maps
open Auth (Claims Attributes AuthData newAuthData nonEmptyString)

/-- The identity settings that `Validate` and the identity processors read. -/
structure IdentitySettings where
  claimAttributes : KeyValueList
  clientResourceAttrs : KeyValueList

inductive IdentityError where
  | noClaims
  | noAttribute (claim : Bytes)
  | clientsAttribute (attr : Bytes)
  | sharedAttribute (first second attr : Bytes)
  | clientsResource (key : Bytes)
  | claimsResource (key claim : Bytes)
  deriving DecidableEq

def IdentityError.error : IdentityError → Bytes
  | .noClaims => "CLAIM_ATTRIBUTES must map at least one claim, such as sub=user.id"
  | .noAttribute claim => ofString "CLAIM_ATTRIBUTES: claim " ++ claim ++ ofString " maps to no attribute"
  | .clientsAttribute attr =>
    ofString "CLAIM_ATTRIBUTES: " ++ attr ++ ofString " is the client's, not a claim's"
  | .sharedAttribute first second attr =>
    ofString "CLAIM_ATTRIBUTES: claims " ++ first ++ ofString " and " ++ second ++
      ofString " both map to " ++ attr
  | .clientsResource key => ofString "CLIENT_RESOURCE_ATTRIBUTES: " ++ key ++ ofString " is the client's"
  | .claimsResource key claim =>
    ofString "CLIENT_RESOURCE_ATTRIBUTES: " ++ key ++ ofString " is the attribute of claim " ++ claim

def clientOwned (key : Bytes) : Bool := key = ofString "service.name" || key = ofString "service.version"

abbrev Targets := AList (fun _ : Bytes ↦ Bytes)

def Targets.claim (t : Targets) (attr : Bytes) : Option Bytes := (AList.lookup attr t).filter (· ≠ [])

def claimError (t : Targets) (kv : KeyValue) : List IdentityError :=
  if kv.value = [] then [.noAttribute kv.key]
  else if clientOwned kv.value then [.clientsAttribute kv.value]
  else match t.claim kv.value with
    | some first => [.sharedAttribute first kv.key kv.value]
    | none => []

def claimErrors (t : Targets) : List KeyValue → List IdentityError
  | [] => []
  | kv :: kvs => claimError t kv ++ claimErrors (t.insert kv.value kv.key) kvs

def targets (kvs : List KeyValue) : Targets := insertAll (kvs.map (fun kv ↦ (kv.value, kv.key))) ∅

def resourceError (t : Targets) (kv : KeyValue) : List IdentityError :=
  if clientOwned kv.key then [.clientsResource kv.key]
  else match t.claim kv.key with
    | some claim => [.claimsResource kv.key claim]
    | none => []

/-- `IdentitySettings.Validate`: everything it refuses, nothing when it accepts. -/
def IdentitySettings.validate (s : IdentitySettings) : List IdentityError :=
  (if s.claimAttributes.pairs = [] then [.noClaims] else []) ++
  claimErrors ∅ s.claimAttributes.pairs ++
  s.clientResourceAttrs.pairs.flatMap (resourceError (targets s.claimAttributes.pairs))

def IdentitySettings.Valid (s : IdentitySettings) : Prop := s.validate = []

def KeyValueList.toMap (l : KeyValueList) : Attributes where
  entries := l.pairs.map (fun kv ↦ ⟨kv.key, kv.value⟩)
  nodupKeys := by
    rw [List.NodupKeys, List.keys, List.map_map]
    exact l.nodup

inductive Action where
  | delete
  | upsert
  deriving DecidableEq

structure AttributeAction where
  key : Bytes
  action : Action
  fromContext : Bytes := []

structure ResourceAction where
  key : Bytes
  action : Action
  value : Bytes := []

def identityActions (claims : KeyValueList) : List AttributeAction :=
  claims.pairs.flatMap (fun kv ↦
    [{ key := kv.value, action := .delete },
      { key := kv.value, action := .upsert, fromContext := ofString "auth." ++ kv.value }])

def resourceActions (claims clientResource : KeyValueList) : List ResourceAction :=
  claims.pairs.map (fun kv ↦ { key := kv.value, action := .delete }) ++
    clientResource.pairs.map (fun kv ↦ { key := kv.key, action := .upsert, value := kv.value })

section Processors

variable {V : Type} (str : Bytes → V)

abbrev AttributeMap (V : Type) := AList (fun _ : Bytes ↦ V)

def readContext (d : AuthData) (key : Bytes) : Option Bytes :=
  if key.take 5 = ofString "auth." then d.getAttribute (key.drop 5) else none

/-- The stock attributes processor; it skips an upsert whose context key is absent. -/
def AttributeAction.edit (d : AuthData) (a : AttributeAction) : Option (Edit Bytes V) :=
  match a.action with
  | .delete => some (.delete a.key)
  | .upsert => (readContext d a.fromContext).map (fun v ↦ .upsert a.key (str v))

def ResourceAction.edit (a : ResourceAction) : Edit Bytes V :=
  match a.action with
  | .delete => .delete a.key
  | .upsert => .upsert a.key (str a.value)

/-- A span or log record, and the resource it came under. -/
structure Item (V : Type) where
  attributes : AttributeMap V
  resource : AttributeMap V

/-- The processors attributes/identity and resource/identity, on a request the token of `d` sent. -/
def IdentitySettings.stamp (s : IdentitySettings) (d : AuthData) (x : Item V) : Item V where
  attributes :=
    applyEdits ((identityActions s.claimAttributes).filterMap (AttributeAction.edit str d)) x.attributes
  resource := applyEdits ((resourceActions s.claimAttributes s.clientResourceAttrs).map
    (ResourceAction.edit str)) x.resource

end Processors

theorem KeyValueList.lookup_toMap {l : KeyValueList} {key value : Bytes} :
    l.toMap.lookup key = some value ↔ ⟨key, value⟩ ∈ l.pairs := by
  rw [lookup_eq_some_iff]
  constructor
  · intro h
    obtain ⟨kv, hkv, he⟩ := List.mem_map.mp h
    cases he
    exact hkv
  · intro h
    exact List.mem_map.mpr ⟨⟨key, value⟩, h, rfl⟩

theorem claimError_eq_nil {t : Targets} {kv : KeyValue} (h : claimError t kv = []) :
    clientOwned kv.value = false ∧ t.claim kv.value = none := by
  unfold claimError at h
  split_ifs at h with hv hc
  refine ⟨Bool.eq_false_iff.mpr hc, ?_⟩
  cases ht : t.claim kv.value with
  | none => rfl
  | some first => simp [ht] at h

theorem Targets.claim_insert {t : Targets} {attr claim : Bytes} (h : claim ≠ []) :
    Targets.claim (t.insert attr claim) attr = some claim := by
  rw [Targets.claim, AList.lookup_insert]
  simp [h]

theorem Targets.claim_insert_ne {t : Targets} {attr attr' claim : Bytes} (h : attr' ≠ attr) :
    Targets.claim (t.insert attr claim) attr' = t.claim attr' := by
  rw [Targets.claim, AList.lookup_insert_ne h, Targets.claim]

/-- Claims pass when each names an attribute of its own that is not the client's. -/
theorem claimErrors_eq_nil {t : Targets} {kvs : List KeyValue} (hk : ∀ kv ∈ kvs, kv.key ≠ [])
    (h : claimErrors t kvs = []) :
    (∀ kv ∈ kvs, clientOwned kv.value = false ∧ t.claim kv.value = none) ∧
      (kvs.map KeyValue.value).Nodup := by
  induction kvs generalizing t with
  | nil => exact ⟨List.forall_mem_nil _, List.nodup_nil⟩
  | cons kv kvs ih =>
    obtain ⟨hhead, htail⟩ := List.append_eq_nil_iff.mp h
    obtain ⟨hrest, hnodup⟩ := ih (fun x hx ↦ hk x (List.mem_cons_of_mem _ hx)) htail
    have hne : ∀ x ∈ kvs, x.value ≠ kv.value := by
      intro x hx he
      have hx' := (hrest x hx).2
      rw [he, Targets.claim_insert (hk kv List.mem_cons_self)] at hx'
      cases hx'
    refine ⟨?_, ?_⟩
    · intro x hx
      obtain rfl | hx := List.mem_cons.mp hx
      · exact claimError_eq_nil hhead
      · have hx' := hrest x hx
        rw [Targets.claim_insert_ne (hne x hx)] at hx'
        exact hx'
    · rw [List.map_cons, List.nodup_cons]
      refine ⟨fun hm ↦ ?_, hnodup⟩
      obtain ⟨x, hx, he⟩ := List.mem_map.mp hm
      exact hne x hx he

theorem claim_targets {kvs : List KeyValue} (hk : ∀ kv ∈ kvs, kv.key ≠ [])
    (hn : (kvs.map KeyValue.value).Nodup) {kv : KeyValue} (hkv : kv ∈ kvs) :
    (targets kvs).claim kv.value = some kv.key := by
  have hl : (targets kvs).lookup kv.value = some kv.key := by
    apply lookup_insertAll_of_agree
    · intro p hp he
      obtain ⟨x, hx, rfl⟩ := List.mem_map.mp hp
      rw [List.inj_on_of_nodup_map hn hx hkv he]
    · exact Or.inl ⟨_, List.mem_map.mpr ⟨kv, hkv, rfl⟩, rfl⟩
  rw [Targets.claim, hl]
  simp [hk kv hkv]

namespace IdentitySettings.Valid

variable {s : IdentitySettings} (h : s.Valid)
include h

theorem claims : (∀ kv ∈ s.claimAttributes.pairs, clientOwned kv.value = false) ∧
    (s.claimAttributes.pairs.map KeyValue.value).Nodup := by
  obtain ⟨hc, _⟩ := List.append_eq_nil_iff.mp h
  obtain ⟨_, hc⟩ := List.append_eq_nil_iff.mp hc
  obtain ⟨hkv, hn⟩ := claimErrors_eq_nil s.claimAttributes.key_ne hc
  exact ⟨fun kv hm ↦ (hkv kv hm).1, hn⟩

theorem resource {kv : KeyValue} (hkv : kv ∈ s.clientResourceAttrs.pairs) :
    clientOwned kv.key = false ∧ kv.key ∉ s.claimAttributes.pairs.map KeyValue.value := by
  obtain ⟨_, hr⟩ := List.append_eq_nil_iff.mp h
  have he := List.flatMap_eq_nil_iff.mp hr kv hkv
  unfold resourceError at he
  split_ifs at he with hc
  refine ⟨Bool.eq_false_iff.mpr hc, fun hm ↦ ?_⟩
  obtain ⟨x, hx, hxe⟩ := List.mem_map.mp hm
  have ht := claim_targets s.claimAttributes.key_ne h.claims.2 hx
  rw [hxe] at ht
  simp [ht] at he

/-- Two claims of an accepted list share no attribute. -/
theorem claim_unique {kv kv' : KeyValue} (hkv : kv ∈ s.claimAttributes.pairs)
    (hkv' : kv' ∈ s.claimAttributes.pairs) (he : kv.value = kv'.value) : kv = kv' :=
  List.inj_on_of_nodup_map h.claims.2 hkv hkv' he

/-- Under each claim's attribute the context carries that claim, where it is a non-empty string. -/
theorem getAttribute {m : Attributes} (hm : Reordering m s.claimAttributes.toMap) (c : Claims) {kv : KeyValue}
    (hkv : kv ∈ s.claimAttributes.pairs) :
    (newAuthData c m ∅).getAttribute kv.value = nonEmptyString (c.get kv.key) := by
  have hother {claim : Bytes} (ho : m.lookup claim = some kv.value) : claim = kv.key := by
    rw [hm.lookup, KeyValueList.lookup_toMap] at ho
    exact congrArg KeyValue.key (h.claim_unique ho hkv rfl)
  cases hs : nonEmptyString (c.get kv.key) with
  | some v =>
    obtain ⟨hc, hv⟩ := Auth.nonEmptyString_eq_some.mp hs
    have hl : m.lookup kv.key = some kv.value := by
      rw [hm.lookup, KeyValueList.lookup_toMap]
      exact hkv
    apply Auth.getAttribute_of_agree (AList.lookup_empty _) hl hc hv
    intro other t ho ht _
    rw [hother ho, hc] at ht
    cases ht
    rfl
  | none =>
    rw [Auth.getAttribute_of_notMem (AList.lookup_empty _), lookup_insertAll_of_notMem]
    · exact AList.lookup_empty _
    · rintro ⟨attr, v⟩ hp rfl
      obtain ⟨claim, ho, hc, hv⟩ := Auth.mem_claimPairs.mp hp
      rw [hother ho] at hc
      cases hs.symm.trans (Auth.nonEmptyString_eq_some.mpr ⟨hc, hv⟩)

end IdentitySettings.Valid

section Stamp

variable {V : Type} {str : Bytes → V}

theorem readContext_auth (d : AuthData) (attr : Bytes) :
    readContext d (ofString "auth." ++ attr) = d.getAttribute attr := by
  have hl : (ofString "auth.").length = 5 := by decide
  rw [readContext, List.take_left' hl, List.drop_left' hl, if_pos rfl]

def claimEdits (str : Bytes → V) (d : AuthData) (kv : KeyValue) : List (Edit Bytes V) :=
  .delete kv.value :: ((d.getAttribute kv.value).map (fun v ↦ Edit.upsert kv.value (str v))).toList

theorem identityActions_edits (claims : KeyValueList) (d : AuthData) :
    (identityActions claims).filterMap (AttributeAction.edit str d) =
      claims.pairs.flatMap (claimEdits str d) := by
  rw [identityActions, List.filterMap_flatMap]
  apply congrArg (List.flatMap · claims.pairs)
  funext kv
  simp only [claimEdits, List.filterMap_cons, List.filterMap_nil, AttributeAction.edit, readContext_auth]
  cases d.getAttribute kv.value with
  | none => rfl
  | some v => rfl

theorem key_of_mem_claimEdits {d : AuthData} {kv : KeyValue} {e : Edit Bytes V}
    (h : e ∈ claimEdits str d kv) : e.key = kv.value := by
  obtain rfl | h := List.mem_cons.mp h
  · rfl
  · obtain ⟨v, _, rfl⟩ := Option.map_eq_some_iff.mp (Option.mem_toList.mp h)
    rfl

theorem key_of_mem_identity_edits {claims : KeyValueList} {d : AuthData} {e : Edit Bytes V}
    (h : e ∈ claims.pairs.flatMap (claimEdits str d)) : e.key ∈ claims.pairs.map KeyValue.value := by
  obtain ⟨kv, hkv, he⟩ := List.mem_flatMap.mp h
  exact List.mem_map.mpr ⟨kv, hkv, (key_of_mem_claimEdits he).symm⟩

/-- What the identity processors leave of an item: the token's claims on it and
none on its resource, the deployment's attributes, and all else as the client sent it. -/
structure Stamped (str : Bytes → V) (s : IdentitySettings) (c : Claims) (x y : Item V) : Prop where
  claim : ∀ kv ∈ s.claimAttributes.pairs,
    y.attributes.lookup kv.value = (nonEmptyString (c.get kv.key)).map str
  unclaimed : ∀ kv ∈ s.claimAttributes.pairs, y.resource.lookup kv.value = none
  deployment : ∀ kv ∈ s.clientResourceAttrs.pairs, y.resource.lookup kv.key = some (str kv.value)
  attributes : ∀ key, key ∉ s.claimAttributes.pairs.map KeyValue.value →
    y.attributes.lookup key = x.attributes.lookup key
  resource : ∀ key, key ∉ s.claimAttributes.pairs.map KeyValue.value →
    key ∉ s.clientResourceAttrs.pairs.map KeyValue.key → y.resource.lookup key = x.resource.lookup key

variable {s : IdentitySettings}

theorem lookup_stamp_claim (hn : (s.claimAttributes.pairs.map KeyValue.value).Nodup)
    (d : AuthData) (x : Item V) {kv : KeyValue} (hkv : kv ∈ s.claimAttributes.pairs) :
    (s.stamp str d x).attributes.lookup kv.value = (d.getAttribute kv.value).map str := by
  obtain ⟨pre, post, hp⟩ := List.append_of_mem hkv
  -- No later claim names the attribute again.
  have hpost : ∀ e ∈ post.flatMap (claimEdits str d), e.key ≠ kv.value := by
    intro e he heq
    obtain ⟨kv', hkv', he'⟩ := List.mem_flatMap.mp he
    have hv : kv'.value = kv.value := (key_of_mem_claimEdits he').symm.trans heq
    exact ne_of_nodup_map (hp ▸ hn) hkv' hv
  rw [IdentitySettings.stamp, identityActions_edits, hp, List.flatMap_append, List.flatMap_cons, claimEdits]
  cases d.getAttribute kv.value with
  | none => exact lookup_applyEdits_last _ (.delete kv.value) hpost _
  | some v =>
    have hl := lookup_applyEdits_last (pre.flatMap (claimEdits str d) ++ [.delete kv.value])
      (.upsert kv.value (str v)) hpost x.attributes
    rw [List.append_assoc] at hl
    exact hl

theorem resource_edits (s : IdentitySettings) :
    (resourceActions s.claimAttributes s.clientResourceAttrs).map (ResourceAction.edit str) =
      s.claimAttributes.pairs.map (fun kv ↦ Edit.delete kv.value) ++
        s.clientResourceAttrs.pairs.map (fun kv ↦ Edit.upsert kv.key (str kv.value)) := by
  rw [resourceActions, List.map_append, List.map_map, List.map_map]
  rfl

theorem lookup_stamp_deleted (hv : s.Valid) (d : AuthData) (x : Item V) {kv : KeyValue}
    (hkv : kv ∈ s.claimAttributes.pairs) : (s.stamp str d x).resource.lookup kv.value = none := by
  obtain ⟨pre, post, hp⟩ := List.append_of_mem hkv
  have hpost : ∀ e ∈ post.map (fun kv ↦ (Edit.delete kv.value : Edit Bytes V)) ++
      s.clientResourceAttrs.pairs.map (fun kv ↦ Edit.upsert kv.key (str kv.value)), e.key ≠ kv.value := by
    intro e he heq
    obtain he | he := List.mem_append.mp he
    · obtain ⟨kv', hkv', rfl⟩ := List.mem_map.mp he
      exact ne_of_nodup_map (hp ▸ hv.claims.2) hkv' heq
    · obtain ⟨kv', hkv', rfl⟩ := List.mem_map.mp he
      exact (hv.resource hkv').2 (List.mem_map.mpr ⟨kv, hkv, heq.symm⟩)
  rw [IdentitySettings.stamp, resource_edits, hp, List.map_append, List.map_cons, List.append_assoc,
    List.cons_append]
  exact lookup_applyEdits_last _ (.delete kv.value) hpost _

theorem lookup_stamp_deployment (d : AuthData) (x : Item V) {kv : KeyValue}
    (hkv : kv ∈ s.clientResourceAttrs.pairs) :
    (s.stamp str d x).resource.lookup kv.key = some (str kv.value) := by
  rw [IdentitySettings.stamp, resource_edits]
  exact lookup_applyEdits_upserts s.clientResourceAttrs.nodup hkv _ _

theorem stamped (hv : s.Valid) {m : Attributes} (hm : Reordering m s.claimAttributes.toMap) (c : Claims)
    (x : Item V) : Stamped str s c x (s.stamp str (newAuthData c m ∅) x) where
  claim kv hkv := by rw [lookup_stamp_claim hv.claims.2 _ _ hkv, hv.getAttribute hm c hkv]
  unclaimed kv hkv := lookup_stamp_deleted hv _ _ hkv
  deployment kv hkv := lookup_stamp_deployment _ _ hkv
  attributes key hkey := by
    rw [IdentitySettings.stamp, identityActions_edits]
    apply lookup_applyEdits_of_notMem
    intro e he heq
    exact hkey (heq ▸ key_of_mem_identity_edits he)
  resource key hkey hres := by
    rw [IdentitySettings.stamp, resource_edits]
    apply lookup_applyEdits_of_notMem
    intro e he heq
    obtain he | he := List.mem_append.mp he
    · obtain ⟨kv, hkv, rfl⟩ := List.mem_map.mp he
      exact hkey (List.mem_map.mpr ⟨kv, hkv, heq⟩)
    · obtain ⟨kv, hkv, rfl⟩ := List.mem_map.mp he
      exact hres (List.mem_map.mpr ⟨kv, hkv, heq⟩)

end Stamp

/-- A client has no say in its stamped identity: whatever it sends, its token
alone decides every claim's attribute, and service.name and service.version stay its own. -/
theorem client_cannot_forge_identity {V : Type} (str : Bytes → V) (s : IdentitySettings) (hv : s.Valid)
    (c : Claims) (m m' : Attributes) (hm : Reordering m s.claimAttributes.toMap)
    (hm' : Reordering m' s.claimAttributes.toMap) (x y : Item V) :
    Stamped str s c x (s.stamp str (newAuthData c m ∅) x) ∧
    (∀ key, clientOwned key = true →
      (s.stamp str (newAuthData c m ∅) x).attributes.lookup key = x.attributes.lookup key ∧
      (s.stamp str (newAuthData c m ∅) x).resource.lookup key = x.resource.lookup key) ∧
    ∀ kv ∈ s.claimAttributes.pairs,
      (s.stamp str (newAuthData c m ∅) x).attributes.lookup kv.value =
        (s.stamp str (newAuthData c m' ∅) y).attributes.lookup kv.value ∧
      (s.stamp str (newAuthData c m ∅) x).resource.lookup kv.value =
        (s.stamp str (newAuthData c m' ∅) y).resource.lookup kv.value := by
  have hx : Stamped str s c x (s.stamp str (newAuthData c m ∅) x) := stamped hv hm c x
  have hy : Stamped str s c y (s.stamp str (newAuthData c m' ∅) y) := stamped hv hm' c y
  refine ⟨hx, ?_, ?_⟩
  · intro key hkey
    have hclaims : key ∉ s.claimAttributes.pairs.map KeyValue.value := by
      intro hmem
      obtain ⟨kv, hkv, rfl⟩ := List.mem_map.mp hmem
      cases hkey.symm.trans (hv.claims.1 kv hkv)
    have hresource : key ∉ s.clientResourceAttrs.pairs.map KeyValue.key := by
      intro hmem
      obtain ⟨kv, hkv, rfl⟩ := List.mem_map.mp hmem
      cases hkey.symm.trans (hv.resource hkv).1
    exact ⟨hx.attributes key hclaims, hx.resource key hclaims hresource⟩
  · intro kv hkv
    exact ⟨(hx.claim kv hkv).trans (hy.claim kv hkv).symm,
      (hx.unclaimed kv hkv).trans (hy.unclaimed kv hkv).symm⟩

def exampleSettings : IdentitySettings where
  claimAttributes := ⟨[⟨"sub", "user.id"⟩, ⟨"preferred_username", "user.name"⟩], by decide, by decide⟩
  clientResourceAttrs := ⟨[⟨"telemetry_source", "client"⟩], by decide, by decide⟩

def forgedItem : Item Bytes where
  attributes :=
    ⟨[⟨"user.id", "u2"⟩, ⟨"user.name", "bob"⟩, ⟨"http.route", "/"⟩], by unfold List.NodupKeys; decide⟩
  resource := ⟨[⟨"user.id", "u2"⟩, ⟨"service.name", "shop"⟩], by unfold List.NodupKeys; decide⟩

theorem forged_span_stamped :
    (exampleSettings.stamp id
      (newAuthData (Auth.exampleClaims (.str "u1")) exampleSettings.claimAttributes.toMap ∅)
      forgedItem).attributes.lookup (ofString "user.id") = some (ofString "u1") := by
  have hs := (client_cannot_forge_identity id exampleSettings (by unfold IdentitySettings.Valid; decide)
    (Auth.exampleClaims (.str "u1")) exampleSettings.claimAttributes.toMap
    exampleSettings.claimAttributes.toMap (List.Perm.refl _) (List.Perm.refl _) forgedItem forgedItem).1
  exact hs.claim ⟨"sub", "user.id"⟩ (by decide)

end OtlpCollectorOidc.Render

import OtlpCollectorOidc.Lib.Maps
import OtlpCollectorOidc.Auth.Claims
import OtlpCollectorOidc.Auth.Config

namespace OtlpCollectorOidc.Auth

open Text Json Maps

structure AuthData where
  attributes : Attributes

def nonEmptyString (v : Option Value) : Option Bytes :=
  match v with
  | some (.str s) => if s = [] then none else some s
  | _ => none

def claimPairs (c : Claims) (claimAttributes : Attributes) : List (Bytes × Bytes) :=
  claimAttributes.entries.filterMap (fun e ↦ (nonEmptyString (c.get e.1)).map (e.2, ·))

def resourcePairs (resourceAttributes : Attributes) : List (Bytes × Bytes) :=
  resourceAttributes.entries.map (fun e ↦ (e.1, e.2))

def newAuthData (c : Claims) (claimAttributes resourceAttributes : Attributes) : AuthData :=
  { attributes := insertAll (resourcePairs resourceAttributes) (insertAll (claimPairs c claimAttributes) ∅) }

def AuthData.getAttribute (d : AuthData) (name : Bytes) : Option Bytes := d.attributes.lookup name

theorem nonEmptyString_eq_some {v : Option Value} {s : Bytes} :
    nonEmptyString v = some s ↔ v = some (.str s) ∧ s ≠ [] := by
  rcases v with _ | v
  · simp [nonEmptyString]
  · cases v <;> simp [nonEmptyString]
    constructor
    · intro hx
      obtain ⟨h, rfl⟩ := hx
      exact ⟨rfl, h⟩
    · intro hx
      obtain ⟨rfl, h⟩ := hx
      exact ⟨h, rfl⟩

theorem mem_claimPairs {c : Claims} {m : Attributes} {attr s : Bytes} :
    (attr, s) ∈ claimPairs c m ↔
      ∃ claim, m.lookup claim = some attr ∧ c.get claim = some (.str s) ∧ s ≠ [] := by
  simp only [claimPairs, List.mem_filterMap, Option.map_eq_some_iff, Prod.mk.injEq,
    nonEmptyString_eq_some]
  constructor
  · intro hx
    obtain ⟨⟨claim, _⟩, he, _, hs, rfl, rfl⟩ := hx
    exact ⟨claim, lookup_eq_some_iff.mpr he, hs⟩
  · intro hx
    obtain ⟨claim, hm, hs⟩ := hx
    exact ⟨⟨claim, attr⟩, lookup_eq_some_iff.mp hm, s, hs, rfl, rfl⟩

theorem getAttribute_of_notMem {c : Claims} {m r : Attributes} {attr : Bytes}
    (hr : r.lookup attr = none) :
    (newAuthData c m r).getAttribute attr = (insertAll (claimPairs c m) ∅).lookup attr := by
  apply lookup_insertAll_of_notMem
  intro kv hkv he
  obtain ⟨e, hme, rfl⟩ := List.mem_map.mp hkv
  have hl : r.lookup e.1 = some e.2 := lookup_eq_some_iff.mpr hme
  rw [show e.1 = attr from he, hr] at hl
  cases hl

theorem getAttribute_of_resource {c : Claims} {m r : Attributes} {attr v : Bytes}
    (hr : r.lookup attr = some v) :
    (newAuthData c m r).getAttribute attr = some v := by
  have hmem : (⟨attr, v⟩ : Sigma (fun _ : Bytes ↦ Bytes)) ∈ r.entries := lookup_eq_some_iff.mp hr
  apply lookup_insertAll_of_agree
  · intro kv hkv he
    obtain ⟨e, hme, rfl⟩ := List.mem_map.mp hkv
    have hl : r.lookup e.1 = some e.2 := lookup_eq_some_iff.mpr hme
    rw [show e.1 = attr from he, hr] at hl
    exact (Option.some.inj hl).symm
  · exact Or.inl ⟨(attr, v), List.mem_map_of_mem hmem, rfl⟩

theorem getAttribute_of_agree {c : Claims} {m r : Attributes} {claim attr s : Bytes}
    (hr : r.lookup attr = none) (hm : m.lookup claim = some attr)
    (hc : c.get claim = some (.str s)) (hs : s ≠ [])
    (ha : ∀ other t, m.lookup other = some attr → c.get other = some (.str t) → t ≠ [] → t = s) :
    (newAuthData c m r).getAttribute attr = some s := by
  rw [getAttribute_of_notMem hr]
  apply lookup_insertAll_of_agree
  · rintro ⟨a, t⟩ hp rfl
    obtain ⟨other, ho, ht, hne⟩ := mem_claimPairs.mp hp
    exact ha other t ho ht hne
  · exact Or.inl ⟨(attr, s), mem_claimPairs.mpr ⟨claim, hm, hc, hs⟩, rfl⟩

/-- The pairs of a map ranged over with one entry last, whose claim is a non-empty string. -/
theorem claimPairs_last {c : Claims} {m : Attributes} {xs : List (Sigma (fun _ : Bytes ↦ Bytes))}
    {claim attr t : Bytes} (hm : m.entries = xs ++ [⟨claim, attr⟩])
    (ht : nonEmptyString (c.get claim) = some t) :
    claimPairs c m = xs.filterMap (fun e ↦ (nonEmptyString (c.get e.1)).map (e.2, ·)) ++ [(attr, t)] := by
  rw [claimPairs, hm, List.filterMap_append]
  simp [ht]

/-- Ranging over the map with an attribute's claim last gives the attribute that claim's value. -/
theorem exists_order_getAttribute {m r : Attributes} {c : Claims} {claim attr t : Bytes}
    (hm : m.lookup claim = some attr) (ht : nonEmptyString (c.get claim) = some t)
    (hr : r.lookup attr = none) :
    ∃ n, Reordering n m ∧ (newAuthData c n r).getAttribute attr = some t := by
  obtain ⟨n, hn, xs, hxs⟩ := exists_reordering_last m hm
  refine ⟨n, hn, ?_⟩
  rw [getAttribute_of_notMem hr, claimPairs_last hxs ht, lookup_insertAll_last]

def exampleClaims (sub : Value) : Claims :=
  ofMembers [("scope", .str "telemetry:write"), ("sub", sub), ("preferred_username", .str "alice")]

/-- No two claims of the default mapping share an attribute. -/
theorem exampleConfig_attribute_inj {claim other attr : Bytes}
    (h : exampleConfig.claimAttributes.lookup claim = some attr)
    (ho : exampleConfig.claimAttributes.lookup other = some attr) : other = claim := by
  have hinj : ∀ e ∈ exampleConfig.claimAttributes.entries, ∀ e' ∈ exampleConfig.claimAttributes.entries,
      e.2 = e'.2 → e.1 = e'.1 := by decide
  exact hinj _ (lookup_eq_some_iff.mp ho) _ (lookup_eq_some_iff.mp h) rfl

/-- Whichever way the maps are ranged over, each claim that is both required
and mapped is a non-empty string of the token and stands under its attribute. -/
def Attributable (cfg : Config) (c : Claims) : Prop :=
  ∀ m r : Attributes, Reordering m cfg.claimAttributes → Reordering r cfg.resourceAttributes →
    ∀ claim ∈ cfg.requiredClaims, ∀ attr, cfg.claimAttributes.lookup claim = some attr →
      ∃ s, s ≠ [] ∧ c.get claim = some (.str s) ∧ (newAuthData c m r).getAttribute attr = some s

theorem attributable_iff (cfg : Config) (hv : cfg.Valid) (c : Claims)
    (ha : Authorizer.authorize ⟨cfg.requiredScope, cfg.requiredClaims⟩ c = none) :
    Attributable cfg c ↔
      ∀ claim ∈ cfg.requiredClaims, ∀ attr, cfg.claimAttributes.lookup claim = some attr →
        ∃ s, c.get claim = some (.str s) ∧
          ∀ other t, cfg.claimAttributes.lookup other = some attr → c.get other = some (.str t) →
            t = [] ∨ t = s := by
  have hr {claim attr : Bytes} (h : cfg.claimAttributes.lookup claim = some attr) :
      cfg.resourceAttributes.lookup attr = none := hv.collision_free (lookup_eq_some_iff.mp h)
  constructor
  · intro h claim hreq attr hattr
    obtain ⟨s, _, hc, _⟩ := h _ _ (List.Perm.refl _) (List.Perm.refl _) claim hreq attr hattr
    refine ⟨s, hc, fun other t ho ht ↦ ?_⟩
    by_contra! hne
    -- Range over the map with `other` last: its value is the one that stays.
    obtain ⟨m, hm, hlast⟩ := exists_order_getAttribute ho (nonEmptyString_eq_some.mpr ⟨ht, hne.1⟩) (hr hattr)
    obtain ⟨s', _, hc', hg⟩ := h m _ hm (List.Perm.refl _) claim hreq attr hattr
    cases hc.symm.trans hc'
    exact hne.2 (Option.some.inj (hlast.symm.trans hg))
  · intro h m r hm hres claim hreq attr hattr
    obtain ⟨s, hc, hagree⟩ := h claim hreq attr hattr
    have hne := (authorize_eq_none.mp ha).2 claim hreq
    have hs : s ≠ [] := by
      rintro rfl
      simp [hc, nonEmpty] at hne
    refine ⟨s, hs, hc, getAttribute_of_agree ?_ ((hm.lookup claim).trans hattr) hc hs ?_⟩
    · exact (hres.lookup attr).trans (hr hattr)
    · intro other t ho ht hne'
      exact (hagree other t ((hm.lookup other).symm.trans ho) ht).resolve_left hne'

theorem string_sub_attributable : Attributable exampleConfig (exampleClaims (.str "u1")) := by
  apply (attributable_iff exampleConfig exampleConfig_valid (exampleClaims (.str "u1"))
    (by decide +kernel)).mpr
  have hstr : ∀ claim ∈ exampleConfig.requiredClaims, ∃ s, (exampleClaims (.str "u1")).get claim =
      some (.str s) := by
    intro claim hc
    obtain rfl | rfl : claim = ofString "sub" ∨ claim = ofString "preferred_username" := by
      simpa [exampleConfig, createDefaultConfig] using hc
    · exact ⟨"u1", by rfl⟩
    · exact ⟨"alice", by rfl⟩
  intro claim hc attr hattr
  obtain ⟨s, hs⟩ := hstr claim hc
  refine ⟨s, hs, fun other t ho ht ↦ ?_⟩
  rw [exampleConfig_attribute_inj hattr ho, hs] at ht
  cases ht
  exact Or.inr rfl

/-- A `sub` that is a number passes the required-claim rule and is stamped nowhere. -/
theorem numeric_sub_unattributed :
    ¬ ∀ (cfg : Config) (c : Claims), cfg.Valid →
      Authorizer.authorize ⟨cfg.requiredScope, cfg.requiredClaims⟩ c = none → Attributable cfg c := by
  intro h
  have ha := h exampleConfig (exampleClaims (.num 42)) exampleConfig_valid (by decide +kernel)
  obtain ⟨s, _, hs, _⟩ := ha _ _ (List.Perm.refl _) (List.Perm.refl _) (ofString "sub") (by decide)
    (ofString "user.id") (by decide)
  have hn : (exampleClaims (.num 42)).get "sub" = some (.num 42) := by rfl
  cases hn.symm.trans hs

/-- Claims that share an attribute never differ in a token that has more than one of them. -/
def Unambiguous (claimAttributes : Attributes) (c : Claims) : Prop :=
  ∀ attr claim other s t, claimAttributes.lookup claim = some attr →
    claimAttributes.lookup other = some attr → nonEmptyString (c.get claim) = some s →
      nonEmptyString (c.get other) = some t → s = t

theorem Unambiguous.getAttribute_congr {cfg : Config} {c : Claims} (h : Unambiguous cfg.claimAttributes c)
    {m m' r r' : Attributes} (hm : Reordering m cfg.claimAttributes) (hm' : Reordering m' cfg.claimAttributes)
    (hr : Reordering r cfg.resourceAttributes) (hr' : Reordering r' cfg.resourceAttributes) (name : Bytes) :
    (newAuthData c m r).getAttribute name = (newAuthData c m' r').getAttribute name := by
  have hres : r'.lookup name = r.lookup name := (hr'.lookup name).trans (hr.lookup name).symm
  have hmem {n : Attributes} (hn : Reordering n cfg.claimAttributes) {a s : Bytes} :
      (a, s) ∈ claimPairs c n ↔ (a, s) ∈ claimPairs c cfg.claimAttributes := by
    simp only [mem_claimPairs, hn.lookup]
  have hagree {a s t : Bytes} (hs : (a, s) ∈ claimPairs c cfg.claimAttributes)
      (ht : (a, t) ∈ claimPairs c cfg.claimAttributes) : t = s := by
    obtain ⟨claim, hclaim, hcs⟩ := mem_claimPairs.mp hs
    obtain ⟨other, hother, hct⟩ := mem_claimPairs.mp ht
    exact h a other claim t s hother hclaim (nonEmptyString_eq_some.mpr hct) (nonEmptyString_eq_some.mpr hcs)
  cases hl : r.lookup name with
  | some v => rw [getAttribute_of_resource hl, getAttribute_of_resource (hres.trans hl)]
  | none =>
    rw [getAttribute_of_notMem hl, getAttribute_of_notMem (hres.trans hl)]
    by_cases hex : ∃ s, (name, s) ∈ claimPairs c cfg.claimAttributes
    · obtain ⟨s, hs⟩ := hex
      have hsome {n : Attributes} (hn : Reordering n cfg.claimAttributes) :
          (insertAll (claimPairs c n) ∅).lookup name = some s := by
        apply lookup_insertAll_of_agree
        · rintro ⟨a, t⟩ hp rfl
          exact hagree hs ((hmem hn).mp hp)
        · exact Or.inl ⟨(name, s), (hmem hn).mpr hs, rfl⟩
      rw [hsome hm, hsome hm']
    · have hnone {n : Attributes} (hn : Reordering n cfg.claimAttributes) :
          (insertAll (claimPairs c n) ∅).lookup name = (∅ : Attributes).lookup name := by
        apply lookup_insertAll_of_notMem
        rintro ⟨a, t⟩ hp rfl
        exact hex ⟨t, (hmem hn).mp hp⟩
      rw [hnone hm, hnone hm']

def sharedConfig : Config :=
  { exampleConfig with
    claimAttributes := ⟨[⟨"sub", "user.id"⟩, ⟨"email", "user.id"⟩], by unfold List.NodupKeys; decide⟩ }

def twoNames : Claims := ofMembers [("sub", .str "u1"), ("email", .str "u1@id.example")]

/-- The identity of a request is the same in every order of the two maps exactly when the
claims that share an attribute agree. -/
theorem authData_order_free_iff (cfg : Config) (hv : cfg.Valid) (c : Claims) :
    (∀ m m' r r' : Attributes, Reordering m cfg.claimAttributes → Reordering m' cfg.claimAttributes →
      Reordering r cfg.resourceAttributes → Reordering r' cfg.resourceAttributes →
      ∀ name, (newAuthData c m r).getAttribute name = (newAuthData c m' r').getAttribute name) ↔
    Unambiguous cfg.claimAttributes c := by
  constructor
  · intro h attr claim other s t hclaim hother hs ht
    have hr : cfg.resourceAttributes.lookup attr = none := hv.collision_free (lookup_eq_some_iff.mp hclaim)
    obtain ⟨m, hm, hms⟩ := exists_order_getAttribute hclaim hs hr
    obtain ⟨m', hm', hmt⟩ := exists_order_getAttribute hother ht hr
    have he := h m m' _ _ hm hm' (List.Perm.refl _) (List.Perm.refl _) attr
    rw [hms, hmt] at he
    exact Option.some.inj he
  · intro h m m' r r' hm hm' hr hr' name
    exact h.getAttribute_congr hm hm' hr hr' name

theorem default_identity_order_free : exampleConfig.Valid ∧
    ∀ m m' : Attributes, Reordering m exampleConfig.claimAttributes →
      Reordering m' exampleConfig.claimAttributes →
        ∀ name, (newAuthData (exampleClaims (.str "u1")) m ∅).getAttribute name =
          (newAuthData (exampleClaims (.str "u1")) m' ∅).getAttribute name := by
  have hfree := (authData_order_free_iff exampleConfig exampleConfig_valid (exampleClaims (.str "u1"))).mpr ?_
  · refine ⟨exampleConfig_valid, ?_⟩
    intro m m' hm hm'
    exact hfree m m' ∅ ∅ hm hm' (List.Perm.refl _) (List.Perm.refl _)
  · intro attr claim other s t hclaim hother hs ht
    rw [exampleConfig_attribute_inj hclaim hother, hs] at ht
    exact Option.some.inj ht

/-- One token, two identities: which one a request gets depends on the order Go ranges over the map. -/
theorem shared_attribute_flickers :
    sharedConfig.Valid ∧ ∃ m m' : Attributes, Reordering m sharedConfig.claimAttributes ∧
      Reordering m' sharedConfig.claimAttributes ∧
      (newAuthData twoNames m ∅).getAttribute "user.id" = some (ofString "u1@id.example") ∧
      (newAuthData twoNames m' ∅).getAttribute "user.id" = some (ofString "u1") := by
  refine ⟨by unfold Config.Valid; decide +kernel, sharedConfig.claimAttributes,
    ⟨[⟨"email", "user.id"⟩, ⟨"sub", "user.id"⟩], by unfold List.NodupKeys; decide⟩,
      List.Perm.refl _, ?_, ?_, ?_⟩
  · exact List.Perm.swap _ _ _
  · decide +kernel
  · decide +kernel

end OtlpCollectorOidc.Auth

import OtlpCollectorOidc.Render.Document

namespace OtlpCollectorOidc.Render

open Text Maps
open Auth (Claims Attributes AuthData newAuthData nonEmptyString)

section Payload

variable (V R : Type)

/-- A span or log record: its attributes, and all else it holds. -/
structure Record where
  attributes : AttributeMap V
  rest : R

structure ScopeRecords where
  scope : AttributeMap V
  records : List (Record V R)

structure ResourceRecords where
  resource : AttributeMap V
  scopes : List (ScopeRecords V R)

/-- The conditions of filter/bounds and the statements of transform/bounds. They read the
resource's service.name and the times of a record, and set times only. -/
structure Bounds where
  dropsResource : AttributeMap V → Bool
  dropsRecord : R → Bool
  clamp : R → R

/-- A request the authenticator let through: its token's claims, the order in which Go goes
through the claim attributes, whether the memory limiter turns it away, and what it sends. -/
structure ClientRequest (s : IdentitySettings) where
  claims : Claims
  order : Attributes
  reordering : Reordering order s.claimAttributes.toMap
  overLimit : Bool
  payload : List (ResourceRecords V R)

end Payload

section Chain

variable {V R : Type} (str : Bytes → V) (s : IdentitySettings) (b : Bounds V R)

inductive Processor where
  | memoryLimiter
  | filterBounds
  | transformBounds
  | attributesIdentity
  | resourceIdentity
  | batch

def Processor.name : Processor → Bytes
  | memoryLimiter => "memory_limiter"
  | filterBounds => "filter/bounds"
  | transformBounds => "transform/bounds"
  | attributesIdentity => "attributes/identity"
  | resourceIdentity => "resource/identity"
  | batch => "batch"

def Processor.find (name : Bytes) : Option Processor :=
  [memoryLimiter, filterBounds, transformBounds, attributesIdentity, resourceIdentity, batch].find?
    (fun p ↦ p.name = name)

def ScopeRecords.filterBounds (x : ScopeRecords V R) : Option (ScopeRecords V R) :=
  let kept := x.records.filter (fun i ↦ !b.dropsRecord i.rest)
  if kept.isEmpty then none else some { x with records := kept }

/-- Drops a resource or a record its condition holds for, and what is left empty by that. -/
def ResourceRecords.filterBounds (x : ResourceRecords V R) : Option (ResourceRecords V R) :=
  let kept := x.scopes.filterMap (ScopeRecords.filterBounds b)
  if b.dropsResource x.resource || kept.isEmpty then none else some { x with scopes := kept }

def ResourceRecords.mapRecords (f : Record V R → Record V R) (x : ResourceRecords V R) :
    ResourceRecords V R :=
  { x with scopes := x.scopes.map (fun y ↦ { y with records := y.records.map f }) }

def Record.transformBounds (x : Record V R) : Record V R := { x with rest := b.clamp x.rest }

def Record.attributesIdentity (d : AuthData) (x : Record V R) : Record V R :=
  { x with attributes :=
      applyEdits ((identityActions s.claimAttributes).filterMap (AttributeAction.edit str d)) x.attributes }

def ResourceRecords.resourceIdentity (x : ResourceRecords V R) : ResourceRecords V R :=
  { x with resource :=
      applyEdits ((resourceActions s.claimAttributes s.clientResourceAttrs).map
        (ResourceAction.edit str)) x.resource }

def ClientRequest.authData (q : ClientRequest V R s) : AuthData := newAuthData q.claims q.order ∅

/-- What a processor makes of what one resource sent in one request. Batching puts the
requests' resources one after the other and changes none. -/
def Processor.apply (q : ClientRequest V R s) (x : ResourceRecords V R) :
    Processor → Option (ResourceRecords V R)
  | memoryLimiter => if q.overLimit then none else some x
  | filterBounds => x.filterBounds b
  | transformBounds => some (x.mapRecords (Record.transformBounds b))
  | attributesIdentity => some (x.mapRecords (Record.attributesIdentity str s q.authData))
  | resourceIdentity => some (x.resourceIdentity str s)
  | batch => some x

def runChain (q : ClientRequest V R s) (chain : List Bytes) (x : ResourceRecords V R) :
    Option (ResourceRecords V R) :=
  chain.foldlM (fun x name ↦ (Processor.find name).bind (Processor.apply str s b q x)) x

/-- What the traces or logs pipeline exports of some requests, each resource with the request it came in. -/
def forwarded (qs : List (ClientRequest V R s)) : List (ClientRequest V R s × ResourceRecords V R) :=
  qs.flatMap (fun q ↦ (q.payload.filterMap (runChain str s b q identityProcessors)).map (fun x ↦ (q, x)))

/-- Under each claim's attribute, the value of the token or nothing. -/
def OnlyToken (c : Claims) (m : AttributeMap V) : Prop :=
  ∀ kv ∈ s.claimAttributes.pairs, ∀ v, m.lookup kv.value = some v →
    (nonEmptyString (c.get kv.key)).map str = some v

/-- No attribute map holds an identity but the token's. -/
structure TokenIdentity (c : Claims) (x : ResourceRecords V R) : Prop where
  resource : OnlyToken str s c x.resource
  scope : ∀ y ∈ x.scopes, OnlyToken str s c y.scope
  record : ∀ y ∈ x.scopes, ∀ i ∈ y.records, OnlyToken str s c i.attributes

/-- A scope that some record of it gets through the bounds. -/
def Bounds.KeepsScope (x : ResourceRecords V R) (y : ScopeRecords V R) : Prop :=
  b.dropsResource x.resource = false ∧ y ∈ x.scopes ∧ ∃ i ∈ y.records, b.dropsRecord i.rest = false

end Chain

section Identity

variable {V R : Type} {str : Bytes → V} {s : IdentitySettings} {b : Bounds V R}

theorem Processor.find_name (p : Processor) : Processor.find p.name = some p := by cases p <;> rfl

theorem runChain_names (q : ClientRequest V R s) (ps : List Processor) (x : ResourceRecords V R) :
    runChain str s b q (ps.map Processor.name) x = ps.foldlM (fun x p ↦ p.apply str s b q x) x := by
  simp only [runChain, List.foldlM_map, Processor.find_name, Option.bind_some]

/-- The chain as rendered: the bounds, then the token's identity on every record and none on the resource. -/
theorem runChain_identity (q : ClientRequest V R s) (x : ResourceRecords V R) :
    runChain str s b q identityProcessors x =
      if q.overLimit then none
      else (x.filterBounds b).map (fun x ↦ ((x.mapRecords (Record.transformBounds b)).mapRecords
        (Record.attributesIdentity str s q.authData)).resourceIdentity str s) := by
  have hnames : identityProcessors =
    [Processor.memoryLimiter, .filterBounds, .transformBounds, .attributesIdentity,
      .resourceIdentity, .batch].map Processor.name := rfl
  rw [hnames, runChain_names]
  simp only [List.foldlM_cons, List.foldlM_nil, Processor.apply]
  cases q.overLimit with
  | true => rfl
  | false =>
    simp only [Bool.false_eq_true, if_false, Option.bind_eq_bind, Option.bind_some]
    cases x.filterBounds b <;> rfl

theorem ScopeRecords.filterBounds_eq_some {y y' : ScopeRecords V R} :
    y.filterBounds b = some y' ↔ (∃ i ∈ y.records, b.dropsRecord i.rest = false) ∧
      y' = { y with records := y.records.filter (fun i ↦ !b.dropsRecord i.rest) } := by
  have hkept : (y.records.filter (fun i ↦ !b.dropsRecord i.rest)).isEmpty = false ↔
      ∃ i ∈ y.records, b.dropsRecord i.rest = false := by
    rw [Bool.eq_false_iff, Ne, List.isEmpty_iff, List.filter_eq_nil_iff]
    push Not
    simp
  rw [← hkept]
  simp only [ScopeRecords.filterBounds]
  cases (y.records.filter (fun i ↦ !b.dropsRecord i.rest)).isEmpty <;> simp [eq_comm]

theorem ResourceRecords.filterBounds_eq_some {x x' : ResourceRecords V R} :
    x.filterBounds b = some x' ↔ b.dropsResource x.resource = false ∧
      x.scopes.filterMap (ScopeRecords.filterBounds b) ≠ [] ∧
      x' = { x with scopes := x.scopes.filterMap (ScopeRecords.filterBounds b) } := by
  simp only [ResourceRecords.filterBounds]
  generalize x.scopes.filterMap (ScopeRecords.filterBounds b) = kept
  cases b.dropsResource x.resource <;> cases kept <;> simp [eq_comm]

/-- The scopes the bounds leave, each with the records they leave of it. -/
theorem mem_filterBounds_scopes {x x' : ResourceRecords V R} (h : x.filterBounds b = some x')
    {y' : ScopeRecords V R} :
    y' ∈ x'.scopes ↔
      ∃ y, b.KeepsScope x y ∧ y' =
        { y with records := y.records.filter (fun i ↦ !b.dropsRecord i.rest) } := by
  obtain ⟨hresource, _, rfl⟩ := ResourceRecords.filterBounds_eq_some.mp h
  simp only [List.mem_filterMap, ScopeRecords.filterBounds_eq_some]
  constructor
  · rintro ⟨y, hy, hkept, he⟩
    exact ⟨y, ⟨hresource, hy, hkept⟩, he⟩
  · rintro ⟨y, ⟨_, hy, hkept⟩, he⟩
    exact ⟨y, hy, hkept, he⟩

theorem exists_filterBounds {x : ResourceRecords V R} {y : ScopeRecords V R} (h : b.KeepsScope x y) :
    ∃ x', x.filterBounds b = some x' := by
  obtain ⟨hresource, hy, hkept⟩ := h
  refine ⟨_, ResourceRecords.filterBounds_eq_some.mpr ⟨hresource, ?_, rfl⟩⟩
  exact List.ne_nil_of_mem (List.mem_filterMap.mpr
    ⟨y, hy, ScopeRecords.filterBounds_eq_some.mpr ⟨hkept, rfl⟩⟩)

theorem mem_mapRecords_scopes {f : Record V R → Record V R} {x : ResourceRecords V R}
    {y' : ScopeRecords V R} :
    y' ∈ (x.mapRecords f).scopes ↔ ∃ y ∈ x.scopes, y' = { y with records := y.records.map f } := by
  simp only [ResourceRecords.mapRecords, List.mem_map, eq_comm]

theorem onlyToken_record (hv : s.Valid) (q : ClientRequest V R s) (i : Record V R) :
    OnlyToken str s q.claims (i.attributesIdentity str s (q.authData s)).attributes := by
  intro kv hkv v hl
  rw [← hv.getAttribute q.reordering q.claims hkv]
  exact (lookup_stamp_claim hv.claims.2 (q.authData s) ⟨i.attributes, ∅⟩ hkv).symm.trans hl

theorem onlyToken_resource (hv : s.Valid) (q : ClientRequest V R s) (x : ResourceRecords V R) :
    OnlyToken str s q.claims (x.resourceIdentity str s).resource := by
  intro kv hkv v hl
  cases (lookup_stamp_deleted hv (q.authData s) ⟨∅, x.resource⟩ hkv).symm.trans hl

/-- A scope that leaves the chain is one the bounds kept, with the token's identity on each of its records. -/
theorem mem_runChain_scopes {q : ClientRequest V R s} {x x' : ResourceRecords V R}
    (h : runChain str s b q identityProcessors x = some x') {y' : ScopeRecords V R} :
    y' ∈ x'.scopes ↔ ∃ y, b.KeepsScope x y ∧ y' = { y with
      records := ((y.records.filter (fun i ↦ !b.dropsRecord i.rest)).map (Record.transformBounds b)).map
        (Record.attributesIdentity str s (q.authData s)) } := by
  rw [runChain_identity] at h
  split_ifs at h
  obtain ⟨z, hz, rfl⟩ := Option.map_eq_some_iff.mp h
  simp only [ResourceRecords.resourceIdentity, mem_mapRecords_scopes, mem_filterBounds_scopes hz]
  constructor
  · rintro ⟨_, ⟨_, ⟨y, hy, rfl⟩, rfl⟩, rfl⟩
    exact ⟨y, hy, rfl⟩
  · rintro ⟨y, hy, rfl⟩
    exact ⟨_, ⟨_, ⟨y, hy, rfl⟩, rfl⟩, rfl⟩

theorem runChain_resource {q : ClientRequest V R s} {x x' : ResourceRecords V R}
    (h : runChain str s b q identityProcessors x = some x') :
    ∃ z, x' = ResourceRecords.resourceIdentity str s z := by
  rw [runChain_identity] at h
  split_ifs at h
  obtain ⟨z, _, rfl⟩ := Option.map_eq_some_iff.mp h
  exact ⟨_, rfl⟩

theorem exists_runChain (str : Bytes → V) {q : ClientRequest V R s} (hq : q.overLimit = false)
    {x : ResourceRecords V R} {y : ScopeRecords V R} (hy : b.KeepsScope x y) :
    ∃ x', runChain str s b q identityProcessors x = some x' := by
  obtain ⟨z, hz⟩ := exists_filterBounds hy
  rw [runChain_identity, hq, hz]
  exact ⟨_, rfl⟩

theorem overLimit_of_runChain {q : ClientRequest V R s} {x x' : ResourceRecords V R}
    (h : runChain str s b q identityProcessors x = some x') : q.overLimit = false := by
  rw [runChain_identity] at h
  split_ifs at h with hq
  exact Bool.eq_false_iff.mpr hq

/-- After the chain only a scope can hold an identity that is not the token's: no processor reaches it. -/
theorem tokenIdentity_iff (hv : s.Valid) {q : ClientRequest V R s} {x x' : ResourceRecords V R}
    (h : runChain str s b q identityProcessors x = some x') :
    TokenIdentity str s q.claims x' ↔ ∀ y, b.KeepsScope x y → OnlyToken str s q.claims y.scope := by
  constructor
  · intro ht y hy
    have hscope := ht.scope _ ((mem_runChain_scopes h).mpr ⟨y, hy, rfl⟩)
    exact hscope
  · intro hs
    refine ⟨?_, ?_, ?_⟩
    · obtain ⟨z, rfl⟩ := runChain_resource h
      exact onlyToken_resource hv q z
    · intro y' hy'
      obtain ⟨y, hy, rfl⟩ := (mem_runChain_scopes h).mp hy'
      exact hs y hy
    · intro y' hy' i hi
      obtain ⟨y, _, rfl⟩ := (mem_runChain_scopes h).mp hy'
      obtain ⟨j, _, rfl⟩ := List.mem_map.mp hi
      exact onlyToken_record hv q j

theorem mem_forwarded {qs : List (ClientRequest V R s)} {p : ClientRequest V R s × ResourceRecords V R} :
    p ∈ forwarded str s b qs ↔
      p.1 ∈ qs ∧ ∃ x ∈ p.1.payload, runChain str s b p.1 identityProcessors x = some p.2 := by
  simp only [forwarded, List.mem_flatMap, List.mem_map, List.mem_filterMap]
  constructor
  · rintro ⟨q, hq, x', ⟨x, hx, hrun⟩, rfl⟩
    exact ⟨hq, x, hx, hrun⟩
  · rintro ⟨hq, x, hx, hrun⟩
    exact ⟨p.1, hq, p.2, ⟨x, hx, hrun⟩, rfl⟩

/-- Every exported resource, scope and record carries the token's identity only, exactly when no
scope a client sends through carries another: the stamping covers resources and records, and no
processor reads or writes a scope's attributes. -/
theorem forwarded_identity_iff (str : Bytes → V) {s : IdentitySettings} (hv : s.Valid) (b : Bounds V R)
    (qs : List (ClientRequest V R s)) :
    (∀ p ∈ forwarded str s b qs, TokenIdentity str s p.1.claims p.2) ↔
      ∀ q ∈ qs, q.overLimit = false → ∀ x ∈ q.payload, ∀ y, b.KeepsScope x y →
        OnlyToken str s q.claims y.scope := by
  constructor
  · intro h q hq hlimit x hx y hy
    obtain ⟨x', hrun⟩ := exists_runChain str hlimit hy
    exact (tokenIdentity_iff hv hrun).mp (h (q, x') (mem_forwarded.mpr ⟨hq, x, hx, hrun⟩)) y hy
  · intro h p hp
    obtain ⟨hq, x, hx, hrun⟩ := mem_forwarded.mp hp
    exact (tokenIdentity_iff hv hrun).mpr (h p.1 hq (overLimit_of_runChain hrun) x hx)

end Identity

def openBounds : Bounds Bytes Unit where
  dropsResource _ := false
  dropsRecord _ := false
  clamp t := t

theorem exampleSettings_valid : exampleSettings.Valid := by unfold IdentitySettings.Valid; decide

def scopedRequest (scope : AttributeMap Bytes) : ClientRequest Bytes Unit exampleSettings where
  claims := Auth.exampleClaims (.str "u1")
  order := exampleSettings.claimAttributes.toMap
  reordering := List.Perm.refl _
  overLimit := false
  payload := [⟨forgedItem.resource, [⟨scope, [⟨forgedItem.attributes, ()⟩]⟩]⟩]

theorem bare_scope_forwarded :
    (forwarded id exampleSettings openBounds [scopedRequest ∅]).length = 1 ∧
    ∀ p ∈ forwarded id exampleSettings openBounds
      [scopedRequest ∅], TokenIdentity id exampleSettings p.1.claims p.2 := by
  refine ⟨by decide +kernel,
    (forwarded_identity_iff id exampleSettings_valid openBounds [scopedRequest ∅]).mpr ?_⟩
  intro q hq _ x hx y hy kv _ v hv
  obtain rfl := List.mem_singleton.mp hq
  obtain rfl := List.mem_singleton.mp hx
  obtain rfl := List.mem_singleton.mp hy.2.1
  cases hv

def forgedScope : AttributeMap Bytes := ⟨[⟨"user.id", "u2"⟩], by unfold List.NodupKeys; decide⟩

/-- The scope of a span of u1's token still says u2. -/
theorem forged_scope_forwarded :
    exampleSettings.Valid ∧ ∃ p ∈ forwarded id exampleSettings openBounds [scopedRequest forgedScope],
      (∃ y ∈ p.2.scopes, y.scope.lookup (ofString "user.id") = some (ofString "u2")) ∧
      nonEmptyString (p.1.claims.get "sub") = some (ofString "u1") ∧
        ¬ TokenIdentity id exampleSettings p.1.claims p.2 := by
  have hkeeps : openBounds.KeepsScope ⟨forgedItem.resource, [⟨forgedScope, [⟨forgedItem.attributes, ()⟩]⟩]⟩
      ⟨forgedScope, [⟨forgedItem.attributes, ()⟩]⟩ :=
    ⟨rfl, List.mem_singleton.mpr rfl, _, List.mem_singleton.mpr rfl, rfl⟩
  obtain ⟨x', hrun⟩ := exists_runChain id (q := scopedRequest forgedScope) rfl hkeeps
  have hscope := (mem_runChain_scopes hrun).mpr ⟨_, hkeeps, rfl⟩
  have hsub : nonEmptyString ((scopedRequest forgedScope).claims.get "sub") = some (ofString "u1") := by
    decide +kernel
  refine ⟨exampleSettings_valid, (scopedRequest forgedScope, x'), ?_, ⟨_, hscope, by decide⟩, hsub, ?_⟩
  · exact mem_forwarded.mpr ⟨List.mem_singleton.mpr rfl, _, List.mem_singleton.mpr rfl, hrun⟩
  · intro h
    have hu2 := h.scope _ hscope ⟨"sub", "user.id"⟩ (by decide) (ofString "u2") (by decide)
    rw [Option.map_id_fun, id, hsub] at hu2
    exact absurd hu2 (by decide)

end OtlpCollectorOidc.Render

import OtlpCollectorOidc.Auth.Progress

namespace OtlpCollectorOidc.Auth

open Text Number Transition

variable {jose : Jose}

/-- What a fetch may end with as long as nothing else is published: the answer it has or will have, or
none. -/
def Fetch.MayEnd (published : Answer) (f : Fetch) (answer : Answer) : Prop :=
  answer = .failed ∨ answer = (f.answered.map Prod.snd).getD published

/-- What is left of `refreshFor` once its fetch is about to begin. -/
def KeySet.refetch (jose : Jose) (k : KeySet) (answer : Answer) (h : Header) : Option JSONWebKey × KeySet :=
  match k.refresh jose answer with
  | .error _ => (none, k)
  | .ok k' => ((k'.lookup h.keyID h.algorithm).1, k')

/-- What a call may come to from where it stands, as the sequential functions have it. -/
def Call.ComesTo (clock : Time) (published : Answer) (k : KeySet) (r : Option JSONWebKey × KeySet) :
    Call jose → Prop
  | .idle => False
  | .called h => ∃ answer, (answer = .failed ∨ answer = published) ∧ k.keyFor jose clock answer h = r
  | .missed h g | .locked h g => ∃ answer, (answer = .failed ∨ answer = published) ∧
      k.refreshFor jose clock answer h.keyID h.algorithm g = r
  | .marking h now =>
    ∃ answer, (answer = .failed ∨ answer = published) ∧ (k.mark now).refetch jose answer h = r
  | .marked h => ∃ answer, (answer = .failed ∨ answer = published) ∧ k.refetch jose answer h = r
  | .fetching h f => ∃ answer, f.MayEnd published answer ∧ k.refetch jose answer h = r
  | .storing h p => (((k.store p.keys).lookup h.keyID h.algorithm).1, k.store p.keys) = r
  | .looking h => ((k.lookup h.keyID h.algorithm).1, k) = r
  | .returning _ key | .done _ key => (key, k) = r

section Sequential

variable {k : KeySet} {h : Header} {now : Time} {answer : Answer}

theorem keyFor_hit {key : JSONWebKey} (hf : findKey k.keys.keys h.keyID h.algorithm = some key) :
    k.keyFor jose now answer h = (some key, k) := by
  simp only [KeySet.keyFor, KeySet.lookup, hf]

theorem keyFor_miss (hf : findKey k.keys.keys h.keyID h.algorithm = none) :
    k.keyFor jose now answer h = k.refreshFor jose now answer h.keyID h.algorithm k.generation := by
  simp only [KeySet.keyFor, KeySet.lookup, hf]

theorem refreshFor_stale {g : ℕ} (hs : k.stale now g = true) :
    k.refreshFor jose now answer h.keyID h.algorithm g = (k.mark now).refetch jose answer h := by
  rw [KeySet.refreshFor, if_pos hs]
  rfl

theorem refreshFor_fresh {g : ℕ} (hs : k.stale now g = false) :
    k.refreshFor jose now answer h.keyID h.algorithm g = ((k.lookup h.keyID h.algorithm).1, k) := by
  rw [KeySet.refreshFor, if_neg (by simp [hs])]

theorem refetch_error {e : FetchError} (hf : fetch jose answer = .error e) :
    k.refetch jose answer h = (none, k) := by
  simp only [KeySet.refetch, KeySet.refresh, hf, Except.map]

theorem refetch_ok {keys : JWKS} (hf : fetch jose answer = .ok keys) :
    k.refetch jose answer h = (((k.store keys).lookup h.keyID h.algorithm).1, k.store keys) := by
  simp only [KeySet.refetch, KeySet.refresh, hf, Except.map]

end Sequential

theorem Fetch.outcome_failed {f : Fetch} {e : FetchError}
    (h : (f.outcome true : Option (Except FetchError (Load jose))) =
    some (.error e)) : ∃ x, f.answered = some x ∧ fetch jose x.2 = .error e := by
  obtain ⟨x, hx, _⟩ := Option.map_eq_some_iff.mp h
  refine ⟨x, hx, ?_⟩
  cases hf : fetch jose x.2 with
  | ok keys =>
    rw [Fetch.outcome_ok (r := x.1) (a := x.2) hx hf] at h
    cases h
  | error e' =>
    rw [Fetch.outcome_error (r := x.1) (a := x.2) hx hf] at h
    cases h
    rfl

section Steps

variable {s : State jose} {i : CallId} {c c' : Call jose} {b : CallAct} {e : Effect jose} {k k' : KeySet}
  {r : Option JSONWebKey × KeySet}

/-- What a step leaves to come is what there was to come before it. -/
theorem CallStep.comesTo (hc : CallStep s i c b c' e) (hne : c ≠ .idle) (hk : s.cache = some k)
    (hk' : (s.apply e).cache = some k') (h : c'.ComesTo s.clock s.published k' r) :
    c.ComesTo s.clock s.published k r := by
  have hsame {k₀ : KeySet} (hcache : s.cache = some k₀) : k₀ = k := Option.some.inj (hcache.symm.trans hk)
  have hkept (he : s.apply e = s) : k = k' := by
    rw [he] at hk'
    exact Option.some.inj (hk.symm.trans hk')
  cases hc with
  | call => exact absurd rfl hne
  | hit hcache hf =>
    obtain rfl := hsame hcache
    obtain rfl := hkept rfl
    exact ⟨.failed, Or.inl rfl, (keyFor_hit hf).trans h⟩
  | miss hcache hf =>
    obtain rfl := hsame hcache
    obtain rfl := hkept rfl
    obtain ⟨answer, hanswer, hr⟩ := h
    exact ⟨answer, hanswer, (keyFor_miss hf).trans hr⟩
  | acquire =>
    obtain rfl : k = k' := Option.some.inj (hk.symm.trans hk')
    exact h
  | stale hcache hs =>
    obtain rfl := hsame hcache
    obtain rfl := hkept rfl
    obtain ⟨answer, hanswer, hr⟩ := h
    exact ⟨answer, hanswer, (refreshFor_stale hs).trans hr⟩
  | fresh hcache hs =>
    obtain rfl := hsame hcache
    obtain rfl := hkept rfl
    exact ⟨.failed, Or.inl rfl, (refreshFor_fresh hs).trans h⟩
  | mark =>
    rw [State.apply, hk] at hk'
    cases hk'
    exact h
  | start =>
    obtain rfl := hkept rfl
    exact h
  | read hf =>
    obtain rfl := hkept rfl
    obtain ⟨answer, hanswer, hr⟩ := h
    refine ⟨answer, ?_, hr⟩
    rw [Fetch.MayEnd, hf]
    exact hanswer
  | @failed h' f ok err ho =>
    obtain rfl := hkept rfl
    cases ok with
    | false => exact ⟨.failed, Or.inl rfl, h⟩
    | true =>
      obtain ⟨x, hx, herror⟩ := Fetch.outcome_failed ho
      exact ⟨x.2, Or.inr (by rw [hx]; rfl), (refetch_error herror).trans h⟩
  | @loaded h' f ok p ho =>
    obtain rfl := hkept rfl
    obtain ⟨-, hanswered, -⟩ := Fetch.outcome_load ho
    exact ⟨p.answer, Or.inr (by rw [hanswered]; rfl), (refetch_ok p.fetched).trans h⟩
  | store =>
    rw [State.apply, hk] at hk'
    cases hk'
    exact h
  | look hcache =>
    obtain rfl := hsame hcache
    obtain rfl := hkept rfl
    exact h
  | release =>
    obtain rfl : k = k' := Option.some.inj (hk.symm.trans hk')
    exact h

/-- Whatever may come of a call, the call has a step towards it. -/
theorem Call.ComesTo.exists_step (h : c.ComesTo s.clock s.published k r) (hk : s.cache = some k)
    (hfree : ∀ h g, c = .missed h g → s.refreshing = none) (hdone : ∀ h key, c ≠ .done h key) :
    ∃ b c' e k', CallStep s i c b c' e ∧ (s.apply e).cache = some k' ∧
      c'.ComesTo s.clock s.published k' r := by
  cases c with
  | idle => exact h.elim
  | called hd =>
    obtain ⟨answer, hanswer, hr⟩ := h
    cases hf : findKey k.keys.keys hd.keyID hd.algorithm with
    | some key => exact ⟨_, _, _, k, .hit hk hf, hk, (keyFor_hit hf).symm.trans hr⟩
    | none => exact ⟨_, _, _, k, .miss hk hf, hk, answer, hanswer, (keyFor_miss hf).symm.trans hr⟩
  | missed hd g => exact ⟨_, _, _, k, .acquire (hfree hd g rfl), hk, h⟩
  | locked hd g =>
    obtain ⟨answer, hanswer, hr⟩ := h
    cases hs : k.stale s.clock g with
    | true => exact ⟨_, _, _, k, .stale hk hs, hk, answer, hanswer, (refreshFor_stale hs).symm.trans hr⟩
    | false => exact ⟨_, _, _, k, .fresh hk hs, hk, (refreshFor_fresh hs).symm.trans hr⟩
  | marking hd now => exact ⟨_, _, _, k.mark now, .mark, by rw [State.apply, hk]; rfl, h⟩
  | marked hd => exact ⟨_, _, _, k, .start, hk, h⟩
  | fetching hd f =>
    obtain ⟨answer, rfl | hanswer, hr⟩ := h
    · have hbroken : (f.outcome false : Option (Except FetchError (Load jose))) = some (.error .request) :=
        rfl
      exact ⟨_, _, _, k, .failed hbroken, hk, (refetch_error rfl).symm.trans hr⟩
    · cases hf : f.answered with
      | none =>
        rw [hf] at hanswer
        exact ⟨_, _, _, k, .read hf, hk, answer, Or.inr hanswer, hr⟩
      | some x =>
        rw [hf] at hanswer
        obtain rfl : answer = x.2 := hanswer
        cases hx : Auth.fetch jose x.2 with
        | error err =>
          exact ⟨_, _, _, k, .failed (Fetch.outcome_error hf hx), hk, (refetch_error hx).symm.trans hr⟩
        | ok keys => exact ⟨_, _, _, k, .loaded (Fetch.outcome_ok hf hx), hk, (refetch_ok hx).symm.trans hr⟩
  | storing hd p => exact ⟨_, _, _, k.store p.keys, .store, by rw [State.apply, hk]; rfl, h⟩
  | looking hd => exact ⟨_, _, _, k, .look hk, hk, h⟩
  | returning hd key => exact ⟨_, _, _, k, .release, hk, h⟩
  | done hd key => exact absurd rfl (hdone hd key)

end Steps

section Runs

variable {s t : State jose} {i : CallId} {k k' : KeySet} {key : Option JSONWebKey} {h : Header}

def Call.header : Call jose → Option Header
  | .idle => none
  | .called h | .missed h _ | .locked h _ | .marking h _ | .marked h | .fetching h _
  | .storing h _ | .looking h
  | .returning h _ | .done h _ => some h

theorem CallStep.header_eq {c c' : Call jose} {b : CallAct} {e : Effect jose} (hc : CallStep s i c b c' e)
    (hne : c ≠ .idle) : c'.header = c.header := by
  cases hc with
  | call => exact absurd rfl hne
  | _ => rfl

theorem CallStep.ne_idle {c c' : Call jose} {b : CallAct} {e : Effect jose} (hc : CallStep s i c b c' e) :
    c' ≠ .idle := by
  cases hc <;> simp

/-- A run of a call alone comes to what the sequential functions return. -/
theorem comesTo_of_run {bs : List CallAct} (hne : s.calls i ≠ .idle) (hk : s.cache = some k)
    (hr : run step s (bs.map (.call i)) = some t) (ht : t.calls i = .done h key) (hk' : t.cache = some k') :
    (s.calls i).ComesTo s.clock s.published k (key, k') := by
  induction bs generalizing s k with
  | nil =>
    cases hr
    rw [ht]
    obtain rfl := Option.some.inj (hk.symm.trans hk')
    rfl
  | cons b bs ih =>
    obtain ⟨u, hu, hr⟩ := run_cons hr
    cases step_inv hu with
    | @call _ _ c e hc =>
      obtain ⟨k₁, hk₁⟩ := Option.isSome_iff_exists.mp (isSome_apply (e := e) (by rw [hk]; rfl))
      have hcache : (s.moveCall i c e).cache = some k₁ := hk₁
      have hrest := ih (by rw [State.moveCall_self]; exact hc.ne_idle) hcache hr
      rw [State.moveCall_self, State.moveCall_clock, State.moveCall_published] at hrest
      exact hc.comesTo hne hk hk₁ hrest

/-- The lock is still free as long as the call has not taken it. -/
theorem CallStep.unlocked {c c' : Call jose} {b : CallAct} {e : Effect jose} (hc : CallStep s i c b c' e)
    (hrank : 9 ≤ c'.rank) : 9 ≤ c.rank ∧ (s.apply e).refreshing = s.refreshing := by
  refine ⟨hrank.trans hc.rank_lt.le, ?_⟩
  cases hc with
  | acquire | release => simp [Call.rank] at hrank
  | _ => rfl

theorem exists_run (hk : s.cache = some k) (hfree : 9 ≤ (s.calls i).rank → s.refreshing = none)
    (hh : (s.calls i).header = some h) (hcomes : (s.calls i).ComesTo s.clock s.published k (key, k')) :
    ∃ (bs : List CallAct) (t : State jose), run step s (bs.map (.call i)) = some t ∧ t.calls i = .done h key ∧
      t.cache = some k' := by
  induction hn : (s.calls i).rank using Nat.strongRecOn generalizing s k with
  | ind n ih =>
    by_cases hdone : ∃ h' key', s.calls i = .done h' key'
    · obtain ⟨h', key', hc⟩ := hdone
      rw [hc] at hh hcomes
      cases hh
      cases hcomes
      exact ⟨[], s, rfl, hc, hk⟩
    · have hne : s.calls i ≠ .idle := by
        intro hidle
        rw [hidle] at hh
        cases hh
      obtain ⟨b, c, e, k₁, hc, hk₁, hcomes⟩ := hcomes.exists_step (i := i) hk
        (fun h g hm ↦ hfree (by rw [hm]; exact le_rfl)) (fun h key hd ↦ hdone ⟨h, key, hd⟩)
      have hstep : step s (.call i b) = some (s.moveCall i c e) := by
        rw [step, hc.callStep_eq]
        rfl
      have hfree' : 9 ≤ ((s.moveCall i c e).calls i).rank → (s.moveCall i c e).refreshing = none := by
        rw [State.moveCall_self]
        intro hrank
        obtain ⟨hbefore, hsame⟩ := hc.unlocked hrank
        exact hsame.trans (hfree hbefore)
      have hheader : ((s.moveCall i c e).calls i).header = some h := by
        rw [State.moveCall_self, hc.header_eq hne, hh]
      have hlt : ((s.moveCall i c e).calls i).rank < n :=
        hn ▸ rank_lt i s (.call i b) _ (decide_eq_true rfl) hstep
      have hcache : (s.moveCall i c e).cache = some k₁ := hk₁
      obtain ⟨bs, t, hr, ht, hk'⟩ :=
        ih _ hlt hcache hfree' hheader
          (by rwa [State.moveCall_self, State.moveCall_clock, State.moveCall_published]) rfl
      refine ⟨b :: bs, t, ?_, ht, hk'⟩
      rw [List.map_cons, run, hstep]
      exact hr

/-- The steps of a call that nothing disturbs are `keyFor`, with its fetch answered by the provider or
broken off: the call can end with a key and leave a key set exactly when `keyFor` returns them. -/
theorem undisturbed_call_refines (s : State jose) (i : CallId) (h : Header) (k : KeySet)
    (hk : s.cache = some k) (hidle : s.calls i = .idle) (hfree : s.refreshing = none)
    (key : Option JSONWebKey) (k' : KeySet) :
    (∃ (bs : List CallAct) (t : State jose), run step s ((.call h :: bs).map (.call i)) = some t ∧
      t.calls i = .done h key ∧ t.cache = some k') ↔
    ∃ answer, (answer = .failed ∨ answer = s.published) ∧ k.keyFor jose s.clock answer h = (key, k') := by
  have hcalled : step s (.call i (.call h)) = some (s.moveCall i (.called h) .none) := by
    have hc : CallStep s i .idle (.call h) (.called h) .none := .call (by rw [hk]; rfl)
    rw [step, hidle, hc.callStep_eq]
    rfl
  have hself : (s.moveCall i (.called h) .none).calls i = .called h := State.moveCall_self ..
  have hcache : (s.moveCall i (.called h) .none).cache = some k := hk
  constructor
  · rintro ⟨bs, t, hr, ht, hk'⟩
    obtain ⟨u, hu, hr⟩ := run_cons hr
    obtain rfl := Option.some.inj (hcalled.symm.trans hu)
    have hcomes := comesTo_of_run (by rw [hself]; simp) hcache hr ht hk'
    rw [hself] at hcomes
    exact hcomes
  · intro hcomes
    have hcomes : ((s.moveCall i (.called h) .none).calls i).ComesTo s.clock s.published k (key, k') := by
      rw [hself]
      exact hcomes
    obtain ⟨bs, t, hr, ht, hk'⟩ := exists_run hcache (fun _ ↦ hfree) (by rw [hself]; rfl) hcomes
    refine ⟨bs, t, ?_, ht, hk'⟩
    rw [List.map_cons, run, hcalled]
    exact hr

end Runs

theorem rotated_in_key_found_alone : ∃ s, run step exampleStart (firstLoad ++ [.publish rotated]) = some s ∧
    ∃ (bs : List CallAct) (t : State rotationJose) (key : JSONWebKey) (k' : KeySet),
      run step s ((.call rotatedIn :: bs).map (.call 0)) = some t ∧ t.calls 0 = .done rotatedIn (some key) ∧
        t.cache = some k' := by
  obtain ⟨s, hs, hx⟩ :=
    Option.map_eq_some_iff.mp
      (by decide +kernel : (run step exampleStart (firstLoad ++ [.publish rotated])).map
    (fun s ↦ (s.calls 0, s.refreshing,
      s.cache.map (fun k ↦ (k.keyFor rotationJose s.clock s.published rotatedIn).1.isSome))) =
      some (.idle, none, some true))
  simp only [Prod.mk.injEq] at hx
  obtain ⟨hidle, hfree, hfound⟩ := hx
  obtain ⟨k, hk, hfound⟩ := Option.map_eq_some_iff.mp hfound
  obtain ⟨key, hkey⟩ := Option.isSome_iff_exists.mp hfound
  obtain ⟨bs, t, hr, ht, hk'⟩ := (undisturbed_call_refines s 0 rotatedIn k hk hidle hfree (some key) _).mpr
    ⟨s.published, Or.inr rfl, Prod.ext hkey rfl⟩
  exact ⟨s, hs, bs, t, key, _, hr, ht, hk'⟩

end OtlpCollectorOidc.Auth

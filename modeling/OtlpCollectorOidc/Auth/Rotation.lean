import OtlpCollectorOidc.Auth.Freshness

namespace OtlpCollectorOidc.Auth

open Text Number Transition

/-- The header names the key: a kid, and an alg the key states if it states one. -/
def Header.Names (h : Header) (key : JSONWebKey) : Prop :=
  h.keyID ≠ [] ∧ key.keyID = h.keyID ∧ (key.algorithm = [] ∨ key.algorithm = h.algorithm)

instance (h : Header) (key : JSONWebKey) : Decidable (h.Names key) :=
  inferInstanceAs (Decidable (_ ∧ _ ∧ _))

theorem findKey_isSome_iff {keys : List JSONWebKey} {h : Header} :
    (findKey keys h.keyID h.algorithm).isSome = true ↔ ∃ key ∈ keys, h.Names key := by
  constructor
  · intro hs
    obtain ⟨key, hf⟩ := Option.isSome_iff_exists.mp hs
    obtain ⟨hm, hn⟩ := findKey_eq_some hf
    exact ⟨key, hm, hn⟩
  · intro hs
    obtain ⟨key, hm, hn, hid, ha⟩ := hs
    exact Option.isSome_iff_exists.mpr (findKey_of_mem hm hn hid ha)

def Answer.Offers (jose : Jose) (h : Header) (x : Answer) : Prop := ∃ key ∈ x.keys jose, h.Names key

instance (jose : Jose) (h : Header) (x : Answer) : Decidable (x.Offers jose h) :=
  inferInstanceAs (Decidable (∃ key ∈ x.keys jose, _))

section Rotation

variable {jose : Jose} {h : Header}

def State.Succeeds (s : State jose) (a : Act) : Prop := ∀ r ∈ s.outcome a, r.isOk = true

instance (s : State jose) (a : Act) : Decidable (s.Succeeds a) :=
  inferInstanceAs (Decidable (∀ r ∈ s.outcome a, _))

/-- What was stored last, if anything was, offers the key. -/
def State.Serves (s : State jose) (h : Header) : Prop :=
  ∀ p rest, s.stores = p :: rest → p.answer.Offers jose h

/-- Every answer given and not yet stored offers the key. -/
def State.Answered (s : State jose) (h : Header) : Prop :=
  ∀ f, s.Underway f → ∀ r x, f.answered = some (r, x) → x.Offers jose h

/-- Where a call stands that misses the header's key no earlier than the `n`th
store and has not failed to find it. -/
def Call.Awaits (h : Header) (n : ℕ) (s : State jose) : Call jose → Prop
  | .idle => False
  | .called h' | .marking h' _ | .marked h' | .fetching h' _ | .storing h' _ => h' = h
  | .missed h' g | .locked h' g => h' = h ∧ n ≤ g ∧ g ≤ s.stores.length
  | .looking h' => h' = h ∧ s.Serves h
  | .returning h' key | .done h' key => h' = h ∧ key.isSome = true

variable {s t : State jose} {a : Act} {i : CallId} {n : ℕ}

theorem Call.Awaits.mono {c : Call jose} (hc : c.Awaits h n s) (hl : s.stores.length ≤ t.stores.length)
    (hs : s.Serves h → t.Serves h) : c.Awaits h n t := by
  cases c with
  | idle => exact hc
  | called | marking | marked | fetching | storing | returning | done => exact hc
  | missed h' g | locked h' g => exact ⟨hc.1, hc.2.1, hc.2.2.trans hl⟩
  | looking h' => exact ⟨hc.1, hs hc.2⟩

theorem Inv.serves (hi : Inv s) (hs : s.Serves h) {k : KeySet} (hk : s.cache = some k) :
    (findKey k.keys.keys h.keyID h.algorithm).isSome = true := by
  obtain ⟨p, rest, hp, hkeys⟩ := (hi.cached k hk).keys
  have ho := hs p rest hp
  rw [Answer.Offers, p.answer_keys] at ho
  rw [hkeys]
  exact findKey_isSome_iff.mpr ho

theorem answered_step (hs : s.Answered h) (ho : s.published.Offers jose h) (ht : step s a = some t) :
    t.Answered h := by
  intro f hf r x hx
  obtain hf | rfl | ⟨f₀, _, rfl⟩ := underway_step ht hf
  · exact hs f hf r x hx
  · cases hx
  · cases hx
    exact ho

theorem served_step (hi : Inv s) (hs : s.Answered h) (ht : step s a = some t) :
    t.stores = s.stores ∨ t.stores.length = s.stores.length + 1 ∧ t.Serves h := by
  obtain hst | ⟨p, hst, hu, _⟩ := stores_step hi ht
  · exact .inl hst
  · right
    refine ⟨congrArg List.length hst, ?_⟩
    intro p' rest hp
    cases hst.symm.trans hp
    exact hs _ hu _ _ rfl

theorem serves_step (hi : Inv s) (hs : s.Answered h) (ht : step s a = some t) (h' : s.Serves h) :
    t.Serves h := by
  obtain hst | ⟨_, hs⟩ := served_step hi hs ht
  · intro p rest hp
    exact h' p rest (hst.symm.trans hp)
  · exact hs

theorem clock_step (ht : step s a = some t) : s.clock ≤ t.clock := by
  cases step_inv ht with
  | tick d => exact le_add_of_nonneg_right (Int.natCast_nonneg d)
  | publish => exact le_rfl
  | provider => rw [State.moveProvider_clock]
  | call => rw [State.moveCall_clock]

def Call.fetches : Call jose → Bool
  | .marked _ | .fetching .. | .storing .. => true
  | _ => false

/-- A fetch that succeeds is under way until it is stored. -/
theorem fetches_until_stored {j : CallId} (hok : s.Succeeds a) (ht : step s a = some t)
    (hst : t.stores = s.stores) (hj : (s.calls j).fetches = true) : (t.calls j).fetches = true := by
  cases step_inv ht with
  | tick | publish => exact hj
  | provider => rwa [State.moveProvider_calls]
  | @call i b c e hc =>
    by_cases hji : j = i
    · subst hji
      rw [State.moveCall_self]
      generalize hcj : s.calls j = c₀ at hc hj
      cases hc with
      | call | hit | miss | acquire | stale | fresh | mark | look | release => cases hj
      | start | read | loaded => rfl
      | failed ho =>
        have hfail := hok _ ((State.outcome_call hcj).trans ho)
        cases hfail
      | store => exact absurd hst (List.cons_ne_self _ _)
    · rwa [State.moveCall_ne _ _ _ hji]

/-- Only a call that begins a fetch records a starting time. -/
theorem missStarts_eq_step (ht : step s a = some t) :
    t.missStarts = s.missStarts ∨ ∃ j, (t.calls j).fetches = true := by
  cases step_inv ht with
  | tick | publish => exact .inl rfl
  | provider hp => exact .inl (missStarts_provider hp)
  | @call i b c e hc =>
    generalize s.calls i = c₀ at hc
    cases hc with
    | mark =>
      right
      refine ⟨i, ?_⟩
      rw [State.moveCall_self]
      rfl
    | call | hit | miss | acquire | stale | fresh | start | read | failed | loaded | store | look | release =>
      exact .inl rfl

/-- A call in search of a key that is published, since the `n`th store and while
the starting times recorded then are old enough. -/
structure Awaiting (h : Header) (i : CallId) (n : ℕ) (starts : List Time) (s : State jose) : Prop where
  inv : Inv s
  answered : s.Answered h
  stored : n ≤ s.stores.length
  served : s.stores.length = n ∨ s.Serves h
  waits : s.stores.length = n → s.missStarts = starts ∨ ∃ j, (s.calls j).fetches = true
  old : ∀ x ∈ zeroTime :: starts, x + minRefreshInterval ≤ s.clock
  call : (s.calls i).Awaits h n s

variable {starts : List Time}

/-- The call that holds the lock finds the set stale unless it has been stored to. -/
theorem Awaiting.stale (hs : Awaiting h i n starts s) {h' : Header} {g : ℕ} (hc : s.calls i = .locked h' g)
    {k : KeySet} (hk : s.cache = some k) (hn : s.stores.length = n) : k.stale s.clock g = true := by
  have hm : s.missStarts = starts := by
    obtain hm | ⟨j, hj⟩ := hs.waits hn
    · exact hm
    · have hheld : (s.calls j).holds = true := by
        generalize s.calls j = c at hj
        cases c with
        | marked | fetching | storing => rfl
        | idle | called | missed | locked | marking | looking | returning | done => cases hj
      have hji := (hs.inv.mutex j hheld).symm.trans (hs.inv.mutex i (by rw [hc]; rfl))
      rw [Option.some.inj hji, hc] at hj
      cases hj
  have hcall := hs.call
  rw [hc] at hcall
  have hcons := hs.inv.cached k hk
  rw [stale_iff]
  refine ⟨?_, ?_⟩
  · have hg := hcons.generation
    have hle := hcall.2
    omega
  · apply hs.old
    rw [hcons.missFetched, hm]
    cases starts with
    | nil => exact List.mem_cons_self
    | cons x rest => exact List.mem_cons_of_mem _ List.mem_cons_self

theorem Awaiting.call_step (hs : Awaiting h i n starts s) {b : CallAct} {c : Call jose} {e : Effect jose}
    (hok : s.Succeeds (.call i b)) (hc : CallStep s i (s.calls i) b c e) :
    c.Awaits h n (s.moveCall i c e) := by
  have hcall := hs.call
  generalize hci : s.calls i = c₀ at hc hcall
  cases hc with
  | call => exact hcall.elim
  | hit => exact ⟨hcall, rfl⟩
  | miss hk hf =>
    have hg := (hs.inv.cached _ hk).generation
    exact ⟨hcall, hg ▸ hs.stored, hg.le⟩
  | acquire => exact hcall
  | stale => exact hcall.1
  | fresh hk hstale =>
    refine ⟨hcall.1, ?_⟩
    obtain hn | hserves := hs.served
    · cases (hs.stale hci hk hn).symm.trans hstale
    · exact hserves
  | mark | start | read | loaded => exact hcall
  | failed ho =>
    have hfail := hok _ ((State.outcome_call hci).trans ho)
    cases hfail
  | @store hd p =>
    refine ⟨hcall, ?_⟩
    intro p' rest hp
    cases hp
    exact hs.answered p.fetch (.inr ⟨i, by rw [hci]; rfl⟩) _ _ rfl
  | look hk =>
    have hfound := hs.inv.serves hcall.2 hk
    rw [← hcall.1] at hfound
    exact ⟨hcall.1, hfound⟩
  | release => exact hcall

theorem Awaiting.step (s : State jose) (a : Act) (t : State jose) (hs : Awaiting h i n starts s)
    (hc : s.published.Offers jose h ∧ s.Succeeds a) (ht : step s a = some t) : Awaiting h i n starts t := by
  have hst := served_step hs.inv hs.answered ht
  have hlen : s.stores.length ≤ t.stores.length := by
    obtain hst | ⟨hst, _⟩ := hst
    · rw [hst]
    · omega
  have hserves := serves_step hs.inv hs.answered ht
  refine ⟨hs.inv.step s a t ht, answered_step hs.answered hc.1 ht, hs.stored.trans hlen, ?_, ?_, ?_, ?_⟩
  · obtain hst | ⟨_, hst⟩ := hst
    · rw [hst]
      exact hs.served.imp_right hserves
    · exact .inr hst
  · intro hn
    have hst : t.stores = s.stores := by
      obtain hst | ⟨hst, _⟩ := hst
      · exact hst
      · have hle := hs.stored
        omega
    obtain hm | ⟨j, hj⟩ := hs.waits (hst ▸ hn)
    · exact (missStarts_eq_step ht).imp_left (·.trans hm)
    · exact .inr ⟨j, fetches_until_stored hc.2 ht hst hj⟩
  · intro x hx
    exact (hs.old x hx).trans (clock_step ht)
  · cases step_inv ht with
    | tick | publish => exact hs.call.mono hlen hserves
    | provider =>
      rw [State.moveProvider_calls]
      exact hs.call.mono hlen hserves
    | @call j b c e hj =>
      by_cases hij : i = j
      · subst hij
        rw [State.moveCall_self]
        exact hs.call_step hc.2 hj
      · rw [State.moveCall_ne _ _ _ hij]
        exact hs.call.mono hlen hserves

end Rotation

/-- A rotated-in key is found while fetches succeed, if no fetch under way when the
call is made has been answered without it. -/
theorem rotated_in_key_found (jose : Jose) (s u : State jose) (hs : Reachable s) (i : CallId) (h : Header)
    (hi : s.calls i = .idle) (bs : List Act) (hu : run step s (.call i (.call h) :: bs) = some u)
    (hok : Along step State.Succeeds s (.call i (.call h) :: bs))
    (hpub : Along step (fun t _ ↦ t.published.Offers jose h) s (.call i (.call h) :: bs))
    (hold : ∀ start ∈ zeroTime :: s.missStarts, start + minRefreshInterval ≤ s.clock)
    (hpending : s.Answered h) : u.calls i ≠ .done h none := by
  obtain ⟨t, ht, hu'⟩ := run_cons hu
  have hw : Awaiting h i s.stores.length s.missStarts t := by
    have hinv := hs.inv.step s _ t ht
    have ha := answered_step hpending hpub.1 ht
    rw [step, hi] at ht
    obtain ⟨⟨c, e⟩, hc, rfl⟩ := Option.map_eq_some_iff.mp ht
    cases callStep_inv hc with
    | call _ =>
      refine ⟨hinv, ha, le_rfl, .inl rfl, fun _ ↦ .inl rfl, hold, ?_⟩
      rw [State.moveCall_self]
      rfl
  have hend := invariant_along Awaiting.step hw ((hpub.2 t ht).and (hok.2 t ht)) hu'
  intro hd
  have hcall := hend.call
  rw [hd] at hcall
  cases hcall.2

def fetchingRun (i : CallId) : List Act :=
  [.call i .advance, .call i .advance, .call i .advance, .call i .advance, .call i .advance, .call i .read,
    .call i (.finish true), .call i .advance, .call i .advance, .call i .advance]

theorem rotated_in_key_found_by_call :
    ∃ s u, run step exampleStart (firstLoad ++ [.publish rotated]) = some s ∧
      run step s (.call 0 (.call rotatedIn) :: fetchingRun 0) = some u ∧
      u.calls 0 = .done rotatedIn (some publishedKey) ∧ u.calls 0 ≠ .done rotatedIn none := by
  obtain ⟨s, hs, hx⟩ := Option.map_eq_some_iff.mp (by decide +kernel : (run step exampleStart
    (firstLoad ++ [.publish rotated])).map (fun s ↦ (s.clock, s.missStarts, s.provider.fetch,
      decide (Along step State.Succeeds s (.call 0 (.call rotatedIn) :: fetchingRun 0)),
      decide (Along step (fun t _ ↦ t.published.Offers rotationJose rotatedIn) s
        (.call 0 (.call rotatedIn) :: fetchingRun 0)))) = some (0, [], none, true, true))
  obtain ⟨u, hu, hd⟩ := Option.map_eq_some_iff.mp (by decide +kernel : (run step exampleStart
    ((firstLoad ++ [.publish rotated]) ++ .call 0 (.call rotatedIn) :: fetchingRun 0)).map
      (fun u ↦ u.calls 0) = some (.done rotatedIn (some publishedKey)))
  simp only [Prod.mk.injEq, decide_eq_true_eq] at hx
  obtain ⟨hclock, hstarts, hprovider, hok, hpub⟩ := hx
  obtain ⟨s', hs', hu'⟩ := run_append_eq_some hu
  cases hs.symm.trans hs'
  have hidle : ∀ i, s.calls i = .idle := fun i ↦ calls_run_of_ne (by simp [firstLoad]) hs
  refine ⟨s, u, hs, hu', hd, ?_⟩
  apply rotated_in_key_found rotationJose s u ⟨_, _, _, hs⟩ 0 rotatedIn (hidle 0) _ hu' hok hpub
  · rw [hclock, hstarts]
    decide
  · intro f hf
    obtain hf | ⟨i, hf⟩ := hf
    · cases hprovider.symm.trans hf
    · rw [hidle i] at hf
      cases hf

/-- The scheduled refresh stores the old keys while the call waits: the call takes
the new generation for a fresh answer and refuses the key. -/
def refreshedMeanwhile : List Act :=
  [.call 0 .advance, .provider (.finish true), .provider .advance, .call 0 .advance, .call 0 .advance,
    .call 0 .advance, .call 0 .advance]

theorem rotated_in_key_unknown :
    ¬ ∀ (jose : Jose) (clock : Time) (published : Answer) (as : List Act) (s u : State jose) (i : CallId)
      (h : Header) (bs : List Act), run step (initial jose clock published) as = some s → s.calls i = .idle →
      run step s (.call i (.call h) :: bs) = some u →
      Along step State.Succeeds (initial jose clock published) (as ++ .call i (.call h) :: bs) →
      Along step (fun t _ ↦ t.published.Offers jose h) s (.call i (.call h) :: bs) →
      (∀ start ∈ zeroTime :: s.missStarts, start + minRefreshInterval ≤ s.clock) →
      u.calls i ≠ .done h none := by
  intro hall
  obtain ⟨s, hs, hx⟩ := Option.map_eq_some_iff.mp (by decide +kernel : (run step exampleStart overtaken).map
    (fun s ↦ (s.clock, s.missStarts, s.calls 0,
      decide (Along step (fun t _ ↦ t.published.Offers rotationJose rotatedIn) s
        (.call 0 (.call rotatedIn) :: refreshedMeanwhile)))) = some (0, [], .idle, true))
  obtain ⟨u, hu, hd⟩ := Option.map_eq_some_iff.mp (by decide +kernel : (run step exampleStart
    (overtaken ++ .call 0 (.call rotatedIn) :: refreshedMeanwhile)).map (fun u ↦ u.calls 0) =
      some (.done rotatedIn none))
  simp only [Prod.mk.injEq, decide_eq_true_eq] at hx
  obtain ⟨hclock, hstarts, hidle, hpub⟩ := hx
  obtain ⟨s', hs', hu'⟩ := run_append_eq_some hu
  cases hs.symm.trans hs'
  refine hall rotationJose 0 _ _ s u 0 rotatedIn _ hs hidle hu' (by decide +kernel) hpub ?_ hd
  rw [hclock, hstarts]
  decide

end OtlpCollectorOidc.Auth

import OtlpCollectorOidc.Auth.System

namespace OtlpCollectorOidc.Auth

open Text Number Transition

theorem stale_iff {k : KeySet} {now : Time} {g : ℕ} :
    k.stale now g = true ↔ k.generation = g ∧ k.missFetched + minRefreshInterval ≤ now := by
  have hd : minRefreshInterval ≤ sub now k.missFetched ↔ minRefreshInterval ≤ now - k.missFetched :=
    le_sub_iff (by decide) (by decide)
  rw [KeySet.stale, Bool.and_eq_true, decide_eq_true_eq, decide_eq_true_eq, hd, le_sub_iff_add_le, add_comm]

/-- The newest of starting times that lie apart is the only one that counts. -/
theorem starts_le_of_head {starts : List Time} {last now : Time}
    (hp : (last :: starts).Pairwise (fun later earlier ↦ earlier + minRefreshInterval ≤ later))
    (h : last + minRefreshInterval ≤ now) : ∀ t ∈ last :: starts, t + minRefreshInterval ≤ now := by
  have hi : 0 ≤ minRefreshInterval := by decide
  intro t ht
  obtain rfl | ht := List.mem_cons.mp ht
  · exact h
  · have hl := List.rel_of_pairwise_cons hp ht
    linarith

section Throttle

variable {jose : Jose} {s t : State jose}

theorem Consistent.stale_iff_starts {k : KeySet} {stores : List (Load jose)} {starts : List Time}
    (hk : Consistent k stores starts)
    (hp : starts.Pairwise (fun later earlier ↦ earlier + minRefreshInterval ≤ later)) (hne : starts ≠ [])
    {now : Time} {g : ℕ} :
    k.stale now g = true ↔ stores.length = g ∧ ∀ t ∈ starts, t + minRefreshInterval ≤ now := by
  obtain ⟨last, rest, rfl⟩ := List.exists_cons_of_ne_nil hne
  have hm : k.missFetched = last := hk.missFetched
  rw [stale_iff, hk.generation, hm]
  constructor
  · intro h
    exact ⟨h.1, starts_le_of_head hp h.2⟩
  · intro h
    exact ⟨h.1, h.2 last List.mem_cons_self⟩

/-- The recorded starting times lie apart, and so does the one about to be recorded. -/
structure Throttled (s : State jose) : Prop where
  past : ∀ t ∈ s.missStarts, t ≤ s.clock
  apart : s.missStarts.Pairwise (fun later earlier ↦ earlier + minRefreshInterval ≤ later)
  marking : ∀ i h now, s.calls i = .marking h now →
    now ≤ s.clock ∧ ∀ t ∈ s.missStarts, t + minRefreshInterval ≤ now

theorem throttled_initial (jose : Jose) (clock : Time) (published : Answer) :
    Throttled (initial jose clock published) where
  past _ h := nomatch h
  apart := List.Pairwise.nil
  marking _ _ _ h := nomatch h

theorem missStarts_provider {q q' : Provider jose} {b : ProviderAct} {e : Effect jose}
    (h : ProviderStep s q b q' e) : (s.moveProvider q' e).missStarts = s.missStarts := by
  cases h <;> rfl

theorem Throttled.call (hi : Inv s) (hs : Throttled s) {i : CallId} {b : CallAct} {c : Call jose}
    {e : Effect jose} (h : CallStep s i (s.calls i) b c e) :
    Throttled (s.moveCall i c e) := by
  generalize hc : s.calls i = c₀ at h
  -- Only a call that finds the set stale comes to record a time.
  have hother : (∀ hd now, c ≠ .marking hd now) → (s.moveCall i c e).missStarts = s.missStarts →
      Throttled (s.moveCall i c e) := by
    intro hne hm
    refine ⟨?_, ?_, ?_⟩
    · simpa only [hm, State.moveCall_clock] using hs.past
    · simpa only [hm] using hs.apart
    · intro j hd now hj
      by_cases hji : j = i
      · rw [hji, State.moveCall_self] at hj
        exact absurd hj (hne hd now)
      · rw [State.moveCall_ne _ _ _ hji] at hj
        simpa only [hm, State.moveCall_clock] using hs.marking j hd now hj
  cases h with
  | call | hit | miss | acquire | fresh | start | read | failed | loaded | store | look | release =>
    exact hother (fun _ _ h ↦ (nomatch h)) rfl
  | @stale hd g k hk hstale =>
    refine ⟨hs.past, hs.apart, ?_⟩
    intro j hd' now hj
    by_cases hji : j = i
    · rw [hji, State.moveCall_self] at hj
      cases hj
      refine ⟨le_rfl, ?_⟩
      intro t ht
      have hne : s.missStarts ≠ [] := List.ne_nil_of_mem ht
      exact (((hi.cached k hk).stale_iff_starts hs.apart hne).mp hstale).2 t ht
    · rw [State.moveCall_ne _ _ _ hji] at hj
      exact hs.marking j hd' now hj
  | @mark hd now =>
    obtain ⟨hnow, hap⟩ := hs.marking i hd now hc
    refine ⟨?_, ?_, ?_⟩
    · intro t ht
      obtain rfl | ht := List.mem_cons.mp ht
      · exact hnow
      · exact hs.past t ht
    · exact List.pairwise_cons.mpr ⟨hap, hs.apart⟩
    · intro j hd' now' hj
      by_cases hji : j = i
      · rw [hji, State.moveCall_self] at hj
        cases hj
      · rw [State.moveCall_ne _ _ _ hji] at hj
        -- Two calls cannot both hold the lock.
        have hli := hi.mutex i (by rw [hc]; rfl)
        have hlj := hi.mutex j (by rw [hj]; rfl)
        exact absurd (Option.some.inj (hlj.symm.trans hli)) hji

theorem Throttled.step (s : State jose) (a : Act) (t : State jose) (hs : Inv s ∧ Throttled s)
    (h : step s a = some t) : Inv t ∧ Throttled t := by
  refine ⟨hs.1.step s a t h, ?_⟩
  obtain ⟨hi, hs⟩ := hs
  cases step_inv h with
  | tick d =>
    have hd : s.clock ≤ s.clock + d := le_add_of_nonneg_right (Int.natCast_nonneg d)
    refine ⟨fun t ht ↦ (hs.past t ht).trans hd, hs.apart, ?_⟩
    intro i hd' now hn
    obtain ⟨hle, hap⟩ := hs.marking i hd' now hn
    exact ⟨hle.trans hd, hap⟩
  | publish x => exact ⟨hs.past, hs.apart, hs.marking⟩
  | provider hp =>
    have hm := missStarts_provider hp
    exact ⟨by simpa only [hm, State.moveProvider_clock] using hs.past, by simpa only [hm] using hs.apart,
      by simpa only [hm, State.moveProvider_clock, State.moveProvider_calls] using hs.marking⟩
  | call hc => exact hs.call hi hc

theorem Reachable.throttled (h : Reachable s) : Throttled s := by
  obtain ⟨clock, published, as, hr⟩ := h
  exact (invariant_run Throttled.step ⟨inv_initial jose clock published,
    throttled_initial jose clock published⟩ hr).2

theorem missStarts_call {i : CallId} {c c' : Call jose} {b : CallAct} {e : Effect jose}
    (h : CallStep s i c b c' e) {x : Time} (hx : x ∈ s.missStarts) : x ∈ (s.moveCall i c' e).missStarts := by
  cases h with
  | mark => exact List.mem_cons_of_mem _ hx
  | call | hit | miss | acquire | stale | fresh | start | read | failed | loaded | store | look | release =>
    exact hx

/-- A recorded starting time stays recorded. -/
theorem missStarts_step {x : Time} (s : State jose) (a : Act) (t : State jose) (hx : x ∈ s.missStarts)
    (h : step s a = some t) : x ∈ t.missStarts := by
  cases step_inv h with
  | tick | publish => exact hx
  | provider hp => rwa [missStarts_provider hp]
  | call hc => exact missStarts_call hc hx

def Call.Missed (h : Header) (g : ℕ) : Call jose → Prop
  | .idle | .called _ => False
  | .missed h' g' | .locked h' g' => h' = h ∧ g' = g
  | _ => True

theorem missed_step {j : CallId} {h : Header} {g : ℕ} (s : State jose) (a : Act) (t : State jose)
    (hs : (s.calls j).Missed h g) (ht : step s a = some t) : (t.calls j).Missed h g := by
  cases step_inv ht with
  | tick | publish => exact hs
  | provider hp => rwa [State.moveProvider_calls]
  | @call i b c e hc =>
    by_cases hji : j = i
    · subst hji
      rw [State.moveCall_self]
      generalize s.calls j = c₀ at hc hs
      cases hc with
      | call | hit | miss => exact hs.elim
      | acquire => exact hs
      | stale | fresh | mark | start | read | failed | loaded | store | look | release => trivial
    · rwa [State.moveCall_ne _ _ _ hji]

end Throttle

/-- A fetch for an unknown kid: the call that makes it, and the starting time the key set has recorded
as it begins. -/
structure MissFetch where
  call : CallId
  start : Time
  deriving DecidableEq

def Call.isFetching {jose : Jose} : Call jose → Bool
  | .fetching .. => true
  | _ => false

section Fetches

variable {jose : Jose} {s t : State jose}

def begunFetch (s : State jose) : Act → State jose → Option MissFetch
  | .call i _, t =>
    if (s.calls i).isFetching || !(t.calls i).isFetching then none
    else t.cache.map (fun k ↦ ⟨i, k.missFetched⟩)
  | _, _ => none

def missFetches (s : State jose) (as : List Act) : List MissFetch := emitted step begunFetch s as

/-- Each recorded starting time is that of a fetch begun, the newest one perhaps of a fetch about to begin. -/
structure Recorded (s : State jose) (fetches : List MissFetch) : Prop where
  marked : ∀ i h, s.calls i = .marked h → ∃ now, s.missStarts = now :: (fetches.map MissFetch.start).reverse
  begun : (∀ i h, s.calls i ≠ .marked h) → s.missStarts = (fetches.map MissFetch.start).reverse

theorem recorded_initial (jose : Jose) (clock : Time) (published : Answer) :
    Recorded (initial jose clock published) [] where
  marked _ _ h := nomatch h
  begun _ := rfl

/-- A call that holds the lock is the only one that can be about to begin a fetch. -/
theorem Inv.eq_of_marked (hs : Inv s) {i j : CallId} (hi : (s.calls i).holds = true) {h : Header}
    (hj : s.calls j = .marked h) : j = i :=
  Option.some.inj ((hs.mutex j (by rw [hj]; rfl)).symm.trans (hs.mutex i hi))

theorem begunFetch_eq_none {i : CallId} {b : CallAct} {c : Call jose} {e : Effect jose}
    (h : ((s.calls i).isFetching || !c.isFetching) = true) :
    begunFetch s (.call i b) (s.moveCall i c e) = none := by
  rw [begunFetch, State.moveCall_self]
  exact if_pos h

variable {fetches : List MissFetch} {i : CallId} {hd : Header}

/-- A step that neither records a time nor begins a fetch. -/
theorem Recorded.other (hs : Recorded s fetches) {c : Call jose} {e : Effect jose}
    (hbefore : ∀ hd, s.calls i ≠ .marked hd) (hafter : ∀ hd, c ≠ .marked hd)
    (hm : (s.moveCall i c e).missStarts = s.missStarts) : Recorded (s.moveCall i c e) fetches := by
  have hcalls (j : CallId) (hd : Header) :
      (s.moveCall i c e).calls j = .marked hd ↔ s.calls j = .marked hd := by
    by_cases hji : j = i
    · rw [hji, State.moveCall_self]
      exact iff_of_false (hafter hd) (hbefore hd)
    · rw [State.moveCall_ne _ _ _ hji]
  refine ⟨fun j hd hj ↦ ?_, fun hne ↦ ?_⟩
  · rw [hm]
    exact hs.marked j hd ((hcalls j hd).mp hj)
  · rw [hm]
    exact hs.begun (fun j hd hj ↦ hne j hd ((hcalls j hd).mpr hj))

theorem Recorded.mark (hi : Inv s) (hs : Recorded s fetches) {now : Time}
    (hc : s.calls i = .marking hd now) : Recorded (s.moveCall i (.marked hd) (.mark now)) fetches := by
  have hnobody : ∀ j h, s.calls j ≠ .marked h := by
    intro j h hj
    have hji := hi.eq_of_marked (i := i) (by rw [hc]; rfl) hj
    rw [hji, hc] at hj
    cases hj
  refine ⟨fun _ _ _ ↦ ⟨now, ?_⟩, fun hne ↦ absurd (State.moveCall_self ..) (hne i hd)⟩
  exact congrArg (now :: ·) (hs.begun hnobody)

/-- The fetch that begins has the time recorded for it. -/
theorem Recorded.start (hi : Inv s) (hs : Recorded s fetches) (hc : s.calls i = .marked hd) :
    ∃ now, begunFetch s (.call i .advance) (s.moveCall i (.fetching hd s.newFetch) .none) = some ⟨i, now⟩ ∧
      Recorded (s.moveCall i (.fetching hd s.newFetch) .none) (fetches ++ [⟨i, now⟩]) := by
  obtain ⟨now, hstarts⟩ := hs.marked i hd hc
  obtain ⟨k, hk⟩ := Option.isSome_iff_exists.mp (hi.active i (by simp [hc]))
  have hnow : k.missFetched = now := by
    rw [(hi.cached k hk).missFetched, hstarts]
    rfl
  have hnobody : ∀ j h, (s.moveCall i (.fetching hd s.newFetch) .none).calls j ≠ .marked h := by
    intro j h hj
    by_cases hji : j = i
    · rw [hji, State.moveCall_self] at hj
      cases hj
    · rw [State.moveCall_ne _ _ _ hji] at hj
      exact hji (hi.eq_of_marked (by rw [hc]; rfl) hj)
  refine ⟨now, ?_, fun j h hj ↦ absurd hj (hnobody j h), fun _ ↦ ?_⟩
  · have hcache : (s.moveCall i (.fetching hd s.newFetch) .none).cache = some k := hk
    rw [begunFetch, State.moveCall_self, hc, hcache, ← hnow]
    rfl
  · have hsame : (s.moveCall i (.fetching hd s.newFetch) .none).missStarts = s.missStarts := rfl
    rw [hsame, hstarts]
    simp

theorem Recorded.call (hi : Inv s) (hs : Recorded s fetches) {b : CallAct} {c : Call jose}
    {e : Effect jose} (h : CallStep s i (s.calls i) b c e) :
    Recorded (s.moveCall i c e) (fetches ++ (begunFetch s (.call i b) (s.moveCall i c e)).toList) := by
  generalize hc : s.calls i = c₀ at h
  cases h with
  | call | hit | miss | acquire | stale | fresh | read | failed | loaded | store | look | release =>
    rw [begunFetch_eq_none (by rw [hc]; rfl), Option.toList_none, List.append_nil]
    exact hs.other (fun _ h ↦ (nomatch hc.symm.trans h)) (fun _ h ↦ (nomatch h)) rfl
  | @mark hd now =>
    rw [begunFetch_eq_none (by rw [hc]; rfl), Option.toList_none, List.append_nil]
    exact hs.mark hi hc
  | @start hd =>
    obtain ⟨now, hbegun, hnext⟩ := hs.start hi hc
    rw [hbegun]
    exact hnext

theorem Recorded.step (s : State jose) (a : Act) (t : State jose) (fetches : List MissFetch)
    (hs : Inv s ∧ Recorded s fetches) (h : step s a = some t) :
    Inv t ∧ Recorded t (fetches ++ (begunFetch s a t).toList) := by
  refine ⟨hs.1.step s a t h, ?_⟩
  obtain ⟨hi, hs⟩ := hs
  cases step_inv h with
  | tick | publish =>
    rw [begunFetch, Option.toList_none, List.append_nil]
    · exact ⟨hs.marked, hs.begun⟩
    · exact fun _ _ h ↦ (nomatch h)
  | provider hp =>
    have hm := missStarts_provider hp
    rw [begunFetch, Option.toList_none, List.append_nil]
    · exact ⟨by simpa only [hm, State.moveProvider_calls] using hs.marked,
        by simpa only [hm, State.moveProvider_calls] using hs.begun⟩
    · exact fun _ _ h ↦ (nomatch h)
  | call hc => exact hs.call hi hc

theorem recorded_run {clock : Time} {published : Answer} {as : List Act}
    (hr : run step (initial jose clock published) as = some s) :
    Recorded s (missFetches (initial jose clock published) as) :=
  (invariant_emitted Recorded.step
    ⟨inv_initial jose clock published, recorded_initial jose clock published⟩ hr).2

/-- The starting times of the fetches are all among those recorded. -/
theorem Recorded.sublist (hs : Recorded s fetches) :
    List.Sublist (fetches.map MissFetch.start).reverse s.missStarts := by
  by_cases hmarked : ∃ i h, s.calls i = .marked h
  · obtain ⟨i, h, hc⟩ := hmarked
    obtain ⟨now, hstarts⟩ := hs.marked i h hc
    rw [hstarts]
    exact List.sublist_cons_self _ _
  · rw [hs.begun (fun i h hc ↦ hmarked ⟨i, h, hc⟩)]

end Fetches

/-- Unknown kids cannot turn requests into provider traffic: over every run the starting times recorded
for the fetches they cause lie apart, one time for each fetch, and one such fetch at most is under
way. -/
theorem unknown_kids_throttled (jose : Jose) (clock : Time) (published : Answer) (as : List Act)
    (s : State jose) (hr : run step (initial jose clock published) as = some s) :
    (missFetches (initial jose clock published) as).Pairwise
      (fun earlier later ↦ earlier.start + minRefreshInterval ≤ later.start) ∧
    Recorded s (missFetches (initial jose clock published) as) ∧
    ∀ i j h h' f f', s.calls i = .fetching h f → s.calls j = .fetching h' f' → i = j := by
  have hs : Reachable s := ⟨clock, published, as, hr⟩
  have hrecorded := recorded_run hr
  refine ⟨?_, hrecorded, ?_⟩
  · exact List.pairwise_map.mp (List.pairwise_reverse.mp (hs.throttled.apart.sublist hrecorded.sublist))
  · intro i j h h' f f' hi hj
    have hli := hs.inv.mutex i (by rw [hi]; rfl)
    have hlj := hs.inv.mutex j (by rw [hj]; rfl)
    exact Option.some.inj (hli.symm.trans hlj)

def twoFetches : List Act :=
  firstLoad ++ missing 0 ++ [.call 0 (.finish false), .call 0 .advance, .tick (10 * 10 ^ 9)] ++ missing 1

theorem unknown_kids_ten_seconds_apart :
    ∃ s, run step exampleStart twoFetches = some s ∧
      missFetches exampleStart twoFetches = [⟨0, 0⟩, ⟨1, 10 * second⟩] ∧
      (missFetches exampleStart twoFetches).Pairwise
        (fun earlier later ↦ earlier.start + minRefreshInterval ≤ later.start) ∧
      Recorded s (missFetches exampleStart twoFetches) := by
  have hfetches : missFetches exampleStart twoFetches = [⟨0, 0⟩, ⟨1, 10 * second⟩] := by decide +kernel
  obtain ⟨s, hs⟩ :=
    Option.isSome_iff_exists.mp (by decide +kernel : (run step exampleStart twoFetches).isSome = true)
  obtain ⟨hapart, hrecorded, _⟩ := unknown_kids_throttled rotationJose 0 _ _ s hs
  exact ⟨s, hs, hfetches, hapart, hrecorded⟩

/-- A call that waited while another began its fetch shares that fetch, whatever
became of it, exactly when some answer has been stored since they missed or the
last recorded start is less than `minRefreshInterval` ago. -/
theorem waiting_call_shares_iff (jose : Jose) (s t u : State jose) (hs : Reachable s) (i j : CallId)
    (h h' : Header) (now : Time) (g : ℕ) (hi : s.calls i = .marking h now) (hj : s.calls j = .missed h' g)
    (bs : List Act) (ht : run step s (.call i .advance :: bs) = some t) (h'' : Header) (g' : ℕ)
    (hl : t.calls j = .locked h'' g') (hu : step t (.call j .advance) = some u) :
    now ∈ t.missStarts ∧ (u.calls j = .looking h'' ↔
      t.stores.length ≠ g ∨ ∃ start ∈ t.missStarts, t.clock < start + minRefreshInterval) := by
  have hrt : Reachable t := hs.trans ht
  obtain ⟨s', hs', ht'⟩ := run_cons ht
  have hnow : now ∈ t.missStarts := by
    apply invariant_run missStarts_step ?_ ht'
    rw [step, hi] at hs'
    cases hs'
    exact List.mem_cons_self
  have hg : g' = g := by
    have hm : (t.calls j).Missed h' g := invariant_run missed_step (by rw [hj]; exact ⟨rfl, rfl⟩) ht
    rw [hl] at hm
    exact hm.2
  refine ⟨hnow, ?_⟩
  have hne : t.missStarts ≠ [] := List.ne_nil_of_mem hnow
  obtain ⟨k, hk⟩ := Option.isSome_iff_exists.mp (hrt.inv.active j (by simp [hl]))
  have hstale : k.stale t.clock g = true ↔
      t.stores.length = g ∧ ∀ start ∈ t.missStarts, start + minRefreshInterval ≤ t.clock :=
    (hrt.inv.cached k hk).stale_iff_starts hrt.throttled.apart hne
  have hlook : u.calls j = .looking h'' ↔ ¬ k.stale t.clock g = true := by
    rw [step, hl, hg] at hu
    cases hs : k.stale t.clock g with
    | true =>
      rw [(CallStep.stale hk hs).callStep_eq] at hu
      cases hu
      simp
    | false =>
      rw [(CallStep.fresh hk hs).callStep_eq] at hu
      cases hu
      simp
  rw [hlook, hstale, not_and_or]
  simp only [ne_eq, not_forall, not_le, exists_prop]

def missTogether : List Act :=
  firstLoad ++ [.call 0 (.call rotatedIn), .call 1 (.call rotatedIn), .call 0 .advance, .call 1 .advance]

def aboutToFetch : List Act := [.call 0 .advance, .call 0 .advance]

def brokenOff (d : ℕ) : List Act :=
  [.call 0 .advance, .tick d, .call 0 (.finish false), .call 0 .advance, .call 1 .advance]

theorem missTogether_state : ∃ s₀ s, run step exampleStart missTogether = some s₀ ∧
    s₀.calls 0 = .missed rotatedIn 1 ∧ s₀.calls 1 = .missed rotatedIn 1 ∧ run step s₀ aboutToFetch = some s ∧
    s.clock = 0 ∧ s.calls 0 = .marking rotatedIn 0 ∧ s.calls 1 = .missed rotatedIn 1 := by
  obtain ⟨s₀, hs₀, hx⟩ :=
    Option.map_eq_some_iff.mp (by decide +kernel : (run step exampleStart missTogether).map
    (fun s ↦ (s.calls 0, s.calls 1)) = some (.missed rotatedIn 1, .missed rotatedIn 1))
  obtain ⟨s, hs, hy⟩ := Option.map_eq_some_iff.mp (by decide +kernel :
    (run step exampleStart (missTogether ++ aboutToFetch)).map (fun s ↦ (s.clock, s.calls 0, s.calls 1)) =
      some (0, .marking rotatedIn 0, .missed rotatedIn 1))
  obtain ⟨s₀', hs₀', hs⟩ := run_append_eq_some hs
  cases hs₀.symm.trans hs₀'
  simp only [Prod.mk.injEq] at hx hy
  exact ⟨s₀, s, hs₀, hx.1, hx.2, hs, hy⟩

/-- The fetch breaks off after one second: the second call makes none of its own. -/
theorem waiting_call_shares_broken_fetch :
    ∃ s t u, run step exampleStart (missTogether ++ aboutToFetch) = some s ∧
      run step s (.call 0 .advance :: brokenOff (10 ^ 9)) = some t ∧ step t (.call 1 .advance) = some u ∧
      u.calls 1 = .looking rotatedIn := by
  obtain ⟨s₀, s, hs₀, _, _, hs, hc, h0, h1⟩ := missTogether_state
  have hs := run_trans hs₀ hs
  obtain ⟨t, ht, hx⟩ := Option.map_eq_some_iff.mp (by decide +kernel : (run step exampleStart
    ((missTogether ++ aboutToFetch) ++ .call 0 .advance :: brokenOff (10 ^ 9))).map
      (fun t ↦ (t.clock, t.missStarts, t.calls 1, (step t (.call 1 .advance)).isSome)) =
        some (second, [0], .locked rotatedIn 1, true))
  simp only [Prod.mk.injEq] at hx
  obtain ⟨hclock, hstarts, hl, hu⟩ := hx
  obtain ⟨s', hs', ht'⟩ := run_append_eq_some ht
  cases hs.symm.trans hs'
  obtain ⟨u, hu⟩ := Option.isSome_iff_exists.mp hu
  refine ⟨s, t, u, hs, ht', hu, ?_⟩
  apply (waiting_call_shares_iff rotationJose s t u ⟨_, _, _, hs⟩ 0 1 rotatedIn rotatedIn 0 1 h0 h1 _ ht'
    rotatedIn 1 hl hu).2.mpr
  right
  refine ⟨0, ?_, ?_⟩
  · rw [hstarts]
    exact List.mem_cons_self
  · rw [hclock]
    decide

/-- The fetch times out after its ten seconds: the second call begins another at once. -/
theorem waiting_call_fetches_after_timeout :
    ¬ ∀ (jose : Jose) (s₀ s t u : State jose), Reachable s₀ →
      ∀ (i j : CallId) (h h' : Header) (now : Time) (g : ℕ), s₀.calls i = .missed h g →
        s₀.calls j = .missed h' g → ∀ as : List Act, run step s₀ as = some s →
      s.calls i = .marking h now → s.calls j = .missed h' g → ∀ bs : List Act,
      run step s (.call i .advance :: bs) = some t → t.clock ≤ s.clock + fetchTimeout →
      t.calls j = .locked h' g → step t (.call j .advance) = some u →
      ¬ ∃ now', u.calls j = .marking h' now' := by
  intro hall
  obtain ⟨s₀, s, hs₀, h0', h1', hs, hc, h0, h1⟩ := missTogether_state
  obtain ⟨t, ht, hx⟩ := Option.map_eq_some_iff.mp (by decide +kernel : (run step exampleStart
    ((missTogether ++ aboutToFetch) ++ .call 0 .advance :: brokenOff (10 * 10 ^ 9))).map
      (fun t ↦ (t.clock, t.calls 1, (step t (.call 1 .advance)).map (fun u ↦ u.calls 1))) =
        some (10 * second, .locked rotatedIn 1, some (.marking rotatedIn (10 * second))))
  simp only [Prod.mk.injEq] at hx
  obtain ⟨hclock, hl, hu⟩ := hx
  obtain ⟨s', hs', ht'⟩ := run_append_eq_some ht
  cases (run_trans hs₀ hs).symm.trans hs'
  obtain ⟨u, hu, hm⟩ := Option.map_eq_some_iff.mp hu
  have htime : t.clock ≤ s.clock + fetchTimeout := by
    rw [hclock, hc]
    decide
  exact hall rotationJose s₀ s t u ⟨_, _, _, hs₀⟩ 0 1 rotatedIn rotatedIn 0 1 h0' h1' _ hs h0 h1
    _ ht' htime hl hu
    ⟨_, hm⟩

end OtlpCollectorOidc.Auth

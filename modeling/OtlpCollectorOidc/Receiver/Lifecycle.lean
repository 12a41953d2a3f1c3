import OtlpCollectorOidc.Receiver.Factory

namespace OtlpCollectorOidc.Receiver

open Text Transition
open Upstream (Signal)

section Registry

variable {κ χ : Type}

theorem ReceiverStep.config {r r' : SharedReceiver κ χ} {a : ReceiverAct χ} (h : ReceiverStep r a r') :
    r'.config = r.config := by
  cases h <;> rfl

theorem ReceiverStep.released {r r' : SharedReceiver κ χ} {a : ReceiverAct χ} (h : ReceiverStep r a r')
    (ha : a ≠ .release) : r'.released = r.released := by
  cases h with
  | release => exact absurd rfl ha
  | register | startAgain | shutdownAgain | start | server | serverFailed | listener | listenerFailed
  | assign | serve
  | serveReturns => rfl
  | shutdown h | close h | closeNone h | stopGRPC h | wait h | stopMetrics h | finish h =>
    simp [SharedReceiver.released, h]

theorem ReceiverStep.release_inv {r r' : SharedReceiver κ χ} (h : ReceiverStep r .release r') :
    r.released = false ∧ r'.released = true := by
  cases h with
  | release h => simp [SharedReceiver.released, h]

variable [DecidableEq κ]

/-- The registry holds the receivers that are not released, each under its configuration. -/
def Factory.Registered (f : Factory κ χ) : Prop :=
  ∀ cfg h, f.receivers cfg = some h ↔ ∃ r, f.shared[h]? = some r ∧ r.config = cfg ∧ r.released = false

omit [DecidableEq κ] in
theorem Factory.registered_initial : ({} : Factory κ χ).Registered := by
  intro cfg h
  simp

theorem Factory.Registered.step {f f' : Factory κ χ} {b : Factory.Act κ χ} (hf : f.Registered)
    (hstep : f.Step b f') :
    f'.Registered := by
  intro cfg h
  cases hstep with
  | found | unbuilt => exact hf cfg h
  | @built cfg' w hnone =>
    have hfresh : ∀ r, f.shared[h]? = some r → r.config = cfg' → r.released ≠ false := by
      intro r hr hc hrel
      have hsome := (hf cfg' h).mpr ⟨r, hr, hc, hrel⟩
      rw [hnone] at hsome
      cases hsome
    rw [Factory.shared_add, Factory.receivers_add]
    by_cases hc : cfg = cfg' <;> by_cases hh : h = f.shared.length
    · simp [hc, hh, SharedReceiver.released]
    · simp only [if_pos hc, if_neg hh, Option.some.injEq]
      refine iff_of_false (fun h' ↦ hh h'.symm) ?_
      rintro ⟨r, hr, hcr, hrel⟩
      exact hfresh r hr (hcr.trans hc) hrel
    · simp only [if_neg hc, if_pos hh, hf cfg h, Option.some.injEq]
      refine iff_of_false ?_ ?_
      · rintro ⟨r, hr, -⟩
        rw [hh, List.getElem?_eq_none le_rfl] at hr
        cases hr
      · rintro ⟨r, rfl, hcr, -⟩
        exact hc hcr.symm
    · simp only [if_neg hc, if_neg hh]
      exact hf cfg h
  | @released g r r' hg hr =>
    obtain ⟨hbefore, hafter⟩ := hr.release_inv
    have hheld := (hf r.config g).mpr ⟨r, hg, rfl, hbefore⟩
    rw [Factory.shared_release, Factory.shared_put hg, Factory.receivers_release]
    split_ifs with hc hgh hgh
    · refine iff_of_false nofun ?_
      rintro ⟨q, hq, -, hrel⟩
      cases hq
      rw [hafter] at hrel
      cases hrel
    · refine iff_of_false nofun ?_
      rintro ⟨q, hq, hcq, hrel⟩
      have hother := (hf cfg h).mpr ⟨q, hq, hcq, hrel⟩
      rw [hc, hheld] at hother
      exact hgh (Option.some.inj hother)
    · refine iff_of_false ?_ ?_
      · intro hcfg
        obtain ⟨q, hq, hcq, -⟩ := (hf cfg h).mp hcfg
        rw [← hgh, hg] at hq
        cases hq
        exact hc hcq.symm
      · rintro ⟨q, hq, hcq, -⟩
        cases hq
        exact hc (hcq.symm.trans hr.config)
    · exact hf cfg h
  | @moved g a r r' hg ha hr =>
    rw [Factory.shared_put hg, Factory.put, hf cfg h]
    split_ifs with hgh
    · subst hgh
      simp only [hg, Option.some.injEq, exists_eq_left', hr.config, hr.released ha]
    · rfl

end Registry

section Orderly

variable {κ χ : Type}

/-- The collector calls no `Shutdown` while the first `Start` runs, and no first `Start` after a
`Shutdown`. -/
def SharedReceiver.orderly (r : SharedReceiver κ χ) : ReceiverAct χ → Bool
  | .start => !r.startOnce.isFresh || r.stopOnce.isFresh
  | .shutdown => !r.startOnce.isRunning
  | _ => true

def Factory.orderly (f : Factory κ χ) : Factory.Act κ χ → Bool
  | .load _ _ => true
  | .receiver h a => f.shared[h]?.all (fun r ↦ r.orderly a)

def SharedReceiver.waited (r : SharedReceiver κ χ) : Bool :=
  match r.stopOnce with
  | .running (.stopMetrics _) | .running (.release _) | .running (.finish _) | .done _ => true
  | _ => false

structure SharedReceiver.Sound (r : SharedReceiver κ χ) : Prop where
  listening : r.listening = true → r.serving = true ∨ r.startOnce = .running .assign ∨
    r.startOnce = .running .serve
  serving : r.serving = true → r.startOnce = .done none
  assigned : r.startOnce = .running .serve ∨ r.startOnce = .done none → r.httpServer = true
  apart : r.stopOnce ≠ .fresh → r.startOnce.isRunning = false
  closing : r.stopOnce ≠ .fresh → r.stopOnce ≠ .running .close → r.serving = true → r.inShutdown = true
  waited : r.waited = true → r.serving = false

theorem SharedReceiver.sound_new (cfg : κ) : ({ config := cfg } : SharedReceiver κ χ).Sound :=
  ⟨nofun, nofun, nofun, fun _ ↦ rfl, nofun, fun _ ↦ rfl⟩

theorem SharedReceiver.Sound.step {r r' : SharedReceiver κ χ} {a : ReceiverAct χ} (hr : r.Sound)
    (horderly : r.orderly a = true) (h : ReceiverStep r a r') : r'.Sound := by
  obtain ⟨hlistening, hserving, hassigned, hapart, hclosing, hwaited⟩ := hr
  cases h with
  | register | startAgain | shutdownAgain =>
    exact ⟨hlistening, hserving, hassigned, hapart, hclosing, hwaited⟩
  -- Start runs while Shutdown has not been called, so only the first three fields say anything.
  | start h =>
    rw [SharedReceiver.orderly, h] at horderly
    have hstop : r.stopOnce = .fresh := Once.isFresh_iff.mp horderly
    constructor <;> simp_all
  | server h | serverFailed h | listener h | listenerFailed h | assign h | serve h =>
    have hstop : r.stopOnce = .fresh := by
      by_contra hne
      simpa [h] using hapart hne
    constructor <;> simp_all [SharedReceiver.waited]
  | shutdown h =>
    have hstart : r.startOnce.isRunning = false := by simpa [SharedReceiver.orderly] using horderly
    constructor <;> simp_all [SharedReceiver.waited]
  | close h hserver | closeNone h hserver =>
    constructor <;> simp_all [SharedReceiver.waited]
  | stopGRPC h | wait h | stopMetrics h | release h | finish h =>
    constructor <;> simp_all [SharedReceiver.waited]
  | serveReturns h =>
    constructor <;> simp_all

theorem SharedReceiver.waited_of_released {r : SharedReceiver κ χ} (h : r.released = true) :
    r.waited = true := by
  unfold SharedReceiver.released at h
  split at h
  · simp_all [SharedReceiver.waited]
  · simp_all [SharedReceiver.waited]
  · cases h

theorem SharedReceiver.Sound.closed {r : SharedReceiver κ χ} (hr : r.Sound) (h : r.waited = true) :
    r.listening = false := by
  have hstop : r.stopOnce ≠ .fresh := by
    intro hfresh
    simp [SharedReceiver.waited, hfresh] at h
  apply Bool.eq_false_iff.mpr
  intro hl
  rcases hr.listening hl with hs | hs | hs
  · rw [hr.waited h] at hs
    cases hs
  · simpa [hs] using hr.apart hstop
  · simpa [hs] using hr.apart hstop

/-- The function under `stopOnce` can come to its end in so many steps, `Serve` returning because of it. -/
def SharedReceiver.Completes (r : SharedReceiver κ χ) (n : ℕ) : Prop :=
  ∃ as r' err, as.length ≤ n ∧ run SharedReceiver.step r as = some r' ∧ r'.stopOnce = .done err ∧
    r'.fatal = r.fatal

section Completes

variable {r r' : SharedReceiver κ χ}

theorem SharedReceiver.Completes.cons {n : ℕ} {a : ReceiverAct χ} (h : r.step a = some r')
    (hf : r'.fatal = r.fatal) (hr : r'.Completes n) : r.Completes (n + 1) := by
  obtain ⟨as, u, err, hlen, hrun, hdone, hfatal⟩ := hr
  refine ⟨a :: as, u, err, Nat.succ_le_succ hlen, ?_, hdone, hfatal.trans hf⟩
  rw [run, h]
  exact hrun

theorem SharedReceiver.Completes.mono {m n : ℕ} (hr : r.Completes m) (h : m ≤ n) : r.Completes n := by
  obtain ⟨as, u, err, hlen, hrest⟩ := hr
  exact ⟨as, u, err, hlen.trans h, hrest⟩

variable {err : Option Bytes}

theorem SharedReceiver.completes_finish (h : r.stopOnce = .running (.finish err)) : r.Completes 1 := by
  refine ⟨[.finish], { r with stopOnce := .done err }, err, le_rfl, ?_, rfl, rfl⟩
  simp [run, SharedReceiver.step, h]

theorem SharedReceiver.completes_release (h : r.stopOnce = .running (.release err)) : r.Completes 2 := by
  have hstep : r.step .release = some { r with stopOnce := .running (.finish err) } := by
    simp [SharedReceiver.step, h]
  exact .cons hstep rfl (completes_finish rfl)

theorem SharedReceiver.completes_stopMetrics (h : r.stopOnce = .running (.stopMetrics err)) :
    r.Completes 3 := by
  have hstep : r.step .stopMetrics = some { r with stopOnce := .running (.release err) } := by
    simp [SharedReceiver.step, h]
  exact .cons hstep rfl (completes_release rfl)

theorem SharedReceiver.completes_waited (h : r.stopOnce = .running (.wait err)) (hs : r.serving = false) :
    r.Completes 4 := by
  have hstep : r.step .wait = some { r with stopOnce := .running (.stopMetrics err) } := by
    simp [SharedReceiver.step, h, hs]
  exact .cons hstep rfl (completes_stopMetrics rfl)

theorem SharedReceiver.completes_wait (h : r.stopOnce = .running (.wait err))
    (hc : r.serving = true → r.inShutdown = true) : r.Completes 5 := by
  cases hs : r.serving with
  | false => exact (completes_waited h hs).mono (by omega)
  | true =>
    have hstep : r.step (.serveReturns []) = some { r with serving := false, listening := false } := by
      simp [SharedReceiver.step, hs, hc hs]
    exact .cons hstep rfl (completes_waited h rfl)

theorem SharedReceiver.completes_stopGRPC (h : r.stopOnce = .running (.stopGRPC err))
    (hc : r.serving = true → r.inShutdown = true) : r.Completes 6 := by
  have hstep : r.step .stopGRPC = some { r with stopOnce := .running (.wait err) } := by
    simp [SharedReceiver.step, h]
  exact .cons hstep rfl (completes_wait rfl hc)

theorem SharedReceiver.Sound.completes (hr : r.Sound) (h : r.stopOnce.isRunning = true) : r.Completes 7 := by
  cases hstop : r.stopOnce with
  | fresh => simp [hstop] at h
  | done => simp [hstop] at h
  | running stage =>
    have hclosing (hne : stage ≠ .close) : r.serving = true → r.inShutdown = true :=
      hr.closing (by simp [hstop]) (by simp [hstop, hne])
    cases stage with
    | close =>
      cases hserver : r.httpServer with
      | true =>
        have hstep : r.step (.close none) =
            some { r with stopOnce := .running (.stopGRPC none), inShutdown := true } := by
          simp [SharedReceiver.step, hstop, hserver]
        exact .cons hstep rfl (completes_stopGRPC rfl (fun _ ↦ rfl))
      | false =>
        have hstep : r.step (.close none) = some { r with stopOnce := .running (.stopGRPC none) } := by
          simp [SharedReceiver.step, hstop, hserver]
        refine .cons hstep rfl (completes_stopGRPC rfl ?_)
        intro hs
        rw [hr.assigned (Or.inr (hr.serving hs))] at hserver
        cases hserver
    | stopGRPC err => exact (completes_stopGRPC hstop (hclosing nofun)).mono (by omega)
    | wait err => exact (completes_wait hstop (hclosing nofun)).mono (by omega)
    | stopMetrics err => exact (completes_stopMetrics hstop).mono (by omega)
    | release err => exact (completes_release hstop).mono (by omega)
    | finish err => exact (completes_finish hstop).mono (by omega)

end Completes

end Orderly

section Runs

variable {κ χ : Type} [DecidableEq κ] {f : Factory κ χ} {as : List (Factory.Act κ χ)}

theorem Factory.registered_run (hr : run Factory.step {} as = some f) : f.Registered :=
  invariant_run (fun _ _ _ hf ht ↦ hf.step (Factory.step_inv ht)) Factory.registered_initial hr

/-- The actions lead to the factory's state, each of them in the collector's order. -/
structure Factory.OrderlyRun (as : List (Factory.Act κ χ)) (f : Factory κ χ) : Prop where
  orderly : Along Factory.step (fun f b ↦ f.orderly b = true) {} as
  ends : run Factory.step {} as = some f

theorem Factory.OrderlyRun.sound (hr : OrderlyRun as f) (h : ℕ) {r : SharedReceiver κ χ}
    (hh : f.shared[h]? = some r) :
    r.Sound := by
  have hall : ∀ (h : ℕ) (r : SharedReceiver κ χ), f.shared[h]? = some r → r.Sound := by
    refine invariant_along (P := fun f : Factory κ χ ↦ ∀ (h : ℕ) r, f.shared[h]? = some r →
      r.Sound) ?_ (by simp)
      hr.orderly hr.ends
    intro f b f' hf hb ht h r hh
    rcases (Factory.step_inv ht).at_place h with hsame | ⟨a, q, q', rfl, hq, hq', hmove⟩ | ⟨cfg, -, hnew⟩
    · exact hf h r (hsame ▸ hh)
    · cases hq'.symm.trans hh
      refine (hf h q hq).step ?_ hmove
      simpa [Factory.orderly, hq] using hb
    · cases hnew.symm.trans hh
      exact SharedReceiver.sound_new cfg
  exact hall h r hh

/-- A receiver's own run is one of the factory. -/
theorem Factory.run_receiver {h : ℕ} {r r' : SharedReceiver κ χ} {acts : List (ReceiverAct χ)}
    (hr : f.shared[h]? = some r) (hrun : run SharedReceiver.step r acts = some r') :
    ∃ u, run Factory.step f (acts.map (.receiver h)) = some u ∧ u.shared[h]? = some r' := by
  induction acts generalizing f r with
  | nil =>
    cases hrun
    exact ⟨f, rfl, hr⟩
  | cons a acts ih =>
    obtain ⟨q, hq, hrest⟩ := run_cons hrun
    have hstep : ∃ f', f.step (.receiver h a) = some f' ∧ f'.shared[h]? = some q := by
      cases a with
      | release =>
        exact ⟨(f.put h q).release r.config, by simp [Factory.step, hr, hq],
          by simp [shared_release, shared_put hr]⟩
      | _ => exact ⟨f.put h q, by simp [Factory.step, hr, hq], by simp [shared_put hr]⟩
    obtain ⟨f', hf', hq'⟩ := hstep
    obtain ⟨u, hu, hu'⟩ := ih hq' hrest
    exact ⟨u, by rw [List.map_cons, run, hf']; exact hu, hu'⟩

theorem Factory.load_of_unreleased (hf : f.Registered) {h : ℕ} {r : SharedReceiver κ χ}
    (hr : f.shared[h]? = some r) (hrel : r.released = false) (w : Wiring) :
    f.load r.config w = (.ok h, f) := by
  have hheld := (hf r.config h).mpr ⟨r, hr, rfl, hrel⟩
  simp [Factory.load, hheld]

/-- Two pipelines share a receiver and both start it. While one shuts it down, the configuration is used
again. -/
def exampleActs : List (Factory.Act ℕ ℕ) :=
  [.load 0 {}, .receiver 0 (.register .traces 1), .load 0 {}, .receiver 0 (.register .logs 2),
    .receiver 0 .start, .receiver 0 (.toServer none), .receiver 0 .start, .receiver 0 (.toListener none),
      .receiver 0 .assign,
    .receiver 0 .serve, .receiver 0 .shutdown, .receiver 0 (.close none), .receiver 0 .shutdown,
      .receiver 0 .stopGRPC,
    .receiver 0 (.serveReturns []), .receiver 0 .wait, .receiver 0 .stopMetrics,
      .receiver 0 .release, .load 0 {},
    .receiver 1 .start, .receiver 0 .start, .receiver 1 (.toServer none), .receiver 1 (.toListener none),
    .receiver 0 .finish]

def exampleFactory : Factory ℕ ℕ := (run Factory.step {} exampleActs).get (by decide)

theorem exampleActs_orderly : Factory.OrderlyRun exampleActs exampleFactory :=
  ⟨by decide, (Option.some_get _).symm⟩

/-- However the pipelines' calls interleave, one configuration never has two listeners open, and a
pipeline that names it gets the receiver that is not yet released. -/
theorem one_listener_per_config (hr : Factory.OrderlyRun as f) :
    (∀ (h h' : ℕ) (r r' : SharedReceiver κ χ), f.shared[h]? = some r → f.shared[h']? = some r' →
      r.config = r'.config → r.listening = true → r'.listening = true → h = h') ∧
    ∀ (h : ℕ) (r : SharedReceiver κ χ) w, f.shared[h]? = some r → r.released = false →
      f.load r.config w = (.ok h, f) := by
  have hregistered := Factory.registered_run hr.ends
  have hheld : ∀ (h : ℕ) (r : SharedReceiver κ χ), f.shared[h]? = some r → r.listening = true →
      f.receivers r.config = some h := by
    intro h r hh hl
    refine (hregistered r.config h).mpr ⟨r, hh, rfl, ?_⟩
    by_contra hrel
    have hclosed :=
      (hr.sound h hh).closed (SharedReceiver.waited_of_released (Bool.eq_true_of_not_eq_false hrel))
    rw [hl] at hclosed
    cases hclosed
  refine ⟨?_, fun h r w hh hrel ↦ Factory.load_of_unreleased hregistered hh hrel w⟩
  intro h h' r r' hh hh' hc hl hl'
  have heq := hheld h r hh hl
  rw [hc, hheld h' r' hh' hl'] at heq
  exact (Option.some.inj heq).symm

theorem reused_config_shares_new_listener : exampleFactory.shared[1]?.map (·.listening) = some true ∧
    exampleFactory.load 0 {} = (.ok 1, exampleFactory) :=
  ⟨rfl, (one_listener_per_config exampleActs_orderly).2 1 _ {} rfl rfl⟩

/-- Once a `Shutdown` has returned, the receiver listens and serves no more and is out of the registry;
one that runs can always come to its end without the listener having to fail. -/
theorem shutdown_leaves_nothing (hr : Factory.OrderlyRun as f) {h : ℕ} {r : SharedReceiver κ χ}
    (hh : f.shared[h]? = some r) :
    (∀ err, r.stopOnce = .done err → r.listening = false ∧ r.serving = false ∧
      ∀ cfg, f.receivers cfg ≠ some h) ∧
    (r.stopOnce.isRunning = true →
      ∃ (acts : List (ReceiverAct χ)) (u : Factory κ χ) (r' : SharedReceiver κ χ) (err : _), acts.length ≤ 7 ∧
        run Factory.step f (acts.map (.receiver h)) = some u ∧ u.shared[h]? = some r' ∧
        r'.stopOnce = .done err ∧ r'.fatal = r.fatal) := by
  have hsound := hr.sound h hh
  constructor
  · intro err hdone
    have hrel : r.released = true := by simp [SharedReceiver.released, hdone]
    have hwaited := SharedReceiver.waited_of_released hrel
    refine ⟨hsound.closed hwaited, hsound.waited hwaited, ?_⟩
    intro cfg hheld
    obtain ⟨q, hq, -, hq'⟩ := (Factory.registered_run hr.ends cfg h).mp hheld
    cases hh.symm.trans hq
    rw [hrel] at hq'
    cases hq'
  · intro hrunning
    obtain ⟨acts, r', err, hlen, hrun, hdone, hfatal⟩ := hsound.completes hrunning
    obtain ⟨u, hu, hu'⟩ := Factory.run_receiver hh hrun
    exact ⟨acts, u, r', err, hlen, hu, hu', hdone, hfatal⟩

theorem first_receiver_left_nothing : exampleFactory.shared.length = 2 ∧
    ∃ r, exampleFactory.shared[0]? = some r ∧ r.listening = false ∧ exampleFactory.receivers 0 ≠ some 0 := by
  obtain ⟨hlistening, -, hheld⟩ := (shutdown_leaves_nothing (h := 0) exampleActs_orderly rfl).1 none rfl
  exact ⟨rfl, _, rfl, hlistening, hheld 0⟩

end Runs

section Once

variable {κ χ : Type}

theorem ReceiverStep.start_moves {r r' : SharedReceiver κ χ} {a : ReceiverAct χ} (h : ReceiverStep r a r') :
    Once.Moves StartStage.number r.startOnce r'.startOnce := by
  cases h with
  | start h => exact h ▸ .begins _
  | server h | listener h | assign h => exact h ▸ .advances (by decide)
  | serverFailed h | listenerFailed h | serve h => exact h ▸ .ends _ _
  | _ => exact .stay _

theorem ReceiverStep.stop_moves {r r' : SharedReceiver κ χ} {a : ReceiverAct χ} (h : ReceiverStep r a r') :
    Once.Moves StopStage.number r.stopOnce r'.stopOnce := by
  cases h with
  | shutdown h => exact h ▸ .begins _
  | close h | closeNone h | stopGRPC h | wait h | stopMetrics h | release h =>
    exact h ▸ .advances (by simp [StopStage.number])
  | finish h => exact h ▸ .ends _ _
  | _ => exact .stay _

/-- The once of the receiver at a place, not begun before the receiver is there. -/
def Factory.view {σ ρ : Type} (once : SharedReceiver κ χ → Once σ ρ) (h : ℕ) (f : Factory κ χ) : Once σ ρ :=
  (f.shared[h]?.map once).getD .fresh

variable [DecidableEq κ]

theorem Factory.view_moves {σ ρ : Type} {number : σ → ℕ} {once : SharedReceiver κ χ → Once σ ρ}
    (hnew : ∀ cfg, once { config := cfg } = .fresh)
    (hmoves : ∀ {r r' a}, ReceiverStep r a r' → Once.Moves number (once r) (once r')) (h : ℕ)
    (f : Factory κ χ) (b : Factory.Act κ χ) (f' : Factory κ χ) (hstep : f.step b = some f') :
    Once.Moves number (f.view once h) (f'.view once h) := by
  rcases (Factory.step_inv hstep).at_place h with hsame | ⟨a, r, r', rfl, hr, hr', hmove⟩ | ⟨cfg, hnone, hcfg⟩
  · rw [Factory.view, Factory.view, hsame]
    exact .stay _
  · rw [Factory.view, Factory.view, hr, hr']
    exact hmoves hmove
  · rw [Factory.view, Factory.view, hnone, hcfg]
    exact (hnew cfg).symm ▸ .stay _

theorem Factory.view_start_moves (h : ℕ) (f : Factory κ χ) (b : Factory.Act κ χ) (f' : Factory κ χ)
    (hstep : f.step b = some f') :
    Once.Moves StartStage.number (f.view SharedReceiver.startOnce h) (f'.view SharedReceiver.startOnce h) :=
  Factory.view_moves (fun _ ↦ rfl) ReceiverStep.start_moves h f b f' hstep

theorem Factory.view_stop_moves (h : ℕ) (f : Factory κ χ) (b : Factory.Act κ χ) (f' : Factory κ χ)
    (hstep : f.step b = some f') :
    Once.Moves StopStage.number (f.view SharedReceiver.stopOnce h) (f'.view SharedReceiver.stopOnce h) :=
  Factory.view_moves (fun _ ↦ rfl) ReceiverStep.stop_moves h f b f' hstep

/-- What a receiver does to the world outside it. -/
inductive Milestone where
  | opens
  | serves
  | closes
  | stopsGRPC
  | stopsMetrics
  | releases

def Milestone.reachedBy : Milestone → ReceiverAct χ → Bool
  | opens, .toListener none => true
  | serves, .serve => true
  | closes, .close _ => true
  | stopsGRPC, .stopGRPC => true
  | stopsMetrics, .stopMetrics => true
  | releases, .release => true
  | _, _ => false

def Factory.Act.brings (h : ℕ) (m : Milestone) : Factory.Act κ χ → Bool
  | .receiver g a => g = h && m.reachedBy a
  | .load _ _ => false

theorem Factory.step_receiver {f f' : Factory κ χ} {h : ℕ} {a : ReceiverAct χ}
    (hstep : f.step (.receiver h a) = some f') :
    ∃ r r', f.shared[h]? = some r ∧ f'.shared[h]? = some r' ∧ ReceiverStep r a r' := by
  cases Factory.step_inv hstep with
  | @released _ r r' hr hmove => exact ⟨r, r', hr, by simp [shared_release, shared_put hr], hmove⟩
  | @moved _ _ r r' hr ha hmove => exact ⟨r, r', hr, by simp [shared_put hr], hmove⟩

/-- A milestone that one stage of a once allows, and that takes the once beyond it, is reached once. -/
theorem Factory.countP_brings_le_one {σ ρ : Type} {number : σ → ℕ} (once : SharedReceiver κ χ → Once σ ρ)
    (hnew : ∀ cfg, once { config := cfg } = .fresh)
    (hmoves : ∀ {r r' a}, ReceiverStep r a r' → Once.Moves number (once r) (once r')) {m : Milestone} (n : ℕ∞)
    (hm : ∀ {r r' a}, m.reachedBy a = true → ReceiverStep r a r' →
      (once r).rank number = n ∧ n < (once r').rank number)
    {f u : Factory κ χ} {as : List (Factory.Act κ χ)} (hr : run Factory.step f as = some u) (h : ℕ) :
    as.countP (Factory.Act.brings h m) ≤ 1 := by
  refine countP_le_one (fun f ↦ (f.view once h).rank number) n
    (fun f b f' hstep ↦ (Factory.view_moves hnew hmoves h f b f' hstep).rank_le) ?_ hr
  intro f b f' hb hstep
  cases b with
  | load => cases hb
  | receiver g a =>
    obtain ⟨hg, ha⟩ := Bool.and_eq_true_iff.mp hb
    rw [decide_eq_true_eq] at hg
    subst hg
    obtain ⟨r, r', hr, hr', hmove⟩ := Factory.step_receiver hstep
    rw [Factory.view, Factory.view, hr, hr']
    exact hm ha hmove

/-- So is one that a stage of `Shutdown` allows and ends. -/
theorem Milestone.reached_once_of_stop {m : Milestone} (n : ℕ)
    (hm : ∀ {r r' : SharedReceiver κ χ} {a}, m.reachedBy a = true → ReceiverStep r a r' →
      ∃ s s', r.stopOnce = .running s ∧ r'.stopOnce = .running s' ∧ s.number = n ∧ n < s'.number)
    {f u : Factory κ χ} {as : List (Factory.Act κ χ)} (hr : run Factory.step f as = some u) (h : ℕ) :
    as.countP (Factory.Act.brings h m) ≤ 1 := by
  refine Factory.countP_brings_le_one SharedReceiver.stopOnce (fun _ ↦ rfl) ReceiverStep.stop_moves
    (n + 1 : ℕ) ?_ hr h
  intro r r' a ha hmove
  obtain ⟨s, s', hs, hs', hn, hlt⟩ := hm ha hmove
  rw [hs, hs', Once.rank, Once.rank, hn]
  exact ⟨rfl, Nat.cast_lt.mpr (Nat.succ_lt_succ hlt)⟩

theorem Milestone.reached_once {f u : Factory κ χ} {as : List (Factory.Act κ χ)}
    (hr : run Factory.step f as = some u) (h : ℕ) (m : Milestone) :
    as.countP (Factory.Act.brings h m) ≤ 1 := by
  cases m with
  | opens =>
    refine Factory.countP_brings_le_one SharedReceiver.startOnce (fun _ ↦ rfl) ReceiverStep.start_moves
      (1 + 1 : ℕ) ?_ hr h
    intro r r' a ha hmove
    cases hmove with
    | listener hs => exact ⟨congrArg (Once.rank StartStage.number) hs, Nat.cast_lt.mpr (by decide)⟩
    | _ => cases ha
  | serves =>
    refine Factory.countP_brings_le_one SharedReceiver.startOnce (fun _ ↦ rfl) ReceiverStep.start_moves
      (3 + 1 : ℕ) ?_ hr h
    intro r r' a ha hmove
    cases hmove with
    | serve hs => exact ⟨congrArg (Once.rank StartStage.number) hs, ENat.natCast_lt_top _⟩
    | _ => cases ha
  | closes =>
    refine Milestone.reached_once_of_stop 0 (fun {r r' a} ha hmove ↦ ?_) hr h
    cases hmove with
    | close hs | closeNone hs => exact ⟨_, _, hs, rfl, rfl, by simp [StopStage.number]⟩
    | _ => cases ha
  | stopsGRPC =>
    refine Milestone.reached_once_of_stop 1 (fun {r r' a} ha hmove ↦ ?_) hr h
    cases hmove with
    | stopGRPC hs => exact ⟨_, _, hs, rfl, rfl, by simp [StopStage.number]⟩
    | _ => cases ha
  | stopsMetrics =>
    refine Milestone.reached_once_of_stop 3 (fun {r r' a} ha hmove ↦ ?_) hr h
    cases hmove with
    | stopMetrics hs => exact ⟨_, _, hs, rfl, rfl, by simp [StopStage.number]⟩
    | _ => cases ha
  | releases =>
    refine Milestone.reached_once_of_stop 4 (fun {r r' a} ha hmove ↦ ?_) hr h
    cases hmove with
    | release hs => exact ⟨_, _, hs, rfl, rfl, by simp [StopStage.number]⟩
    | _ => cases ha

/-- However many pipelines start and stop it, a receiver opens its listener, serves on it, closes its
server, stops its gRPC server and its metrics and leaves the registry once at most, and every call of
`Start` or of `Shutdown` returns the same. -/
theorem started_and_stopped_once {f : Factory κ χ} {as : List (Factory.Act κ χ)}
    (hr : run Factory.step {} as = some f) (h : ℕ) :
    (∀ m, as.countP (Factory.Act.brings h m) ≤ 1) ∧
    ∀ bs u (r r' : SharedReceiver κ χ), run Factory.step f bs = some u → f.shared[h]? = some r →
      u.shared[h]? = some r' → (∀ err, r.startOnce = .done err → r'.startOnce = .done err) ∧
      ∀ err, r.stopOnce = .done err → r'.stopOnce = .done err := by
  refine ⟨Milestone.reached_once hr h, ?_⟩
  intro bs u r r' hbs hh hh'
  have hview {σ ρ : Type} (once : SharedReceiver κ χ → Once σ ρ) :
      f.view once h = once r ∧ u.view once h = once r' := by
    simp [Factory.view, hh, hh']
  refine ⟨fun err hdone ↦ ?_, fun err hdone ↦ ?_⟩
  · obtain ⟨hbefore, hafter⟩ := hview SharedReceiver.startOnce
    exact hafter ▸ Once.done_run (Factory.view_start_moves h) (hbefore.trans hdone) hbs
  · obtain ⟨hbefore, hafter⟩ := hview SharedReceiver.stopOnce
    exact hafter ▸ Once.done_run (Factory.view_stop_moves h) (hbefore.trans hdone) hbs

theorem each_receiver_opened_once : exampleActs.countP (Factory.Act.brings 0 .opens) ≤ 1 ∧
    exampleActs.countP (Factory.Act.brings 1 .opens) = 1 :=
  ⟨(started_and_stopped_once exampleActs_orderly.ends 0).1 .opens, by decide⟩

end Once

section Routes

variable {κ χ : Type}

/-- The listener's routes and collaborators, each consumer as the handlers of its signal. -/
def SharedReceiver.port (r : SharedReceiver κ χ) (lib : Codecs) (g : GRPCServer) (exporter : χ → Exporter) :
    SinglePort where
  lib := lib
  grpcServer := g
  registered sig := (r.routes sig).map exporter

theorem ReceiverStep.routes {r r' : SharedReceiver κ χ} {a : ReceiverAct χ} (h : ReceiverStep r a r')
    {sig : Signal} {x : χ} (hx : r.routes sig = some x) : r'.routes sig = some x := by
  cases h with
  | @register sig' next hnone =>
    have hne : sig ≠ sig' := by
      rintro rfl
      rw [hnone] at hx
      cases hx
    simpa [Function.update_of_ne hne] using hx
  | _ => exact hx

variable [DecidableEq κ]

/-- A signal's requests go to the pipeline that registered it, for as long as the receiver is there. -/
theorem Factory.registered_for_good {f u : Factory κ χ} {bs : List (Factory.Act κ χ)} {h : ℕ}
    {r : SharedReceiver κ χ} {sig : Signal} {x : χ} (hr : run Factory.step f bs = some u)
    (hh : f.shared[h]? = some r) (hx : r.routes sig = some x) :
    ∃ r', u.shared[h]? = some r' ∧
      ∀ lib g exporter, (r'.port lib g exporter).registered sig = some (exporter x) := by
  have hkept : ∃ r', u.shared[h]? = some r' ∧ r'.routes sig = some x := by
    refine invariant_run (P := fun f ↦ ∃ r', f.shared[h]? = some r' ∧
      r'.routes sig = some x) ?_ ⟨r, hh, hx⟩ hr
    rintro f b f' ⟨q, hq, hqx⟩ hstep
    rcases (Factory.step_inv hstep).at_place h with hsame |
      ⟨a, q₀, q', rfl, hq₀, hq', hmove⟩ | ⟨cfg, hnone, -⟩
    · exact ⟨q, hsame.trans hq, hqx⟩
    · cases hq₀.symm.trans hq
      exact ⟨q', hq', hmove.routes hqx⟩
    · rw [hnone] at hq
      cases hq
  obtain ⟨r', hr', hx'⟩ := hkept
  exact ⟨r', hr', fun lib g exporter ↦ by simp [SharedReceiver.port, hx']⟩

end Routes

end OtlpCollectorOidc.Receiver

import Mathlib.Algebra.BigOperators.Group.List.Basic
import Mathlib.Data.List.Chain
import OtlpCollectorOidc.Auth.Rejection

namespace OtlpCollectorOidc.Auth

open Text Number

structure Refusal where
  now : Time
  reason : Reason
  error : Bytes

namespace Rejections

def recordAll (r : Rejections) (calls : List Refusal) : Rejections :=
  calls.foldl (fun r c ↦ r.record c.now c.reason c.error) r

/-- The calls that warn, each with the suppressed count its warning carries. -/
def admitted (r : Rejections) : List Refusal → List (Refusal × ℕ)
  | [] => []
  | c :: cs =>
    ((r.admits c.now c.reason).2.map (fun n ↦ (c, n))).toList ++ admitted (r.record c.now c.reason c.error) cs

/-- The refusals of a reason that no warning has told of yet. -/
def pending (r : Rejections) (why : Reason) : ℕ := ((r.windows why).map LogWindow.suppressed).getD 0

def warningsOf (r : Rejections) (why : Reason) : List Warning := r.warnings.filter (fun w ↦ w.reason = why)

def admittedOf (r : Rejections) (why : Reason) (calls : List Refusal) : List (Refusal × ℕ) :=
  (r.admitted calls).filter (fun p ↦ p.1.reason = why)

end Rejections

def callsOf (why : Reason) (calls : List Refusal) : List Refusal := calls.filter (fun c ↦ c.reason = why)

/-- One reason on its own: its window, and its warnings with the calls they are about. -/
structure WarningLog where
  window : Option LogWindow := none
  warned : List (Refusal × ℕ) := []

namespace WarningLog

def call (interval : Duration) (l : WarningLog) (c : Refusal) : WarningLog :=
  match l.window with
  | none => { window := some { logged := c.now }, warned := l.warned ++ [(c, 0)] }
  | some w =>
    if sub c.now w.logged < interval then { l with window := some { w with suppressed := w.suppressed + 1 } }
    else { window := some { logged := c.now }, warned := l.warned ++ [(c, w.suppressed)] }

def pending (l : WarningLog) : ℕ := (l.window.map LogWindow.suppressed).getD 0

/-- A call opens the window, is counted in it, or closes it with a warning. -/
theorem call_cases (interval : Duration) (l : WarningLog) (c : Refusal) :
    (l.window = none ∧ l.call interval c = ⟨some { logged := c.now }, l.warned ++ [(c, 0)]⟩) ∨
    (∃ w, l.window = some w ∧ sub c.now w.logged < interval ∧
      l.call interval c = ⟨some { w with suppressed := w.suppressed + 1 }, l.warned⟩) ∨
    ∃ w, l.window = some w ∧ interval ≤ sub c.now w.logged ∧
      l.call interval c = ⟨some { logged := c.now }, l.warned ++ [(c, w.suppressed)]⟩ := by
  unfold call
  cases hw : l.window with
  | none => exact Or.inl ⟨rfl, rfl⟩
  | some w =>
    right
    dsimp only
    split_ifs with h
    · exact Or.inl ⟨w, rfl, h, rfl⟩
    · exact Or.inr ⟨w, rfl, not_lt.mp h, rfl⟩

structure Inv (interval : Duration) (calls : List Refusal) (l : WarningLog) : Prop where
  conserved : calls.length = l.warned.length + (l.warned.map Prod.snd).sum + l.pending
  first : l.warned.head? = calls.head?.map (fun c ↦ (c, 0))
  last : l.window.map LogWindow.logged = l.warned.getLast?.map (fun p ↦ p.1.now)
  among : (l.warned.map Prod.fst).Sublist calls
  spaced : calls.Pairwise (fun c d ↦ c.now ≤ d.now) →
    l.warned.IsChain (fun p q ↦ p.1.now + interval ≤ q.1.now)

variable {interval : Duration} {calls : List Refusal} {l : WarningLog}

theorem Inv.init : Inv interval [] {} where
  conserved := rfl
  first := rfl
  last := rfl
  among := List.nil_sublist _
  spaced _ := List.IsChain.nil

theorem Inv.calls_eq_nil (h : Inv interval calls l) (hw : l.window = none) : calls = [] ∧ l.warned = [] := by
  have hlast := h.last
  rw [hw, Option.map_none, eq_comm, Option.map_eq_none_iff, List.getLast?_eq_none_iff] at hlast
  have hfirst := h.first
  rw [hlast, List.head?_nil, eq_comm, Option.map_eq_none_iff, List.head?_eq_none_iff] at hfirst
  exact ⟨hfirst, hlast⟩

theorem Inv.suppress (h : Inv interval calls l) (c : Refusal) {w : LogWindow} (hw : l.window = some w) :
    Inv interval (calls ++ [c]) ⟨some { w with suppressed := w.suppressed + 1 }, l.warned⟩ where
  conserved := by
    have hc := h.conserved
    simp only [pending, hw, Option.map_some, Option.getD_some, List.length_append,
      List.length_singleton] at hc ⊢
    omega
  first := by
    have hne : calls ≠ [] := by
      rintro rfl
      have hlast := h.last
      rw [List.head?_eq_none_iff.mp h.first, hw] at hlast
      cases hlast
    rw [h.first, List.head?_append_of_ne_nil _ hne]
  last := by
    have hlast := h.last
    rw [hw] at hlast
    exact hlast
  among := h.among.trans (List.sublist_append_left _ _)
  spaced hm := h.spaced (hm.sublist (List.sublist_append_left _ _))

theorem Inv.warn (h : Inv interval calls l) (c : Refusal) {w : LogWindow} (hw : l.window = some w)
    (hc : interval ≤ sub c.now w.logged) :
    Inv interval (calls ++ [c]) ⟨some { logged := c.now }, l.warned ++ [(c, w.suppressed)]⟩ := by
  have hlast := h.last
  rw [hw, Option.map_some, eq_comm, Option.map_eq_some_iff] at hlast
  obtain ⟨p, hp, hlogged⟩ := hlast
  have hwarned : l.warned ≠ [] := by
    intro hnil
    rw [hnil] at hp
    cases hp
  have hcalls : calls ≠ [] := by
    rintro rfl
    exact hwarned (List.head?_eq_none_iff.mp h.first)
  constructor
  · have hcons := h.conserved
    simp only [pending, hw, Option.map_some, Option.getD_some, List.length_append, List.length_singleton,
      List.map_append, List.map_cons, List.map_nil, List.sum_append, List.sum_cons, List.sum_nil] at hcons ⊢
    omega
  · rw [List.head?_append_of_ne_nil _ hwarned, List.head?_append_of_ne_nil _ hcalls, h.first]
  · simp
  · rw [List.map_append]
    exact h.among.append (List.Sublist.refl _)
  · intro hm
    rw [List.pairwise_append] at hm
    obtain ⟨hm, _, hle⟩ := hm
    refine List.isChain_append.mpr ⟨h.spaced hm, List.isChain_singleton _, ?_⟩
    intro q hq d hd
    rw [Option.mem_def] at hq hd
    cases hp.symm.trans hq
    cases hd
    -- The last warning was about an earlier call, so its reading is not after this one's.
    have hmem : p.1 ∈ calls := h.among.subset (List.mem_map_of_mem (List.mem_of_getLast? hp))
    have hearlier := hle p.1 hmem c List.mem_cons_self
    rw [← hlogged] at hc
    have hapart : interval ≤ c.now - p.1.now := hc.trans (sub_le_sub_of_le hearlier)
    exact le_sub_iff_add_le'.mp hapart

theorem Inv.open (h : Inv interval calls l) (c : Refusal) (hw : l.window = none) :
    Inv interval (calls ++ [c]) ⟨some { logged := c.now }, l.warned ++ [(c, 0)]⟩ := by
  obtain ⟨rfl, hwarned⟩ := h.calls_eq_nil hw
  rw [hwarned]
  exact ⟨rfl, rfl, rfl, List.Sublist.refl _, fun _ ↦ List.isChain_singleton _⟩

theorem Inv.call (h : Inv interval calls l) (c : Refusal) :
    Inv interval (calls ++ [c]) (l.call interval c) := by
  obtain ⟨hw, he⟩ | ⟨w, hw, _, he⟩ | ⟨w, hw, hc, he⟩ := call_cases interval l c
  · rw [he]
    exact h.open c hw
  · rw [he]
    exact h.suppress c hw
  · rw [he]
    exact h.warn c hw hc

theorem Inv.all (calls : List Refusal) : Inv interval calls (calls.foldl (WarningLog.call interval) {}) := by
  induction calls using List.reverseRecOn with
  | nil => exact Inv.init
  | append_singleton calls c ih =>
    rw [List.foldl_append]
    exact ih.call c

end WarningLog

namespace Rejections

variable {r : Rejections} {why : Reason} {calls : List Refusal}

/-- A call changes the window of its own reason alone, as `admit` says. -/
theorem admits_cases (r : Rejections) (now : Time) (why : Reason) :
    (r.windows why = none ∧
      r.admits now why = ({ r with windows := Function.update r.windows why (some { logged := now }) },
        some 0)) ∨
    (∃ w, r.windows why = some w ∧ sub now w.logged < r.interval ∧ r.admits now why =
      ({ r with windows := Function.update r.windows why (some { w with suppressed := w.suppressed + 1 }) },
        none)) ∨
    ∃ w, r.windows why = some w ∧ r.interval ≤ sub now w.logged ∧ r.admits now why =
      ({ r with windows := Function.update r.windows why (some { logged := now }) }, some w.suppressed) := by
  unfold admits
  cases hw : r.windows why with
  | none => exact Or.inl ⟨rfl, rfl⟩
  | some w =>
    right
    dsimp only
    split_ifs with h
    · exact Or.inl ⟨w, rfl, h, rfl⟩
    · exact Or.inr ⟨w, rfl, not_lt.mp h, rfl⟩

/-- What `record` leaves beside its counter: what `admit` leaves, and the warning it allows. -/
theorem record_eq (r : Rejections) (c : Refusal) :
    (r.record c.now c.reason c.error).interval = r.interval ∧
    (r.record c.now c.reason c.error).windows = (r.admits c.now c.reason).1.windows ∧
    (r.record c.now c.reason c.error).warnings =
      r.warnings ++ ((r.admits c.now c.reason).2.map (fun n ↦ ⟨c.reason, c.error, n⟩)).toList := by
  unfold record admits
  dsimp only
  cases r.windows c.reason with
  | none => exact ⟨rfl, rfl, rfl⟩
  | some w =>
    dsimp only
    split_ifs
    · exact ⟨rfl, rfl, (List.append_nil _).symm⟩
    · exact ⟨rfl, rfl, rfl⟩

theorem interval_recordAll (r : Rejections) (calls : List Refusal) :
    (r.recordAll calls).interval = r.interval := by
  induction calls generalizing r with
  | nil => rfl
  | cons c cs ih => exact (ih (r.record c.now c.reason c.error)).trans (r.record_eq c).1

theorem record_window_ne (r : Rejections) {c : Refusal} (h : c.reason ≠ why) :
    (r.record c.now c.reason c.error).windows why = r.windows why := by
  rw [(r.record_eq c).2.1]
  obtain ⟨_, he⟩ | ⟨w, _, _, he⟩ | ⟨w, _, _, he⟩ := r.admits_cases c.now c.reason <;>
    rw [he] <;> exact Function.update_of_ne h.symm _ _

/-- On the window of the call's own reason `record` acts as the reason's log does. -/
theorem call_eq_record (r : Rejections) (c : Refusal) (l : WarningLog) (hl : l.window = r.windows c.reason) :
    l.call r.interval c = ⟨(r.record c.now c.reason c.error).windows c.reason,
      l.warned ++ ((r.admits c.now c.reason).2.map (fun n ↦ (c, n))).toList⟩ := by
  rw [(r.record_eq c).2.1]
  unfold WarningLog.call admits
  rw [hl]
  cases r.windows c.reason with
  | none => simp
  | some w =>
    dsimp only
    split_ifs
    · simp
    · simp

theorem admittedOf_cons_self (r : Rejections) (c : Refusal) (cs : List Refusal) :
    r.admittedOf c.reason (c :: cs) = ((r.admits c.now c.reason).2.map (fun n ↦ (c, n))).toList ++
      (r.record c.now c.reason c.error).admittedOf c.reason cs := by
  rw [admittedOf, admitted, List.filter_append, admittedOf]
  cases (r.admits c.now c.reason).2 <;> simp

theorem admittedOf_cons_ne (r : Rejections) {c : Refusal} (h : c.reason ≠ why) (cs : List Refusal) :
    r.admittedOf why (c :: cs) = (r.record c.now c.reason c.error).admittedOf why cs := by
  rw [admittedOf, admitted, List.filter_append, admittedOf]
  cases (r.admits c.now c.reason).2 <;> simp [h]

/-- The calls of one reason, run on their own, give its window and its warnings. -/
theorem foldl_callsOf (r : Rejections) (why : Reason) (calls : List Refusal) (l : WarningLog)
    (hl : l.window = r.windows why) :
    (callsOf why calls).foldl (WarningLog.call r.interval) l =
      ⟨(r.recordAll calls).windows why, l.warned ++ r.admittedOf why calls⟩ := by
  induction calls generalizing r l with
  | nil =>
    rw [callsOf, List.filter_nil, List.foldl_nil, recordAll, List.foldl_nil, ← hl, admittedOf, admitted,
      List.filter_nil, List.append_nil]
  | cons c cs ih =>
    have hrun : r.recordAll (c :: cs) = (r.record c.now c.reason c.error).recordAll cs := rfl
    have hinterval := (r.record_eq c).1
    by_cases hc : c.reason = why
    · subst hc
      have hcalls : callsOf c.reason (c :: cs) = c :: callsOf c.reason cs := List.filter_cons_of_pos (by simp)
      rw [hcalls, List.foldl_cons, call_eq_record r c l hl, ← hinterval, ih _ _ rfl, hrun,
        admittedOf_cons_self, List.append_assoc]
    · have hcalls : callsOf why (c :: cs) = callsOf why cs := List.filter_cons_of_neg (by simpa using hc)
      rw [hcalls, ← hinterval, ih _ _ (hl.trans (r.record_window_ne hc).symm), hrun, admittedOf_cons_ne r hc]

theorem warnings_recordAll (r : Rejections) (calls : List Refusal) :
    (r.recordAll calls).warnings =
      r.warnings ++ (r.admitted calls).map (fun p ↦ ⟨p.1.reason, p.1.error, p.2⟩) := by
  induction calls generalizing r with
  | nil => exact (List.append_nil _).symm
  | cons c cs ih =>
    have hrun : r.recordAll (c :: cs) = (r.record c.now c.reason c.error).recordAll cs := rfl
    rw [hrun, ih, (r.record_eq c).2.2, admitted, List.map_append, List.append_assoc]
    cases (r.admits c.now c.reason).2 <;> rfl

theorem admitted_concat (r : Rejections) (calls : List Refusal) (c : Refusal) :
    r.admitted (calls ++ [c]) =
      r.admitted calls ++ (((r.recordAll calls).admits c.now c.reason).2.map (fun n ↦ (c, n))).toList := by
  induction calls generalizing r with
  | nil => simp [admitted, recordAll]
  | cons d ds ih =>
    rw [List.cons_append, admitted, ih, admitted, List.append_assoc]
    rfl

theorem warningsOf_recordAll (interval : Duration) (why : Reason) (calls : List Refusal) :
    (recordAll { interval := interval } calls).warningsOf why =
      (admittedOf { interval := interval } why calls).map (fun p ↦ ⟨p.1.reason, p.1.error, p.2⟩) := by
  rw [warningsOf, warnings_recordAll, List.nil_append, List.filter_map, admittedOf]
  rfl

/-- The log of a reason, for the calls of a new `rejections`. -/
theorem inv_recordAll (interval : Duration) (why : Reason) (calls : List Refusal) :
    WarningLog.Inv interval (callsOf why calls)
      ⟨(recordAll { interval := interval } calls).windows why,
        admittedOf { interval := interval } why calls⟩ := by
  have hlog := foldl_callsOf { interval := interval } why calls {} rfl
  rw [List.nil_append] at hlog
  rw [← hlog]
  exact WarningLog.Inv.all (callsOf why calls)

end Rejections

open Rejections in
/-- What the warnings about one reason tell of its refusals. -/
structure RateLimited (interval : Duration) (why : Reason) (calls : List Refusal) : Prop where
  conserved : (callsOf why calls).length =
    ((recordAll { interval := interval } calls).warningsOf why).length +
    (((recordAll { interval := interval } calls).warningsOf why).map Warning.suppressed).sum +
    (recordAll { interval := interval } calls).pending why
  first : ∀ c, (callsOf why calls).head? = some c →
    (admittedOf { interval := interval } why calls).head? = some (c, 0)
  isolated : ∀ calls', callsOf why calls' = callsOf why calls →
    (recordAll { interval := interval } calls').windows why =
      (recordAll { interval := interval } calls).windows why ∧
    admittedOf { interval := interval } why calls' = admittedOf { interval := interval } why calls
  spaced : calls.Pairwise (fun c d ↦ c.now ≤ d.now) →
    (admittedOf { interval := interval } why calls).IsChain (fun p q ↦ p.1.now + interval ≤ q.1.now)
  prompt : ∀ p, (admittedOf { interval := interval } why calls).getLast? = some p →
    ∀ c : Refusal, c.reason = why → p.1.now + interval ≤ c.now →
    ∃ n, admitted { interval := interval } (calls ++ [c]) = admitted { interval := interval } calls ++
      [(c, n)]

open Rejections in
/-- Warnings are rate-limited and lose no count, in every run of `record`. -/
theorem rejection_warnings_rate_limited (interval : Duration) (hi : interval ≤ maxDuration) (why : Reason)
    (calls : List Refusal) : RateLimited interval why calls := by
  have hinv := inv_recordAll interval why calls
  constructor
  · have hconserved := hinv.conserved
    rw [warningsOf_recordAll, List.length_map, List.map_map]
    exact hconserved
  · intro c hc
    rw [hinv.first, hc, Option.map_some]
  · intro calls' hcalls
    have hlog := foldl_callsOf { interval := interval } why calls {} rfl
    have hlog' := foldl_callsOf { interval := interval } why calls' {} rfl
    rw [hcalls, hlog] at hlog'
    exact ⟨(congrArg WarningLog.window hlog').symm, (congrArg WarningLog.warned hlog').symm⟩
  · intro hmono
    exact hinv.spaced (hmono.sublist List.filter_sublist)
  · rintro p hp c rfl hc
    have hlast := hinv.last
    rw [hp, Option.map_some, Option.map_eq_some_iff] at hlast
    obtain ⟨w, hw, hlogged⟩ := hlast
    have hinterval := interval_recordAll { interval := interval } calls
    obtain ⟨hnone, _⟩ | ⟨w', hw', hlt, _⟩ | ⟨w', _, _, he⟩ :=
      (recordAll { interval := interval } calls).admits_cases c.now c.reason
    · cases hw.symm.trans hnone
    · cases hw.symm.trans hw'
      rw [hinterval, hlogged] at hlt
      exact absurd (le_sub_of_le hi (le_sub_iff_add_le'.mpr hc)) (not_le.mpr hlt)
    · rw [admitted_concat, he]
      exact ⟨_, rfl⟩

/-- Three bad tokens within a minute, a missing one among them, and a fourth after it. -/
def fiveRefusals : List Refusal :=
  [⟨0, .invalidToken, "invalid token: expired"⟩, ⟨second, .invalidToken, "invalid token: expired"⟩,
    ⟨2 * second, .noToken, "no token"⟩, ⟨59 * second, .invalidToken, "invalid token: wrong aud"⟩,
    ⟨60 * second, .invalidToken, "invalid token: expired"⟩]

theorem fourth_refusal_tells_of_two :
    ((Rejections.recordAll { interval := 60 * second } fiveRefusals).warningsOf .invalidToken).map
      Warning.suppressed =
      [0, 2] ∧
    RateLimited (60 * second) .invalidToken fiveRefusals :=
  ⟨by decide, rejection_warnings_rate_limited (60 * second) (by decide) .invalidToken fiveRefusals⟩

end OtlpCollectorOidc.Auth

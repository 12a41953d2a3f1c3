import OtlpCollectorOidc.Lib.Ottl
import OtlpCollectorOidc.Render.Document

namespace OtlpCollectorOidc.Render

open Text Number Ottl

inductive SpanField where
  | startTime
  | endTime
  deriving DecidableEq

inductive LogField where
  | time
  deriving DecidableEq

def SpanField.path : SpanField → Bytes
  | .startTime => "span.start_time"
  | .endTime => "span.end_time"

def LogField.path : LogField → Bytes
  | .time => "log.time"

section Text

variable {F : Type} (path : F → Bytes)

def timeText : TimeExpr F → Bytes
  | .field f => path f
  | .now => "Now()"
  | .plus e d => timeText e ++ ofString " + " ++ ottlDuration d
  | .minus e d => timeText e ++ ofString " - " ++ ottlDuration d

def conditionText : Condition F → Bytes
  | .before a b => timeText path a ++ ofString " < " ++ timeText path b
  | .after a b => timeText path a ++ ofString " > " ++ timeText path b
  | .nonzero f => path f ++ ofString "_unix_nano != 0"
  | .and p q => conditionText p ++ ofString " and " ++ conditionText q

def statementText (s : Statement F) : Bytes :=
  ofString "set(" ++ path s.target ++ ofString ", " ++ timeText path s.value ++ ofString ") where " ++
    conditionText path s.condition

end Text

def spanTooOld (maxAge : Duration) : Condition SpanField := .before (.field .startTime) (.minus .now maxAge)

def logTooOld (maxAge : Duration) : Condition LogField :=
  .and (.nonzero .time) (.before (.field .time) (.minus .now maxAge))

def spanClamps (skew : Duration) : List (Statement SpanField) :=
  [⟨.startTime, .now, .after (.field .startTime) (.plus .now skew)⟩,
    ⟨.endTime, .field .startTime,
      .and (.after (.field .endTime) (.plus .now skew)) (.after (.field .startTime) .now)⟩,
    ⟨.endTime, .now, .after (.field .endTime) (.plus .now skew)⟩]

def logClamps (skew : Duration) : List (Statement LogField) :=
  [⟨.time, .now, .after (.field .time) (.plus .now skew)⟩]

/-- The conditions and statements are those the template is filled in with. -/
theorem bounds_text (maxAge skew : Duration) :
    conditionText SpanField.path (spanTooOld maxAge) = pastAgeSpanFilter maxAge ∧
    conditionText LogField.path (logTooOld maxAge) = pastAgeLogFilter maxAge ∧
    (spanClamps skew).map (statementText SpanField.path) = futureSkewSpanClamps skew ∧
    (logClamps skew).map (statementText LogField.path) = futureSkewLogClamps skew := by
  refine ⟨?_, ?_, ?_, ?_⟩
  · simp only [spanTooOld, conditionText, timeText, pastAgeSpanFilter, ← List.append_assoc]
    congr 1
  · simp only [logTooOld, conditionText, timeText, pastAgeLogFilter, ← List.append_assoc]
    congr 1
  · have hand : ofString " and span.start_time > Now()" =
        ofString " and " ++ SpanField.path .startTime ++ ofString " > " ++ ofString "Now()" := by decide
    simp only [spanClamps, statementText, conditionText, timeText, futureSkewSpanClamps, hand, List.map_cons,
      List.map_nil, ← List.append_assoc]
    congr 7
  · simp only [logClamps, statementText, conditionText, timeText, futureSkewLogClamps, List.map_cons,
      List.map_nil, ← List.append_assoc]
    congr 1

section Clamp

variable {c : Clock} {skew : ℤ} {i : ℕ}

/-- What the statements on the end time can do, where they start from `x` with the `i`th reading: it is
kept, raised to the start that is still ahead, or set to a later reading. -/
inductive Ending (c : Clock) (skew : ℤ) (x : SpanField → Timestamp) (i : ℕ)
    (y : SpanField → Timestamp) (n : ℕ) : Prop
  | kept (k : ℕ) (hi : i ≤ k) (hk : k < n) (h : (x .endTime).toInt ≤ (c.now k).toNat + skew) (he : y = x)
  | raised (hn : i + 2 < n) (h : (c.now i).toNat + skew < (x .endTime).toInt)
      (hs : (c.now (i + 1)).toNat < (x .startTime).toInt)
      (hs' : (x .startTime).toInt ≤ (c.now (i + 2)).toNat + skew)
      (he : y = Function.update x .endTime (x .startTime))
  | clamped (k : ℕ) (hi : i + 1 < k) (hk : k < n) (h : (c.now i).toNat + skew < (x .endTime).toInt)
      (hs : (x .startTime).toInt ≤ (c.now (i + 1)).toNat ∨
        (c.now (i + 2)).toNat + skew < (x .startTime).toInt)
      (he : y = Function.update x .endTime (c.now k))

theorem ending_spanClamps (c : Clock) (skew : ℤ) (x : SpanField → Timestamp) (i : ℕ) :
    Ending c skew x i (run c (spanClamps skew).tail x i).1 (run c (spanClamps skew).tail x i).2 := by
  simp only [spanClamps, List.tail_cons, run_cons, exec_raise]
  by_cases h₁ : (c.now i).toNat + skew < (x .endTime).toInt
  · by_cases h₂ : (c.now (i + 1)).toNat < (x .startTime).toInt
    · simp only [if_pos h₁, if_pos h₂, exec_clamp, Function.update_self]
      by_cases h₃ : (c.now (i + 2)).toNat + skew < (x .startTime).toInt
      · rw [if_pos h₃]
        exact .clamped (i + 3) (by omega) (by simp [run]) h₁ (Or.inr h₃) (Function.update_idem ..)
      · rw [if_neg h₃]
        exact .raised (by simp [run]) h₁ h₂ (not_lt.mp h₃) rfl
    · simp only [if_pos h₁, if_neg h₂, exec_clamp]
      by_cases h₃ : (c.now (i + 2)).toNat + skew < (x .endTime).toInt
      · rw [if_pos h₃]
        exact .clamped (i + 3) (by omega) (by simp [run]) h₁ (Or.inl (not_lt.mp h₂)) rfl
      · rw [if_neg h₃]
        exact .kept (i + 2) (by omega) (by simp [run]) (not_lt.mp h₃) rfl
  · simp only [if_neg h₁, exec_clamp]
    have hle := Clock.le (c := c) (show i ≤ i + 1 by omega)
    rw [if_neg (by omega)]
    exact .kept i le_rfl (show i < i + 1 + 1 by omega) (not_lt.mp h₁) rfl

theorem start_spanClamps (c : Clock) (skew : ℤ) (x : SpanField → Timestamp) (i : ℕ) :
    ((x .startTime).toInt ≤ (c.now i).toNat + skew ∧
      Ending c skew x (i + 1) (run c (spanClamps skew) x i).1 (run c (spanClamps skew) x i).2) ∨
    ((c.now i).toNat + skew < (x .startTime).toInt ∧
      Ending c skew (Function.update x .startTime (c.now (i + 1))) (i + 2) (run c (spanClamps skew) x i).1
        (run c (spanClamps skew) x i).2) := by
  rw [show spanClamps skew = _ :: (spanClamps skew).tail from rfl, run_cons, exec_clamp]
  split_ifs with h
  · exact Or.inr ⟨h, ending_spanClamps c skew _ _⟩
  · exact Or.inl ⟨not_lt.mp h, ending_spanClamps c skew _ _⟩

theorem Ending.startTime {x y : SpanField → Timestamp} {n : ℕ} (h : Ending c skew x i y n) :
    y .startTime = x .startTime := by
  cases h with
  | kept k hi hk h he => rw [he]
  | raised hn h hs hs' he => rw [he, Function.update_of_ne (by decide)]
  | clamped k hi hk h hs he => rw [he, Function.update_of_ne (by decide)]

theorem kept_start_ordered {x y : SpanField → Timestamp} {n : ℕ}
    (hstart : (x .startTime).toInt ≤ (c.now i).toNat + skew) (hend : (x .endTime).toNat < 2 ^ 63)
    (hle : (x .startTime).toNat ≤ (x .endTime).toNat) (h : Ending c skew x (i + 1) y n) :
    (y .startTime).toNat ≤ (y .endTime).toNat := by
  have hint := toInt_of_lt (hle.trans_lt hend)
  rw [h.startTime]
  cases h with
  | kept k hi hk h he => rwa [he]
  | raised hn h hs hs' he => rw [he, Function.update_self]
  | clamped k hi hk h hs he =>
    rw [he, Function.update_self]
    have hlow := Clock.le (c := c) (show i ≤ i + 1 + 2 by omega)
    have hhigh := Clock.le (c := c) (show i + 1 + 1 ≤ k by omega)
    omega

theorem moved_start_ordered (hskew : 0 ≤ skew) {x y : SpanField → Timestamp} {n : ℕ}
    (hend : (x .endTime).toNat < 2 ^ 63)
    (h : Ending c skew (Function.update x .startTime (c.now (i + 1))) (i + 2) y n) :
    (y .startTime).toNat ≤ (y .endTime).toNat ↔ (c.now (i + 1)).toNat ≤ (x .endTime).toNat := by
  have hint := toInt_of_lt hend
  rw [h.startTime]
  cases h with
  | kept k hi hk h he => rw [he, Function.update_self, Function.update_of_ne (by decide)]
  | raised hn h hs hs' he =>
    -- the start is a reading the clock has already reached
    rw [Function.update_self] at hs
    have hreached := Clock.le (c := c) (show i + 1 ≤ i + 2 + 1 by omega)
    have hread := toInt_le (c.now (i + 1))
    omega
  | clamped k hi hk h hs he =>
    rw [Function.update_of_ne (by decide)] at h
    rw [he, Function.update_self, Function.update_self]
    have hlow := Clock.le (c := c) (show i + 1 ≤ i + 2 by omega)
    have hhigh := Clock.le (c := c) (show i + 1 ≤ k by omega)
    omega

theorem run_spanClamps_ordered (hskew : 0 ≤ skew) (x : SpanField → Timestamp)
    (hend : (x .endTime).toNat < 2 ^ 63) (hle : (x .startTime).toNat ≤ (x .endTime).toNat) :
    ((run c (spanClamps skew) x i).1 .startTime).toNat ≤ ((run c (spanClamps skew) x i).1 .endTime).toNat ↔
      (x .startTime).toNat ≤ (c.now i).toNat + skew ∨ (c.now (i + 1)).toNat ≤ (x .endTime).toNat := by
  have hint := toInt_of_lt (hle.trans_lt hend)
  obtain ⟨hstart, h⟩ | ⟨hstart, h⟩ := start_spanClamps c skew x i
  · have hordered := kept_start_ordered hstart hend hle h
    rw [hint] at hstart
    exact iff_of_true hordered (Or.inl hstart)
  · rw [moved_start_ordered hskew hend h]
    rw [hint] at hstart
    exact ⟨Or.inr, fun h ↦ h.resolve_left (not_le.mpr hstart)⟩

/-- A timestamp that no clamp moved is bounded unless its top bit makes it look past. -/
theorem unmoved_iff {t : Timestamp} {r bound : ℤ} (h : t.toInt ≤ r) (hr : r ≤ bound) :
    t.toNat ≤ bound ↔ t.toNat < 2 ^ 63 ∨ t.toNat ≤ bound := by
  refine ⟨Or.inr, fun h' ↦ h'.elim (fun hlt ↦ ?_) id⟩
  rw [← toInt_of_lt hlt]
  exact h.trans hr

theorem moved_iff {t t' : Timestamp} {r bound : ℤ} (hr : 0 ≤ r) (h : r < t.toInt) (hb : t'.toNat ≤ bound) :
    t'.toNat ≤ bound ↔ t.toNat < 2 ^ 63 ∨ t.toNat ≤ bound :=
  iff_of_true hb (Or.inl (toNat_of_lt_toInt hr h))

theorem ahead_nonneg (hskew : 0 ≤ skew) (k : ℕ) : 0 ≤ (c.now k).toNat + skew := by omega

theorem Ending.lt {x y : SpanField → Timestamp} {n : ℕ} (h : Ending c skew x i y n) : i < n := by
  cases h <;> omega

theorem Ending.bounded (hskew : 0 ≤ skew) {x y : SpanField → Timestamp} {n : ℕ} (h : Ending c skew x i y n) :
    (y .endTime).toNat ≤ (c.now (n - 1)).toNat + skew ↔
      (x .endTime).toNat < 2 ^ 63 ∨ (x .endTime).toNat ≤ (c.now (n - 1)).toNat + skew := by
  cases h with
  | kept k hi hk h he =>
    rw [he]
    have hlast := Clock.le_last (c := c) hk
    exact unmoved_iff h (by omega)
  | raised hn h hs hs' he =>
    rw [he, Function.update_self]
    have hlast := Clock.le_last (c := c) hn
    have hint := toInt_of_lt (toNat_of_lt_toInt (Int.natCast_nonneg _) hs)
    exact moved_iff (ahead_nonneg hskew i) h (by omega)
  | clamped k hi hk h hs he =>
    rw [he, Function.update_self]
    have hlast := Clock.le_last (c := c) hk
    exact moved_iff (ahead_nonneg hskew i) h (by omega)

theorem run_spanClamps_bounded (hskew : 0 ≤ skew) (x : SpanField → Timestamp)
    {y : SpanField → Timestamp} {n : ℕ} (h : run c (spanClamps skew) x i = (y, n)) (f : SpanField) :
    (y f).toNat ≤ (c.now (n - 1)).toNat + skew ↔ (x f).toNat < 2 ^ 63 ∨
      (x f).toNat ≤ (c.now (n - 1)).toNat + skew := by
  have hcases := start_spanClamps c skew x i
  rw [h] at hcases
  dsimp only at hcases
  obtain ⟨hstart, hending⟩ | ⟨hstart, hending⟩ := hcases
  · cases f with
    | startTime =>
      rw [hending.startTime]
      have hlast := Clock.le_last (c := c) (show i < n by have := hending.lt; omega)
      exact unmoved_iff hstart (by omega)
    | endTime => exact hending.bounded hskew
  · cases f with
    | startTime =>
      rw [hending.startTime, Function.update_self]
      have hlast := Clock.le_last (c := c) (show i + 1 < n by have := hending.lt; omega)
      exact moved_iff (ahead_nonneg hskew i) hstart (by omega)
    | endTime =>
      have hbounded := hending.bounded hskew
      rwa [Function.update_of_ne (by decide)] at hbounded

theorem run_logClamps_bounded (hskew : 0 ≤ skew) (x : LogField → Timestamp) {y : LogField → Timestamp} {n : ℕ}
    (h : run c (logClamps skew) x i = (y, n)) (f : LogField) :
    (y f).toNat ≤ (c.now (n - 1)).toNat + skew ↔ (x f).toNat < 2 ^ 63 ∨
      (x f).toNat ≤ (c.now (n - 1)).toNat + skew := by
  cases f
  rw [logClamps, run_cons, exec_clamp] at h
  split_ifs at h with hahead
  · cases h
    dsimp only
    rw [Function.update_self]
    exact moved_iff (ahead_nonneg hskew i) hahead (le_add_of_nonneg_right hskew)
  · cases h
    exact unmoved_iff (not_lt.mp hahead) le_rfl

end Clamp

theorem BoundsSettings.skew_nonneg {s : BoundsSettings} (hv : s.validate = []) : 0 ≤ s.maxFutureSkew := by
  have hs := (List.append_eq_nil_iff.mp hv).1
  by_contra hneg
  rw [if_pos (not_le.mp hneg)] at hs
  exact List.cons_ne_nil _ _ hs

/-- A span ends no earlier than it starts after the clamps exactly when its start was not beyond the
skew at the first reading of the clock, or the second reading has not passed its end. -/
theorem clamped_span_ordered_iff (s : BoundsSettings) (hv : s.validate = []) (c : Clock)
    (x : SpanField → Timestamp) (i : ℕ) (hend : (x .endTime).toNat < 2 ^ 63)
    (hle : (x .startTime).toNat ≤ (x .endTime).toNat) :
    ((run c (spanClamps s.maxFutureSkew) x i).1 .startTime).toNat ≤
        ((run c (spanClamps s.maxFutureSkew) x i).1 .endTime).toNat ↔
      (x .startTime).toNat ≤ (c.now i).toNat + s.maxFutureSkew ∨ (c.now (i + 1)).toNat ≤ (x .endTime).toNat :=
  run_spanClamps_ordered (BoundsSettings.skew_nonneg hv) x hend hle

def zeroSkew : BoundsSettings :=
  { allowedServiceNames := ".*", maxFutureSkew := 0, maxPastAge := 48 * 3600 * second }

def tick (first second : Timestamp) (h : first.toNat ≤ second.toNat) : Clock where
  now i := if i = 0 then first else second
  mono := by
    refine monotone_nat_of_le_succ fun i ↦ ?_
    rw [if_neg (Nat.succ_ne_zero i)]
    split_ifs
    · exact h
    · exact le_rfl

def spanAt (start finish : Timestamp) : SpanField → Timestamp
  | .startTime => start
  | .endTime => finish

theorem future_span_ordered :
    zeroSkew.validate = [] ∧
      ((run (tick 10 20 (by decide)) (spanClamps zeroSkew.maxFutureSkew) (spanAt 15 30) 0).1
        .startTime).toNat ≤
        ((run (tick 10 20 (by decide)) (spanClamps zeroSkew.maxFutureSkew) (spanAt 15 30) 0).1
          .endTime).toNat :=
  ⟨by decide, (clamped_span_ordered_iff zeroSkew (by decide) (tick 10 20 (by decide))
    (spanAt 15 30) 0 (by decide)
    (by decide)).mpr (Or.inr (by decide))⟩

/-- The start becomes a reading the clock took after the span had ended. -/
theorem passed_span_reversed :
    zeroSkew.validate = [] ∧
      (run (tick 10 20 (by decide)) (spanClamps zeroSkew.maxFutureSkew) (spanAt 15 15) 0).1 .startTime = 20 ∧
      (run (tick 10 20 (by decide)) (spanClamps zeroSkew.maxFutureSkew) (spanAt 15 15) 0).1
        .endTime = 15 := by
  decide

/-- A timestamp that leaves is no further ahead than the skew exactly when it came below 2^63 or already
was not. -/
theorem bounded_timestamps_iff (s : BoundsSettings) (hv : s.validate = []) (c : Clock) :
    (∀ x y n, filterRun c (spanTooOld s.maxPastAge) (spanClamps s.maxFutureSkew) x = some (y, n) → ∀ f,
      ((y f).toNat ≤ (c.now (n - 1)).toNat + s.maxFutureSkew ↔
        (x f).toNat < 2 ^ 63 ∨ (x f).toNat ≤ (c.now (n - 1)).toNat + s.maxFutureSkew)) ∧
    ∀ x y n, filterRun c (logTooOld s.maxPastAge) (logClamps s.maxFutureSkew) x = some (y, n) → ∀ f,
      ((y f).toNat ≤ (c.now (n - 1)).toNat + s.maxFutureSkew ↔
        (x f).toNat < 2 ^ 63 ∨ (x f).toNat ≤ (c.now (n - 1)).toNat + s.maxFutureSkew) := by
  have hskew := BoundsSettings.skew_nonneg hv
  refine ⟨?_, ?_⟩
  · intro x y n h f
    obtain ⟨i, -, hrun⟩ := filterRun_eq_some h
    exact run_spanClamps_bounded hskew x hrun f
  · intro x y n h f
    obtain ⟨i, -, hrun⟩ := filterRun_eq_some h
    exact run_logClamps_bounded hskew x hrun f

def defaultBounds : BoundsSettings :=
  { allowedServiceNames := ".*", maxFutureSkew := 5 * 60 * second, maxPastAge := 48 * 3600 * second }

def newYear : Clock := tick 1704000000000000000 1704000000000000001 (by decide)

theorem hour_ahead_bounded :
    defaultBounds.validate = [] ∧ ∃ y n,
      filterRun newYear (spanTooOld defaultBounds.maxPastAge) (spanClamps defaultBounds.maxFutureSkew)
        (spanAt 1704000000000000000 1704003600000000000) = some (y, n) ∧
      (y .endTime).toNat ≤ (newYear.now (n - 1)).toNat + defaultBounds.maxFutureSkew := by
  have hkept : (filterRun newYear (spanTooOld defaultBounds.maxPastAge)
    (spanClamps defaultBounds.maxFutureSkew)
      (spanAt 1704000000000000000 1704003600000000000)).isSome = true := by decide
  obtain ⟨⟨y, n⟩, h⟩ := Option.isSome_iff_exists.mp hkept
  exact ⟨by decide, y, n, h,
    ((bounded_timestamps_iff defaultBounds (by decide) newYear).1 _ y n h .endTime).mpr (Or.inl (by decide))⟩

/-- The last nanosecond there is reads as the last one before 1970. -/
theorem last_nanosecond_unclamped :
    defaultBounds.validate = [] ∧
      (filterRun newYear (spanTooOld defaultBounds.maxPastAge) (spanClamps defaultBounds.maxFutureSkew)
        (spanAt 1704000000000000000 (BitVec.allOnes 64))).map (fun out ↦ (out.1 .endTime).toNat) =
          some (2 ^ 64 - 1) ∧
      ∀ i, (newYear.now i).toNat + defaultBounds.maxFutureSkew < 2 ^ 64 - 1 := by
  refine ⟨by decide, by decide, ?_⟩
  intro i
  have hnow : (newYear.now i).toNat ≤ 1704000000000000001 := by
    simp only [newYear, tick]
    split_ifs <;> decide
  have hlt : ((newYear.now i).toNat : ℤ) + 300000000000 < 2 ^ 64 - 1 := by omega
  exact hlt

end OtlpCollectorOidc.Render

import Mathlib.Data.Int.ConditionallyCompleteOrder
import Mathlib.Order.Interval.Set.OrdConnected
import Mathlib.Order.WithBot
import OtlpCollectorOidc.Auth.Claims
import OtlpCollectorOidc.Lib.WallTime

namespace OtlpCollectorOidc.Auth

open Text Number Json

/-- The `time.Time` that `numericDate` makes of a number. -/
def numericTime (f : ℚ) : WallTime :=
  let f := max (min f limit) (-limit)
  let sec := truncate f
  unix sec (truncate (roundFloat64 ((f - sec) * second)))

section Registered

variable (v : Verifier) (now : WallTime) (c : Claims)

def expiry : Option Fault :=
  match c.get "exp" with
  | none => some .noExpiry
  | some (.num f) => if now.before ((numericTime f).add v.skew) then none else some .expired
  | some _ => some .malformed

/-- nbf and iat, where the code writes one comparison as `Before` and the other as `After`. -/
def notAfter (name : Bytes) (fault : Fault) : Option Fault :=
  match c.get name with
  | none => none
  | some (.num f) => if (now.add v.skew).before (numericTime f) then some fault else none
  | some _ => some .malformed

/-- `verifier.registered` on the times as Go represents them. -/
def registeredAt : Option Fault :=
  checkIss v c <|> checkAud v c <|> expiry v now c <|> notAfter v now c "nbf" .notYetValid <|>
    notAfter v now c "iat" .issuedInFuture

end Registered

theorem numericTime_parts (f : ℚ) :
    ∃ sec nsec : ℤ, numericTime f = unix sec nsec ∧ instant f = sec * second + nsec ∧
    |sec| ≤ 10 ^ 15 ∧ |nsec| ≤ 2 * 10 ^ 9 + 1 := by
  set g : ℚ := max (min f limit) (-limit) with hg
  refine ⟨truncate g, truncate (roundFloat64 ((g - truncate g) * second)), rfl, rfl, ?_, ?_⟩
  · have hbound : |g| ≤ limit := by
      rw [abs_le, hg]
      exact ⟨le_max_right _ _, max_le (min_le_right _ _) (by norm_num [limit])⟩
    have hsec := (abs_truncate_le g).trans hbound
    rw [limit] at hsec
    exact_mod_cast hsec
  · have hfrac : |(g - truncate g) * (second : ℚ)| ≤ 10 ^ 9 := by
      rw [abs_mul]
      have hone := mul_le_mul_of_nonneg_right (abs_sub_truncate_le g) (abs_nonneg (second : ℚ))
      exact hone.trans (by norm_num [second])
    have hround := (abs_truncate_le _).trans (abs_roundFloat64_le ((g - truncate g) * (second : ℚ)))
    have hle : |(truncate (roundFloat64 ((g - truncate g) * second)) : ℚ)| ≤ 2 * 10 ^ 9 + 1 := by linarith
    exact_mod_cast hle

/-- A numeric claim is a time of some thirty million years at most, represented exactly. -/
theorem instant_numericTime (f : ℚ) :
    (numericTime f).instant = instant f ∧ |(numericTime f).ext| ≤ 2 ^ 51 := by
  obtain ⟨sec, nsec, htime, hinstant, hsec, hnsec⟩ := numericTime_parts f
  rw [abs_le] at hsec hnsec
  have he : (numericTime f).instant = sec * second + nsec := by
    rw [htime]
    exact instant_unix (by omega) (by omega)
  refine ⟨he.trans hinstant.symm, ?_⟩
  have hrange := (numericTime f).nsec_range
  rw [WallTime.instant, unixToInternal] at he
  generalize (numericTime f).ext = ext at *
  generalize (numericTime f).nsec = n at *
  rw [abs_le]
  have hbound :
      ∀ second' : ℤ, second' = 10 ^ 9 → (ext - 62135596800) * second' + n = sec * second' + nsec →
        n < second' → -2 ^ 51 ≤ ext ∧ ext ≤ 2 ^ 51 := by
    rintro _ rfl he hn
    omega
  exact hbound second rfl he hrange.2

/-- Whether an addition of the skew stays within the seconds there are. -/
theorem instant_add_skew {t : WallTime} {d : Duration} (ht : t.ext ≤ maxInt64 - 2 ^ 34)
    (hd : 0 ≤ d ∧ d ≤ maxDuration) :
    (t.add d).instant = t.instant + d := by
  apply WallTime.instant_add
  have hrange := t.ext_range
  have hn := t.nsec_range
  have hq : 0 ≤ (t.nsec + d) / second ∧ (t.nsec + d) / second ≤ 2 ^ 34 := by
    have hdiv : ∀ n d : ℤ, 0 ≤ n → n < 10 ^ 9 → 0 ≤ d → d ≤ 2 ^ 63 - 1 → 0 ≤ (n + d) / 10 ^ 9 ∧
        (n + d) / 10 ^ 9 ≤ 2 ^ 34 := by
      intro n d
      omega
    exact hdiv _ _ hn.1 hn.2 hd.1 hd.2
  constructor <;> linarith [hrange.1, hq.1, hq.2]

section Exact

variable {v : Verifier} {c : Claims} {now : WallTime}

theorem before_exp_iff (hskew : 0 ≤ v.skew ∧ v.skew ≤ maxDuration) (f : ℚ) :
    now.before ((numericTime f).add v.skew) = true ↔ now.instant < instant f + v.skew := by
  obtain ⟨hinstant, hext⟩ := instant_numericTime f
  have hsmall : (numericTime f).ext ≤ maxInt64 - 2 ^ 34 := (abs_le.mp hext).2.trans (by decide)
  rw [WallTime.before_iff, instant_add_skew hsmall hskew, hinstant]

/-- A clock too late for the addition is past every numeric claim, added to or not. -/
theorem add_before_iff (hskew : 0 ≤ v.skew ∧ v.skew ≤ maxDuration) (f : ℚ) :
    (now.add v.skew).before (numericTime f) = true ↔ now.instant + v.skew < instant f := by
  obtain ⟨hinstant, hext⟩ := instant_numericTime f
  by_cases hnow : now.ext ≤ maxInt64 - 2 ^ 34
  · rw [WallTime.before_iff, instant_add_skew hnow hskew, hinstant]
  · have hlate : (numericTime f).ext < now.ext :=
      (abs_le.mp hext).2.trans_lt ((by decide : (2 : ℤ) ^ 51 < maxInt64 - 2 ^ 34).trans (not_le.mp hnow))
    have hpast : instant f < now.instant := by
      rw [← hinstant, ← WallTime.before_iff, WallTime.before, decide_eq_true hlate, Bool.true_or]
    have hadd : (numericTime f).ext < (now.add v.skew).ext := by
      have hq : 0 ≤ (now.nsec + v.skew) / second :=
        Int.ediv_nonneg (add_nonneg now.nsec_range.1 hskew.1) (by decide)
      have hle : now.ext ≤ WallTime.addSec now.ext ((now.nsec + v.skew) / second) := by
        have hrange := now.ext_range
        unfold WallTime.addSec
        split_ifs <;> linarith
      exact hlate.trans_le hle
    refine iff_of_false ?_ ?_
    · rw [WallTime.before, decide_eq_false hadd.not_gt, decide_eq_false hadd.ne']
      simp
    · exact not_lt.mpr (hpast.le.trans (le_add_of_nonneg_right hskew.1))

/-- The representation of the times does not show in the answer. -/
theorem registeredAt_eq (hskew : 0 ≤ v.skew ∧ v.skew ≤ maxDuration) :
    registeredAt v now c = registered v now.instant c := by
  have hexp : expiry v now c = checkExp v now.instant c := by
    unfold expiry checkExp numericDate
    rcases c.get "exp" with _ | w
    · rfl
    · cases w <;> try rfl
      simp only [before_exp_iff hskew]
  have hafter (name : Bytes) (fault : Fault) :
      notAfter v now c name fault = checkNotAfter v now.instant c name fault := by
    unfold notAfter checkNotAfter numericDate
    rcases c.get name with _ | w
    · rfl
    · cases w <;> try rfl
      simp only [add_before_iff hskew]
  rw [registeredAt, registered, hexp, hafter, hafter, checkNbf, checkIat]

def date (c : Claims) (name : Bytes) : WithBot Time :=
  match c.get name with
  | some (.num f) => (instant f : Time)
  | _ => ⊥

/-- When the token begins to be valid: the later of nbf and iat, less the skew. -/
def opening (v : Verifier) (c : Claims) : WithBot Time := (max (date c "nbf") (date c "iat")).map (· - v.skew)

theorem checkNotAfter_iff_date {name : Bytes} {fault : Fault} {t : Time}
    (hnum : ∀ w, c.get name = some w → ∃ f, w = .num f) :
    checkNotAfter v t c name fault = none ↔ date c name ≤ ((t + v.skew : Time) : WithBot Time) := by
  rw [checkNotAfter_eq_none, date]
  rcases hc : c.get name with _ | w
  · simp
  · obtain ⟨f, rfl⟩ := hnum w hc
    simp only [Option.some.injEq, forall_eq', Value.num.injEq, exists_eq_left']
    exact WithBot.coe_le_coe.symm

theorem map_sub_le_iff (d : WithBot Time) (skew : Duration) (t : Time) :
    d.map (· - skew) ≤ (t : WithBot Time) ↔ d ≤ ((t + skew : Time) : WithBot Time) := by
  cases d with
  | bot => simp
  | coe d => exact WithBot.coe_le_coe.trans (sub_le_iff_le_add.trans WithBot.coe_le_coe.symm)

end Exact

theorem registeredAt_eq_none_iff {v : Verifier} {c : Claims} {now : WallTime}
    (hskew : 0 ≤ v.skew ∧ v.skew ≤ maxDuration) (hiss : checkIss v c = none)
    (haud : checkAud v c = none) {exp : ℚ} (hexp : c.get "exp" = some (.num exp))
    (hnbf : ∀ w, c.get "nbf" = some w → ∃ f, w = .num f)
    (hiat : ∀ w, c.get "iat" = some w → ∃ f, w = .num f) :
    registeredAt v now c = none ↔
      opening v c ≤ (now.instant : WithBot Time) ∧ now.instant < instant exp + v.skew := by
  have hupper : checkExp v now.instant c = none ↔ now.instant < instant exp + v.skew := by
    rw [checkExp_eq_none]
    simp [hexp]
  rw [registeredAt_eq hskew, registered_eq_none, checkNbf, checkIat, checkNotAfter_iff_date hnbf,
    checkNotAfter_iff_date hiat, hupper, opening, map_sub_le_iff, max_le_iff]
  tauto

/-- The times at which a token is valid are one window, and the arithmetic behind it is exact. -/
structure OneWindow (v : Verifier) (c : Claims) (exp : ℚ) : Prop where
  window : ∀ now : WallTime, registeredAt v now c = none ↔
    opening v c ≤ (now.instant : WithBot Time) ∧ now.instant < instant exp + v.skew
  unbroken : ∀ t now u : WallTime, t.instant ≤ now.instant → now.instant ≤ u.instant →
    registeredAt v t c = none → registeredAt v u c = none → registeredAt v now c = none
  tolerant : ∀ skew, v.skew ≤ skew → skew ≤ maxDuration → ∀ now, registeredAt v now c = none →
    registeredAt { v with skew := skew } now c = none
  claims : ∀ f, ((numericTime f).add v.skew).instant = instant f + v.skew
  clock : ∀ now : WallTime, now.ext ≤ maxInt64 - 2 ^ 34 → (now.add v.skew).instant = now.instant + v.skew

/-- A token whose exp is a number, as are its nbf and iat where it has them, is valid in one
half-open window: from the later of nbf and iat, less the skew, until exp and the skew. -/
theorem token_valid_in_one_window (v : Verifier) (hskew : 0 ≤ v.skew ∧ v.skew ≤ maxDuration) (c : Claims)
    (hiss : checkIss v c = none) (haud : checkAud v c = none) (exp : ℚ) (hexp : c.get "exp" = some (.num exp))
    (hnbf : ∀ w, c.get "nbf" = some w → ∃ f, w = .num f)
    (hiat : ∀ w, c.get "iat" = some w → ∃ f, w = .num f) :
    OneWindow v c exp where
  window _ := registeredAt_eq_none_iff hskew hiss haud hexp hnbf hiat
  unbroken t now u htn hnu ht hu := by
    rw [registeredAt_eq_none_iff hskew hiss haud hexp hnbf hiat] at ht hu ⊢
    exact ⟨ht.1.trans (WithBot.coe_le_coe.mpr htn), hnu.trans_lt hu.2⟩
  tolerant skew hle hmax now h := by
    have hskew' : 0 ≤ skew ∧ skew ≤ maxDuration := ⟨hskew.1.trans hle, hmax⟩
    rw [registeredAt_eq_none_iff hskew hiss haud hexp hnbf hiat, opening, map_sub_le_iff] at h
    apply (registeredAt_eq_none_iff (v := { v with skew := skew }) hskew' hiss haud hexp hnbf hiat).mpr
    rw [opening, map_sub_le_iff]
    exact ⟨h.1.trans (WithBot.coe_le_coe.mpr (add_le_add_right hle _)), h.2.trans_le (add_le_add_right hle _)⟩
  claims f := by
    obtain ⟨hinstant, hext⟩ := instant_numericTime f
    rw [instant_add_skew ((abs_le.mp hext).2.trans (by decide)) hskew, hinstant]
  clock now hnow := instant_add_skew hnow hskew

def minuteVerifier : Verifier where
  issuer := "https://id.example"
  audience := "collector"
  algorithms := ["ES256"]
  skew := 60 * second

/-- Issued at 100 s, usable from 130.5 s, expired at 400 s. -/
def datedClaims : Claims :=
  ofMembers [("iss", .str "https://id.example"), ("aud", .str "collector"), ("iat", .num 100),
    ("nbf", .num (261 / 2)), ("exp", .num 400)]

theorem dated_token_window : OneWindow minuteVerifier datedClaims 400 ∧
    opening minuteVerifier datedClaims = ((70500000000 : ℤ) : WithBot Time) ∧
    instant 400 + minuteVerifier.skew = 460000000000 := by
  have hnum (name : Bytes) (f : ℚ) (h : datedClaims.get name = some (.num f)) :
      ∀ w, datedClaims.get name = some w → ∃ f, w = .num f := by
    intro w hw
    exact ⟨f, (Option.some.inj (h.symm.trans hw)).symm⟩
  refine ⟨?_, by decide +kernel, by decide +kernel⟩
  exact token_valid_in_one_window minuteVerifier (by decide) datedClaims (by decide) (by decide) 400 (by rfl)
    (hnum _ (261 / 2) (by rfl)) (hnum _ 100 (by rfl))

end OtlpCollectorOidc.Auth

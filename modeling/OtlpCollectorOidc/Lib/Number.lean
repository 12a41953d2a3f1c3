import Mathlib.Data.Int.Log
import Mathlib.Data.Rat.Floor
import Mathlib.Tactic.FieldSimp
import Mathlib.Tactic.Linarith

namespace OtlpCollectorOidc.Number

def roundHalfEven (q : ℚ) : ℤ :=
  let n := ⌊q⌋
  if q - n < 1 / 2 then n else if 1 / 2 < q - n then n + 1 else if n % 2 = 0 then n else n + 1

/-- The binary64 value nearest to `q`, ties to even, as if its exponent had no
upper bound. -/
def roundFloat64 (q : ℚ) : ℚ :=
  if q = 0 then 0
  else
    let ulp : ℚ := 2 ^ (max (Int.log 2 |q|) (-1022) - 52)
    roundHalfEven (q / ulp) * ulp

def parseFloat (q : ℚ) : Option ℚ :=
  if |roundFloat64 q| < 2 ^ 1024 then some (roundFloat64 q) else none

/-- Go's conversion of a float to an integer, towards zero. -/
def truncate (q : ℚ) : ℤ := q.num.tdiv q.den

theorem abs_truncate_le (q : ℚ) : |(truncate q : ℚ)| ≤ |q| := by
  have hden : (0 : ℚ) < q.den := by exact_mod_cast q.den_pos
  have hdiv : |q.num.tdiv q.den| * q.den ≤ |q.num| := by
    have hnat := Nat.div_mul_le_self q.num.natAbs q.den
    rw [Int.abs_eq_natAbs, Int.abs_eq_natAbs, Int.natAbs_tdiv, Int.natAbs_natCast]
    exact_mod_cast hnat
  have hcast : |(truncate q : ℚ)| * q.den ≤ |(q.num : ℚ)| := by
    rw [truncate]
    exact_mod_cast hdiv
  calc
    |(truncate q : ℚ)| ≤ |(q.num : ℚ)| / q.den := (le_div_iff₀ hden).mpr hcast
    _ = |q| := by
      conv_rhs => rw [← Rat.num_div_den q]
      rw [abs_div, abs_of_pos hden]

theorem abs_sub_truncate_le (q : ℚ) : |q - truncate q| ≤ 1 := by
  have hden : (0 : ℚ) < q.den := by exact_mod_cast q.den_pos
  have hmod : |q.num.tmod q.den| ≤ q.den := by
    have hlt := Nat.mod_lt q.num.natAbs q.den_pos
    rw [Int.abs_eq_natAbs, Int.natAbs_tmod, Int.natAbs_natCast]
    exact_mod_cast hlt.le
  have hq : (q - truncate q) * q.den = (q.num.tmod q.den : ℤ) := by
    have hsplit : (q.den : ℚ) * (truncate q : ℚ) + (q.num.tmod q.den : ℤ) = q.num := by
      exact_mod_cast Int.mul_tdiv_add_tmod q.num q.den
    rw [sub_mul, Rat.mul_den_eq_num]
    linarith
  have hcast : |q - truncate q| * q.den ≤ 1 * q.den := by
    rw [← abs_of_pos hden, ← abs_mul, abs_of_pos hden, hq, one_mul]
    exact_mod_cast hmod
  exact le_of_mul_le_mul_right hcast hden

theorem abs_roundHalfEven_le (q : ℚ) : |(roundHalfEven q : ℚ)| ≤ |q| + 1 := by
  have hlo := Int.floor_le q
  have hhi := Int.lt_floor_add_one q
  have hle := le_abs_self q
  have hneg := neg_abs_le q
  unfold roundHalfEven
  dsimp only
  split_ifs <;> push_cast <;> rw [abs_le] <;> constructor <;> linarith

theorem abs_roundFloat64_le (q : ℚ) : |roundFloat64 q| ≤ 2 * |q| + 1 := by
  unfold roundFloat64
  split_ifs with hq
  · simp [hq]
  · dsimp only
    set ulp : ℚ := 2 ^ (max (Int.log 2 |q|) (-1022) - 52) with hulp
    have hpos : 0 < ulp := zpow_pos (by norm_num) _
    have hsmall : ulp ≤ |q| + 1 := by
      have hlog : (2 : ℚ) ^ Int.log 2 |q| ≤ |q| := Int.zpow_log_le_self (by decide) (abs_pos.mpr hq)
      have hmax : (2 : ℚ) ^ max (Int.log 2 |q|) (-1022) ≤ |q| + 1 := by
        rcases le_total (-1022) (Int.log 2 |q|) with h | h
        · rw [max_eq_left h]
          linarith
        · rw [max_eq_right h]
          have hone : (2 : ℚ) ^ (-1022 : ℤ) ≤ 1 := zpow_le_one_of_nonpos₀ (by norm_num) (by norm_num)
          linarith [abs_nonneg q]
      refine le_trans ?_ hmax
      exact zpow_le_zpow_right₀ (by norm_num) (by omega)
    calc
      |(roundHalfEven (q / ulp) : ℚ) * ulp| = |(roundHalfEven (q / ulp) : ℚ)| * ulp := by
        rw [abs_mul, abs_of_pos hpos]
      _ ≤ (|q / ulp| + 1) * ulp := by gcongr; exact abs_roundHalfEven_le _
      _ = |q| + ulp := by rw [abs_div, abs_of_pos hpos]; field_simp
      _ ≤ 2 * |q| + 1 := by linarith

/-- An instant, in nanoseconds since the Unix epoch. -/
abbrev Time := ℤ

abbrev Duration := ℤ

def second : Duration := 10 ^ 9

/-- The zero `time.Time`, the first instant of year 1. -/
def zeroTime : Time := -62135596800 * second

def maxDuration : Duration := 2 ^ 63 - 1

def minDuration : Duration := -2 ^ 63

/-- `Time.Sub`, which saturates. -/
def sub (t u : Time) : Duration := max minDuration (min maxDuration (t - u))

theorem le_sub_iff {t u : Time} {d : Duration} (h₀ : minDuration < d) (h₁ : d ≤ maxDuration) :
    d ≤ sub t u ↔ d ≤ t - u := by
  rw [sub, le_max_iff, le_min_iff]
  exact ⟨fun h ↦ h.elim (fun h ↦ absurd h (not_le.mpr h₀)) And.right, fun h ↦ Or.inr ⟨h₁, h⟩⟩

theorem sub_le_sub_of_le {t u : Time} (h : u ≤ t) : sub t u ≤ t - u := by
  have hmin : minDuration ≤ 0 := by decide
  exact max_le (hmin.trans (Int.sub_nonneg_of_le h)) (min_le_right _ _)

theorem le_sub_of_le {t u : Time} {d : Duration} (hd : d ≤ maxDuration) (h : d ≤ t - u) : d ≤ sub t u :=
  (le_min hd h).trans (le_max_right _ _)

end OtlpCollectorOidc.Number

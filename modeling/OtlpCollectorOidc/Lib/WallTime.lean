import OtlpCollectorOidc.Lib.Number

namespace OtlpCollectorOidc.Number

def maxInt64 : ℤ := 2 ^ 63 - 1

/-- A `time.Time` without a monotonic reading: 64 bits of seconds since year 1, and nanoseconds. -/
structure WallTime where
  ext : ℤ
  nsec : ℤ
  ext_range : -maxInt64 - 1 ≤ ext ∧ ext ≤ maxInt64
  nsec_range : 0 ≤ nsec ∧ nsec < second

def unixToInternal : ℤ := 62135596800

/-- The bits an integer leaves in an int64. -/
def wrap (n : ℤ) : ℤ := n.bmod (2 ^ 64)

theorem wrap_range (n : ℤ) : -maxInt64 - 1 ≤ wrap n ∧ wrap n ≤ maxInt64 := by
  have hle := Int.le_bmod (x := n) (m := 2 ^ 64) (by decide)
  have hlt := Int.bmod_lt (x := n) (m := 2 ^ 64) (by decide)
  unfold wrap maxInt64
  omega

theorem wrap_of_range {n : ℤ} (h : -maxInt64 - 1 ≤ n ∧ n ≤ maxInt64) : wrap n = n := by
  unfold wrap maxInt64 at *
  exact Int.bmod_eq_of_le (by omega) (by omega)

theorem nsec_emod (n : ℤ) : 0 ≤ n % second ∧ n % second < second :=
  ⟨Int.emod_nonneg n (by decide), Int.emod_lt_of_pos n (by decide)⟩

/-- `time.Unix`. -/
def unix (sec nsec : ℤ) : WallTime where
  ext := wrap (wrap (sec + nsec / second) + unixToInternal)
  nsec := nsec % second
  ext_range := wrap_range _
  nsec_range := nsec_emod nsec

namespace WallTime

def instant (t : WallTime) : Time := (t.ext - unixToInternal) * second + t.nsec

/-- `addSec`, which stops at the first or the last second there is. -/
def addSec (ext d : ℤ) : ℤ :=
  if maxInt64 < ext + d then maxInt64 else if ext + d < -maxInt64 - 1 then -maxInt64 else ext + d

theorem addSec_range (ext d : ℤ) : -maxInt64 - 1 ≤ addSec ext d ∧ addSec ext d ≤ maxInt64 := by
  unfold addSec maxInt64
  split_ifs <;> omega

def add (t : WallTime) (d : Duration) : WallTime where
  ext := addSec t.ext ((t.nsec + d) / second)
  nsec := (t.nsec + d) % second
  ext_range := addSec_range _ _
  nsec_range := nsec_emod _

def before (t u : WallTime) : Bool := t.ext < u.ext || (t.ext = u.ext && t.nsec < u.nsec)

theorem before_iff {t u : WallTime} : t.before u = true ↔ t.instant < u.instant := by
  have hlex {a b c d : ℤ} (hb : 0 ≤ b ∧ b < 10 ^ 9) (hd : 0 ≤ d ∧ d < 10 ^ 9) :
      (a < c ∨ a = c ∧ b < d) ↔ (a - 62135596800) * 10 ^ 9 + b < (c - 62135596800) * 10 ^ 9 + d := by omega
  rw [before, Bool.or_eq_true, Bool.and_eq_true, decide_eq_true_eq, decide_eq_true_eq, decide_eq_true_eq]
  exact hlex t.nsec_range u.nsec_range

/-- An addition that stays between the first second and the last is exact. -/
theorem instant_add {t : WallTime} {d : Duration}
    (h : -maxInt64 - 1 ≤ t.ext + (t.nsec + d) / second ∧ t.ext + (t.nsec + d) / second ≤ maxInt64) :
    (t.add d).instant = t.instant + d := by
  have hadd : addSec t.ext ((t.nsec + d) / second) = t.ext + (t.nsec + d) / second := by
    rw [addSec, if_neg (not_lt.mpr h.2), if_neg (not_lt.mpr h.1)]
  have hdiv := Int.mul_ediv_add_emod (t.nsec + d) second
  simp only [instant, add, hadd]
  linarith

end WallTime

theorem instant_unix {sec nsec : ℤ} (h : -2 ^ 62 ≤ sec ∧ sec ≤ 2 ^ 62) (hn : -2 ^ 61 ≤ nsec ∧ nsec ≤ 2 ^ 61) :
    (unix sec nsec).instant = sec * second + nsec := by
  have hq : -2 ^ 61 ≤ nsec / second ∧ nsec / second ≤ 2 ^ 61 := by
    unfold second
    omega
  have hinner : wrap (sec + nsec / second) = sec + nsec / second := by
    apply wrap_of_range
    unfold maxInt64
    omega
  have houter : wrap (sec + nsec / second + unixToInternal) = sec + nsec / second + unixToInternal := by
    apply wrap_of_range
    unfold maxInt64 unixToInternal
    omega
  have hdiv := Int.mul_ediv_add_emod nsec second
  simp only [WallTime.instant, unix, hinner, houter]
  linarith

end OtlpCollectorOidc.Number

import OtlpCollectorOidc.Lib.Shell

namespace OtlpCollectorOidc.Strconv

open Text Number

section Exact

theorem roundHalfEven_intCast (z : ℤ) : roundHalfEven (z : ℚ) = z := by
  simp [roundHalfEven]

/-- Whole numbers below `2 ^ 53` are binary64 values. -/
theorem roundFloat64_natCast {n : ℕ} (hn : n < 2 ^ 53) : roundFloat64 (n : ℚ) = n := by
  obtain rfl | hpos := Nat.eq_zero_or_pos n
  · simp [roundFloat64]
  have hlog : Int.log 2 |(n : ℚ)| = (Nat.log 2 n : ℤ) := by rw [Nat.abs_cast, Int.log_natCast]
  have hle : Nat.log 2 n < 53 := Nat.log_lt_of_lt_pow (by omega) hn
  obtain ⟨k, hk⟩ := Nat.exists_eq_add_of_le (Nat.le_of_lt_succ hle)
  have hulp : (2 : ℚ) ^ (max (Int.log 2 |(n : ℚ)|) (-1022) - 52) = (2 ^ k)⁻¹ := by
    have hexp : max (Int.log 2 |(n : ℚ)|) (-1022) - 52 = -(k : ℤ) := by
      rw [hlog, max_eq_left (by omega)]
      omega
    rw [hexp, zpow_neg, zpow_natCast]
  have hwhole : (n : ℚ) / (2 ^ k)⁻¹ = ((n * 2 ^ k : ℕ) : ℤ) := by
    rw [div_inv_eq_mul]
    push_cast
    rfl
  have hne : (n : ℚ) ≠ 0 := by exact_mod_cast hpos.ne'
  rw [roundFloat64, if_neg hne]
  dsimp only
  rw [hulp, hwhole, roundHalfEven_intCast]
  push_cast
  field_simp

theorem truncate_natCast (n : ℕ) : truncate (n : ℚ) = n := by
  simp [truncate]

end Exact

section Digits

variable {ds rest : Bytes}

def Stops (rest : Bytes) : Prop := ∀ c ∈ rest.head?, isDigit c = false

theorem span_of_stops {p : UInt8 → Bool} (hds : ds.all p = true) (hrest : ∀ c ∈ rest.head?, p c = false) :
    (ds ++ rest).span p = (ds, rest) := by
  have hall : ∀ c ∈ ds, p c = true := List.all_eq_true.mp hds
  rw [List.span_eq_takeWhile_dropWhile, List.takeWhile_append_of_pos hall, List.dropWhile_append_of_pos hall]
  cases rest with
  | nil => simp
  | cons c rest => simp [hrest c rfl]

theorem leadingInt_decimal {n : ℕ} (hn : n ≤ 2 ^ 63) (hrest : Stops rest) :
    leadingInt (decimal n ++ rest) = some (n, rest) := by
  rw [leadingInt, span_of_stops (canonical_decimal n).digits hrest]
  dsimp only
  rw [digitsValue_decimal, if_pos hn]

theorem digitsValue_zeros (ds : Bytes) (z : ℕ) :
    digitsValue (ds ++ List.replicate z 0x30) = digitsValue ds * 10 ^ z := by
  induction z with
  | zero => simp
  | succ z ih =>
    rw [List.replicate_succ', ← List.append_assoc, digitsValue_append, ih, pow_succ]
    simp
    ring

theorem digit_value_le {c : UInt8} (hc : isDigit c = true) : c.toNat - 0x30 ≤ 9 := by
  simp only [isDigit, Bool.and_eq_true, decide_eq_true_iff] at hc
  have hle : c.toNat ≤ (0x39 : UInt8).toNat := hc.2
  have hnine : (0x39 : UInt8).toNat = 0x39 := rfl
  omega

theorem digitsValue_lt (hds : ds.all isDigit = true) : digitsValue ds < 10 ^ ds.length := by
  induction ds using List.reverseRecOn with
  | nil => simp [digitsValue]
  | append_singleton ds d ih =>
    rw [List.all_append, Bool.and_eq_true] at hds
    have hlt := ih hds.1
    have hd : d.toNat - 0x30 ≤ 9 := digit_value_le (by simpa using hds.2)
    rw [digitsValue_append, List.length_append, List.length_singleton, pow_succ]
    omega

/-- Few enough digits after the point are all read. -/
theorem leadingFraction_digits {f scale : ℕ} (hds : ds.all isDigit = true) (hrest : Stops rest)
    (hfit : (f + 1) * 10 ^ ds.length ≤ 10 ^ 9) :
    leadingFraction f scale false (ds ++ rest) =
      (ds.foldl (fun n d ↦ 10 * n + (d.toNat - 0x30)) f, scale * 10 ^ ds.length, rest) := by
  induction ds generalizing f scale with
  | nil =>
    cases rest with
    | nil => simp [leadingFraction]
    | cons c rest => simp [leadingFraction, hrest c rfl]
  | cons d ds ih =>
    rw [List.all_cons, Bool.and_eq_true] at hds
    have hd := digit_value_le hds.1
    rw [List.length_cons, pow_succ] at hfit
    have hpow : 1 ≤ 10 ^ ds.length := Nat.one_le_pow _ _ (by decide)
    have hnext : (10 * f + (d.toNat - 0x30) + 1) * 10 ^ ds.length ≤ 10 ^ 9 := by
      refine le_trans ?_ hfit
      calc (10 * f + (d.toNat - 0x30) + 1) * 10 ^ ds.length ≤ ((f + 1) * 10) * 10 ^ ds.length :=
            Nat.mul_le_mul_right _ (by omega)
        _ = (f + 1) * (10 ^ ds.length * 10) := by ring
    have hsmall : 10 * f + (d.toNat - 0x30) + 1 ≤ 10 ^ 9 := le_trans (Nat.le_mul_of_pos_right _ hpow) hnext
    rw [List.cons_append, leadingFraction, if_pos hds.1]
    dsimp only
    rw [if_neg (by simp; omega), ih hds.2 hnext, List.foldl_cons, List.length_cons, pow_succ]
    ring_nf

end Digits

section Fraction

/-- A leading one keeps the zeros before a fraction's other digits. -/
theorem decimal_padded (k : ℕ) {m : ℕ} (hm : m < 10 ^ k) :
    ∃ ds, decimal (10 ^ k + m) = 0x31 :: ds ∧ ds.length = k ∧ ds.all isDigit = true ∧ digitsValue ds = m := by
  induction k generalizing m with
  | zero =>
    obtain rfl : m = 0 := by omega
    exact ⟨[], by decide, rfl, rfl, rfl⟩
  | succ k ih =>
    rw [pow_succ] at hm
    obtain ⟨ds, hds, hlen, hdigits, hvalue⟩ := ih (m := m / 10) (by omega)
    have hlast : m % 10 < 10 := Nat.mod_lt m (by decide)
    refine ⟨ds ++ [digit (m % 10)], ?_, by simp [hlen], by simp [hdigits, isDigit_digit _ hlast], ?_⟩
    · have hpow : 1 ≤ 10 ^ k := Nat.one_le_pow _ _ (by decide)
      have hsplit : 10 ^ (k + 1) + m = 10 * (10 ^ k + m / 10) + m % 10 := by
        rw [pow_succ]
        omega
      rw [hsplit, decimal_append (by omega) hlast, hds, List.cons_append]
    · rw [digitsValue_append, hvalue, toNat_digit _ hlast]
      omega

theorem rdropWhile_zeros (ds : Bytes) : ∃ z, ds = ds.rdropWhile (· = 0x30) ++ List.replicate z 0x30 := by
  have hzeros : ∀ c ∈ ds.rtakeWhile (· = 0x30), c = 0x30 := fun c hc ↦ by
    simpa using List.mem_rtakeWhile_imp hc
  refine ⟨(ds.rtakeWhile (· = 0x30)).length, ?_⟩
  rw [← List.eq_replicate_of_mem hzeros, List.rdropWhile_append_rtakeWhile]

/-- The digits a fraction is printed with stand for what is left of the whole. -/
theorem fraction_digits (v k : ℕ) : ∃ ds, ds.all isDigit = true ∧ ds.length ≤ k ∧
    digitsValue ds * 10 ^ (k - ds.length) = v % 10 ^ k ∧ fraction v k = if ds = [] then []
    else 0x2E :: ds := by
  obtain ⟨ds, hds, hlen, hdigits, hvalue⟩ := decimal_padded k (Nat.mod_lt v (Nat.pow_pos (by decide)))
  obtain ⟨z, hz⟩ := rdropWhile_zeros ds
  have hlength : (ds.rdropWhile (· = 0x30)).length + z = k := by
    rw [← hlen]
    conv_rhs => rw [hz]
    simp
  refine ⟨ds.rdropWhile (· = 0x30), ?_, by omega, ?_, ?_⟩
  · rw [hz, List.all_append, Bool.and_eq_true] at hdigits
    exact hdigits.1
  · rw [← hvalue, show k - (ds.rdropWhile (· = 0x30)).length = z by omega, ← digitsValue_zeros, ← hz]
  · rw [fraction, ← decimal, hds]
    rfl

end Fraction

section Terms

structure IsUnit (name : Bytes) (unit : ℕ) : Prop where
  found : (units.find? (fun u ↦ u.1 = name)).map Prod.snd = some unit
  nonempty : name ≠ []
  letters : name.all (fun c ↦ !(c = 0x2E || isDigit c)) = true
  pos : 0 < unit
  exact : unit < 2 ^ 53

/-- Terms that add an amount to what was read before them. -/
def Amounts (bs : Bytes) (x : ℕ) : Prop :=
  ∀ fuel d, bs.length ≤ fuel → d + x ≤ 2 ^ 63 → parseTerms fuel d bs = some (d + x)

variable {name rest : Bytes} {unit : ℕ}

theorem amounts_nil : Amounts [] 0 := by
  intro fuel d _ _
  rw [parseTerms]
  rfl

theorem IsUnit.head (h : IsUnit name unit) (rest : Bytes) :
    ∃ c s, name ++ rest = c :: s ∧ c ≠ 0x2E ∧ isDigit c = false := by
  obtain ⟨c, s, rfl⟩ := List.exists_cons_of_ne_nil h.nonempty
  have hc := h.letters
  rw [List.all_cons, Bool.and_eq_true] at hc
  exact ⟨c, s ++ rest, rfl, by simpa using hc.1⟩

theorem IsUnit.stops (h : IsUnit name unit) (rest : Bytes) : Stops (name ++ rest) := by
  obtain ⟨c, s, hcons, -, hc⟩ := h.head rest
  rw [hcons]
  intro d hd
  cases hd
  exact hc

/-- What a fraction of a unit comes to is computed exactly. -/
theorem scaled_fraction {f j k : ℕ} (hf : f < 10 ^ j) (hj : j ≤ k) (hk : k ≤ 9) (hunit : unit < 2 ^ 53)
    (hdvd : 10 ^ k ∣ unit) :
    (truncate (roundFloat64 (roundFloat64 f * roundFloat64 ((unit : ℚ) / ((10 ^ j : ℕ) : ℚ))))).toNat =
      f * 10 ^ (k - j) * (unit / 10 ^ k) := by
  obtain ⟨q, rfl⟩ := hdvd
  have hpow : 10 ^ k = 10 ^ j * 10 ^ (k - j) := by rw [← pow_add, Nat.add_sub_cancel' hj]
  have hdiv : ((10 ^ k * q : ℕ) : ℚ) / ((10 ^ j : ℕ) : ℚ) = ((10 ^ (k - j) * q : ℕ) : ℚ) := by
    rw [hpow]
    push_cast
    field_simp
  have hpart : 10 ^ (k - j) * q < 2 ^ 53 := by
    refine lt_of_le_of_lt ?_ hunit
    rw [hpow, mul_assoc]
    exact Nat.le_mul_of_pos_left _ (Nat.pow_pos (by decide))
  have hwhole : f * (10 ^ (k - j) * q) < 2 ^ 53 := by
    refine lt_of_le_of_lt ?_ hunit
    rw [hpow, mul_assoc]
    exact Nat.mul_le_mul_right _ hf.le
  have hsmall : f < 2 ^ 53 := by
    have hle : 10 ^ j ≤ 10 ^ 9 := Nat.pow_le_pow_right (by decide) (hj.trans hk)
    omega
  rw [hdiv, roundFloat64_natCast hsmall, roundFloat64_natCast hpart, ← Nat.cast_mul,
    roundFloat64_natCast hwhole, truncate_natCast, Int.toNat_natCast,
      Nat.mul_div_cancel_left _ (Nat.pow_pos (by decide)), mul_assoc]

/-- What stands after the whole part of a term: the value of the digits after a point, the power of ten
they are over, and the rest. -/
inductive ReadsFraction : Bytes → ℕ → ℕ → Bytes → Prop where
  | whole {c : UInt8} {after : Bytes} (hc : c ≠ 0x2E) : ReadsFraction (c :: after) 0 1 (c :: after)
  | point {digits after : Bytes} {f scale : ℕ}
    (hread : leadingFraction 0 1 false digits = (f, scale, after)) :
    ReadsFraction (0x2E :: digits) f scale after

theorem parseTerms_cons {fuel d n f scale x : ℕ} {bs after : Bytes} (hlead : leadingInt bs = some (n, after))
    (hlt : after.length < bs.length) (hpart : ReadsFraction after f scale (name ++ rest))
    (hname : IsUnit name unit) (hrest : ∀ c ∈ rest.head?, isDigit c = true)
    (hx : (if f = 0 then 0 else
      (truncate (roundFloat64 (roundFloat64 f * roundFloat64 ((unit : ℚ) / (scale : ℚ))))).toNat) = x)
    (hfit : d + (n * unit + x) ≤ 2 ^ 63) :
    parseTerms (fuel + 1) d bs = parseTerms fuel (d + (n * unit + x)) rest := by
  obtain ⟨c, s, rfl⟩ := List.exists_cons_of_ne_nil (List.ne_nil_of_length_pos (by omega : 0 < bs.length))
  have hspan : (name ++ rest).span (fun c ↦ !(c = 0x2E || isDigit c)) = (name, rest) :=
    span_of_stops hname.letters (fun c hc ↦ by simp [hrest c hc])
  have hdiv : ¬ 2 ^ 63 / unit < n := by
    rw [not_lt, Nat.le_div_iff_mul_le hname.pos]
    omega
  have hmod : (d + (n * unit + x)) % 2 ^ 64 = d + (n * unit + x) := Nat.mod_eq_of_lt (by omega)
  have hover : ¬ (2 ^ 63 < n * unit + x ∨ 2 ^ 63 < d + (n * unit + x)) := by omega
  rw [parseTerms, hlead]
  generalize hafter : name ++ rest = tail at hspan hpart
  cases hpart with
  | @whole x after hc =>
    have hother : ∀ digits, x :: after = 0x2E :: digits → False := fun digits h ↦ hc (List.cons.inj h).1
    rw [if_pos rfl] at hx
    subst hx
    simp only [Option.bind_eq_bind, Option.bind_some, hlt, decide_true, Bool.not_true, Bool.false_and,
      Bool.false_eq_true, if_false, if_true, hspan, hname.found, hdiv, hmod, hover, Bool.or_eq_true,
        decide_eq_true_eq]
  | point hread =>
    simp only [Option.bind_eq_bind, Option.bind_some, hlt, decide_true, Bool.not_true, Bool.false_and,
      Bool.false_eq_true, if_false, hread, hspan, hname.found, hdiv, hx, hmod, hover, Bool.or_eq_true,
        decide_eq_true_eq]

theorem readsFraction_digits {ds : Bytes} (hname : IsUnit name unit) (hds : ds.all isDigit = true)
    (hlen : ds.length ≤ 9) :
    ReadsFraction ((if ds = [] then [] else 0x2E :: ds) ++ (name ++ rest)) (digitsValue ds) (10 ^ ds.length)
      (name ++ rest) := by
  split_ifs with hnil
  · subst hnil
    obtain ⟨c, s, hcons, hc, -⟩ := hname.head rest
    rw [hcons]
    exact .whole hc
  · have hfit : (0 + 1) * 10 ^ ds.length ≤ 10 ^ 9 := by
      rw [Nat.zero_add, Nat.one_mul]
      exact Nat.pow_le_pow_right (by decide) hlen
    rw [List.cons_append]
    refine .point ?_
    rw [leadingFraction_digits hds (hname.stops rest) hfit, Nat.one_mul]
    rfl

/-- One term of a duration, and what the others add. -/
theorem Amounts.term {n v k y : ℕ} (h : Amounts rest y) (hname : IsUnit name unit) (hk : k ≤ 9)
    (hdvd : 10 ^ k ∣ unit) (hrest : ∀ c ∈ rest.head?, isDigit c = true) :
    Amounts (decimal n ++ fraction v k ++ name ++ rest) (n * unit + v % 10 ^ k * (unit / 10 ^ k) + y) := by
  intro fuel d hfuel hfit
  obtain ⟨ds, hdigits, hlen, hvalue, htext⟩ := fraction_digits v k
  have hpart : ReadsFraction (fraction v k ++ (name ++ rest)) (digitsValue ds) (10 ^ ds.length)
      (name ++ rest) := by
    rw [htext]
    exact readsFraction_digits hname hdigits (hlen.trans hk)
  have hstops : Stops (fraction v k ++ (name ++ rest)) := by
    rw [htext]
    split_ifs
    · exact hname.stops rest
    · intro x hx
      cases hx
      rfl
  have hlead : leadingInt (decimal n ++ (fraction v k ++ (name ++ rest))) =
      some (n, fraction v k ++ (name ++ rest)) := by
    have hn : n ≤ n * unit := Nat.le_mul_of_pos_right n hname.pos
    exact leadingInt_decimal (by omega) hstops
  have hpos : 0 < (decimal n).length := List.length_pos_of_ne_nil (canonical_decimal n).nonempty
  have hx : (if digitsValue ds = 0 then 0 else (truncate (roundFloat64 (roundFloat64 (digitsValue ds) *
      roundFloat64 ((unit : ℚ) / ((10 ^ ds.length : ℕ) : ℚ))))).toNat) = v % 10 ^ k * (unit / 10 ^ k) := by
    rw [scaled_fraction (digitsValue_lt hdigits) hlen hk hname.exact hdvd, hvalue]
    split_ifs with hzero
    · rw [← hvalue, hzero, Nat.zero_mul, Nat.zero_mul]
    · rfl
  rw [List.append_assoc, List.append_assoc] at hfuel ⊢
  rw [List.length_append, List.length_append, List.length_append] at hfuel
  obtain ⟨fuel, rfl⟩ := Nat.exists_eq_add_of_lt (show 0 < fuel by omega)
  rw [Nat.zero_add, parseTerms_cons hlead (by simp; omega) hpart hname hrest hx (by omega),
    h fuel _ (by omega) (by omega), Nat.add_assoc]

end Terms

section RoundTrip

theorem isUnit_ns : IsUnit "ns" 1 := ⟨by decide, by decide, by decide, by decide, by decide⟩

theorem isUnit_us : IsUnit "µs" (10 ^ 3) := ⟨by decide, by decide, by decide, by decide, by decide⟩

theorem isUnit_ms : IsUnit "ms" (10 ^ 6) := ⟨by decide, by decide, by decide, by decide, by decide⟩

theorem isUnit_s : IsUnit "s" (10 ^ 9) := ⟨by decide, by decide, by decide, by decide, by decide⟩

theorem isUnit_m : IsUnit "m" (60 * 10 ^ 9) := ⟨by decide, by decide, by decide, by decide, by decide⟩

theorem isUnit_h : IsUnit "h" (3600 * 10 ^ 9) := ⟨by decide, by decide, by decide, by decide, by decide⟩

theorem fraction_zero (v : ℕ) : fraction v 0 = [] := by
  rw [fraction, Nat.pow_zero, Nat.mod_one]
  rfl

variable {rest : Bytes} {y : ℕ}

/-- A number of some unit, where no fraction is printed. -/
theorem Amounts.whole (h : Amounts rest y) {name : Bytes} {unit : ℕ} (hname : IsUnit name unit)
    (hrest : ∀ c ∈ rest.head?, isDigit c = true) (n : ℕ) :
    Amounts (decimal n ++ name ++ rest) (n * unit + y) := by
  have hterm := h.term (n := n) (v := 0) hname (Nat.zero_le 9) (one_dvd _) hrest
  rwa [fraction_zero, List.append_nil, Nat.zero_mod, Nat.zero_mul, Nat.add_zero] at hterm

/-- The last term of a duration, with what is left of its unit. -/
theorem amounts_last {name : Bytes} {k : ℕ} (hname : IsUnit name (10 ^ k)) (hk : k ≤ 9) (n u : ℕ) :
    Amounts (decimal n ++ fraction u k ++ name) (n * 10 ^ k + u % 10 ^ k) := by
  have hterm := amounts_nil.term (n := n) (v := u) hname hk dvd_rfl (by simp)
  rwa [List.append_nil, Nat.div_self (Nat.pow_pos (by decide)), Nat.mul_one, Nat.add_zero] at hterm

theorem digit_first (n : ℕ) (rest : Bytes) : ∀ c ∈ (decimal n ++ rest).head?, isDigit c = true := by
  obtain ⟨c, s, hcons, hc⟩ := exists_digit n
  rw [hcons]
  intro x hx
  cases hx
  exact hc

theorem amounts_minutes (m n u : ℕ) :
    Amounts (decimal m ++ ofString "m" ++ (decimal n ++ fraction u 9 ++ ofString "s"))
      (m * (60 * 10 ^ 9) + (n * 10 ^ 9 + u % 10 ^ 9)) := by
  refine (amounts_last isUnit_s le_rfl n u).whole isUnit_m ?_ m
  rw [List.append_assoc]
  exact digit_first n _

theorem amounts_hours (h m n u : ℕ) :
    Amounts (decimal h ++ ofString "h" ++
      (decimal m ++ ofString "m" ++ (decimal n ++ fraction u 9 ++ ofString "s")))
      (h * (3600 * 10 ^ 9) + (m * (60 * 10 ^ 9) + (n * 10 ^ 9 + u % 10 ^ 9))) := by
  refine (amounts_minutes m n u).whole isUnit_h ?_ h
  rw [List.append_assoc]
  exact digit_first m _

theorem durationString_natCast (u : ℕ) : durationString u =
    if u = 0 then decimal 0 ++ ofString "s"
    else if u < 10 ^ 3 then decimal u ++ ofString "ns"
    else if u < 10 ^ 6 then decimal (u / 10 ^ 3) ++ fraction u 3 ++ ofString "µs"
    else if u < 10 ^ 9 then decimal (u / 10 ^ 6) ++ fraction u 6 ++ ofString "ms"
    else (if 0 < u / 10 ^ 9 / 60 / 60 then decimal (u / 10 ^ 9 / 60 / 60) ++ ofString "h" else []) ++
      (if 0 < u / 10 ^ 9 / 60 then decimal (u / 10 ^ 9 / 60 % 60) ++ ofString "m" else []) ++
      decimal (u / 10 ^ 9 % 60) ++ fraction u 9 ++ ofString "s" := by
  have hsign : ¬ (u : ℤ) < 0 := by omega
  have hzero : ofString "0s" = decimal 0 ++ ofString "s" := by decide
  rw [durationString, Int.natAbs_natCast, if_neg hsign, hzero]
  rfl

theorem durationString_of_neg {d : Duration} (hd : d < 0) :
    durationString d = 0x2D :: durationString d.natAbs := by
  have hsign : ¬ (d.natAbs : ℤ) < 0 := by omega
  rw [durationString, if_pos hd, durationString, if_neg hsign, Int.natAbs_natCast]

/-- A duration's text adds up to it. -/
theorem amounts_durationString (u : ℕ) : Amounts (durationString u) u := by
  rw [durationString_natCast]
  split_ifs with hzero hns hus hms hhours hminutes hminutes'
  · subst hzero
    exact amounts_nil.whole isUnit_s (by simp) 0
  · simpa using amounts_nil.whole isUnit_ns (by simp) u
  · have h := amounts_last isUnit_us (by decide) (u / 10 ^ 3) u
    rwa [Nat.div_add_mod'] at h
  · have h := amounts_last isUnit_ms (by decide) (u / 10 ^ 6) u
    rwa [Nat.div_add_mod'] at h
  · have h := amounts_hours (u / 10 ^ 9 / 60 / 60) (u / 10 ^ 9 / 60 % 60) (u / 10 ^ 9 % 60) u
    rw [show u / 10 ^ 9 / 60 / 60 * (3600 * 10 ^ 9) + (u / 10 ^ 9 / 60 % 60 * (60 * 10 ^ 9) +
      (u / 10 ^ 9 % 60 * 10 ^ 9 + u % 10 ^ 9)) = u by omega] at h
    simpa [List.append_assoc] using h
  · omega
  · have h := amounts_minutes (u / 10 ^ 9 / 60 % 60) (u / 10 ^ 9 % 60) u
    rw [show u / 10 ^ 9 / 60 % 60 * (60 * 10 ^ 9) + (u / 10 ^ 9 % 60 * 10 ^ 9 + u % 10 ^ 9) = u by omega] at h
    simpa [List.append_assoc] using h
  · have h := amounts_last isUnit_s le_rfl (u / 10 ^ 9 % 60) u
    rw [show u / 10 ^ 9 % 60 * 10 ^ 9 + u % 10 ^ 9 = u by omega] at h
    simpa [List.append_assoc] using h

/-- Its text starts with a digit and goes on. -/
theorem durationString_cons (u : ℕ) : ∃ c s, durationString u = c :: s ∧ isDigit c = true ∧ s ≠ [] := by
  have hstart (n : ℕ) {tail : Bytes} (htail : tail ≠ []) :
      ∃ c s, decimal n ++ tail = c :: s ∧ isDigit c = true ∧ s ≠ [] := by
    obtain ⟨c, s, hcons, hc⟩ := exists_digit n
    exact ⟨c, s ++ tail, by rw [hcons, List.cons_append], hc, List.append_ne_nil_of_right_ne_nil s htail⟩
  rw [durationString_natCast]
  split_ifs
  · exact hstart 0 isUnit_s.nonempty
  · exact hstart u isUnit_ns.nonempty
  all_goals
    simp only [List.append_assoc, List.nil_append]
    exact hstart _ (by simp [isUnit_s.nonempty, isUnit_us.nonempty, isUnit_ms.nonempty])

theorem parseTerms_durationString {u : ℕ} (hu : u ≤ 2 ^ 63) :
    parseTerms (durationString u).length 0 (durationString u) = some u := by
  rw [amounts_durationString u _ 0 le_rfl (by omega), Nat.zero_add]

theorem parseDuration_signOf (bs : Bytes) : parseDuration bs =
    if (signOf bs).2 = [0x30] then some 0
    else if (signOf bs).2 = [] then none
    else match parseTerms (signOf bs).2.length 0 (signOf bs).2 with
      | none => none
      | some d => if (signOf bs).1 then some (-(d : ℤ)) else if d < 2 ^ 63 then some (d : ℤ) else none := rfl

theorem parseDuration_terms {negative : Bool} {bs s : Bytes} {c : UInt8} {u : ℕ}
    (hsign : signOf bs = (negative, c :: s)) (hs : s ≠ [])
    (hterms : parseTerms (c :: s).length 0 (c :: s) = some u) :
    parseDuration bs = if negative then some (-(u : ℤ)) else if u < 2 ^ 63 then some (u : ℤ) else none := by
  have hsingle : c :: s ≠ [0x30] := fun h ↦ hs (List.cons.inj h).2
  rw [parseDuration_signOf, hsign]
  dsimp only
  rw [if_neg hsingle, if_neg (List.cons_ne_nil c s), hterms]

/-- Every duration is read back from its text. -/
theorem parseDuration_durationString {d : ℤ} (hmin : minDuration ≤ d) (hmax : d ≤ maxDuration) :
    parseDuration (durationString d) = some d := by
  have hmin : -(2 ^ 63 : ℤ) ≤ d := hmin
  have hmax : d ≤ (2 ^ 63 : ℤ) - 1 := hmax
  obtain ⟨c, s, hcons, hc, hs⟩ := durationString_cons d.natAbs
  have hterms := parseTerms_durationString (u := d.natAbs) (by omega)
  rw [hcons] at hterms
  obtain hd | hd := lt_or_ge d 0
  · have hsign : signOf (durationString d) = (true, c :: s) := by
      rw [durationString_of_neg hd, hcons]
      rfl
    rw [parseDuration_terms hsign hs hterms, if_pos rfl, Int.ofNat_natAbs_of_nonpos hd.le, neg_neg]
  · have hsign : signOf (durationString d) = (false, c :: s) := by
      rw [← Int.natAbs_of_nonneg hd, hcons, signOf_digit hc]
    rw [parseDuration_terms hsign hs hterms, if_neg Bool.false_ne_true, Int.natAbs_of_nonneg hd,
      if_pos (by omega)]

theorem durationString_ne_nil (d : Duration) : durationString d ≠ [] := by
  obtain ⟨c, s, hcons, -⟩ := durationString_cons d.natAbs
  obtain hd | hd := lt_or_ge d 0
  · rw [durationString_of_neg hd]
    exact List.cons_ne_nil _ _
  · rw [← Int.natAbs_of_nonneg hd, hcons]
    exact List.cons_ne_nil _ _

theorem parseTerms_le {fuel d x : ℕ} {bs : Bytes} (hd : d ≤ 2 ^ 63) (h : parseTerms fuel d bs = some x) :
    x ≤ 2 ^ 63 := by
  induction fuel generalizing d bs with
  | zero =>
    cases bs with
    | nil =>
      rw [parseTerms] at h
      cases h
      exact hd
    | cons c s => cases h
  | succ fuel ih =>
    cases bs with
    | nil =>
      rw [parseTerms] at h
      cases h
      exact hd
    | cons c s =>
      rw [parseTerms] at h
      simp only [Option.bind_eq_bind, Option.bind_eq_some_iff, Option.ite_none_left_eq_some, Bool.or_eq_true,
        decide_eq_true_eq, not_or, not_lt] at h
      obtain ⟨lead, -, -, unit, -, -, hover, h⟩ := h
      exact ih hover.2 h

theorem parseDuration_range {bs : Bytes} {d : ℤ} (h : parseDuration bs = some d) :
    minDuration ≤ d ∧ d ≤ maxDuration := by
  change -(2 ^ 63 : ℤ) ≤ d ∧ d ≤ (2 ^ 63 : ℤ) - 1
  rw [parseDuration_signOf] at h
  cases hterms : parseTerms (signOf bs).2.length 0 (signOf bs).2 with
  | none =>
    rw [hterms] at h
    split_ifs at h
    cases h
    omega
  | some u =>
    have hle := parseTerms_le (Nat.zero_le _) hterms
    rw [hterms] at h
    dsimp only at h
    split_ifs at h
    all_goals
      cases h
      omega

/-- A duration that was read is read again from its text. -/
theorem parseDuration_again {bs : Bytes} {d : Duration} (h : parseDuration bs = some d) :
    parseDuration (durationString d) = some d :=
  parseDuration_durationString (parseDuration_range h).1 (parseDuration_range h).2

end RoundTrip

section Integers

theorem parseUint_decimal {bits n : ℕ} (hn : n < 2 ^ bits) : parseUint bits (decimal n) = some n := by
  have hcanonical := canonical_decimal n
  rw [parseUint, digitsValue_decimal]
  simp [hcanonical.nonempty, hcanonical.digits, hn]

theorem parseInt_range {bs : Bytes} {n : ℤ} (h : parseInt 64 bs = some n) : -2 ^ 63 ≤ n ∧ n < 2 ^ 63 := by
  rw [parseInt_signOf] at h
  split at h
  · cases h
  · split_ifs at h
    · cases h
      omega
    · cases h
      omega

/-- A number that was read is read again from its text. -/
theorem parseInt_formatInt {n : ℤ} (hlow : -2 ^ 63 ≤ n) (hhigh : n < 2 ^ 63) :
    parseInt 64 (formatInt n) = some n := by
  cases n with
  | ofNat m =>
    have hm : (m : ℤ) < 2 ^ 63 := hhigh
    change parseInt 64 (decimal m) = some (m : ℤ)
    rw [Shell.parseInt_decimal, if_pos (by omega)]
  | negSucc m =>
    have hsign : signOf (0x2D :: decimal (m + 1)) = (true, decimal (m + 1)) := rfl
    rw [formatInt_negSucc, parseInt_signOf, hsign]
    dsimp only
    rw [parseUint_decimal (by omega)]
    dsimp only
    rw [if_pos rfl, if_pos (by omega)]
    rfl

theorem parseInt_again {bs : Bytes} {n : ℤ} (h : parseInt 64 bs = some n) :
    parseInt 64 (formatInt n) = some n :=
  parseInt_formatInt (parseInt_range h).1 (parseInt_range h).2

theorem formatInt_ne_nil (n : ℤ) : formatInt n ≠ [] := by
  cases n with
  | ofNat m => exact (canonical_decimal m).nonempty
  | negSucc m =>
    rw [formatInt_negSucc]
    exact List.cons_ne_nil _ _

end Integers

end OtlpCollectorOidc.Strconv

import OtlpCollectorOidc.Lib.Strconv

namespace OtlpCollectorOidc.Strconv

open Text

def decimal (n : ℕ) : Bytes := ofString (toString n)

def digit (d : ℕ) : UInt8 := UInt8.ofNat (0x30 + d)

theorem ofChars_digitChar : ∀ d < 10, ofChars [Nat.digitChar d] = [digit d] := by decide

theorem isDigit_digit : ∀ d < 10, isDigit (digit d) = true := by decide

theorem toNat_digit : ∀ d < 10, (digit d).toNat - 0x30 = d := by decide

theorem decimal_eq (n : ℕ) : decimal n = ofChars (Nat.toDigits 10 n) := by
  rw [decimal, ofString_eq_ofChars]
  exact congrArg ofChars Nat.toList_repr

theorem decimal_of_lt {d : ℕ} (hd : d < 10) : decimal d = [digit d] := by
  rw [decimal_eq, Nat.toDigits_of_lt_base hd, ofChars_digitChar d hd]

theorem decimal_append {n d : ℕ} (hn : 0 < n) (hd : d < 10) :
    decimal (10 * n + d) = decimal n ++ [digit d] := by
  rw [decimal_eq, ← Nat.toDigits_append_toDigits (by decide) hn hd, ofChars_append, ← decimal_eq,
    ← decimal_eq, decimal_of_lt hd]

/-- A number's text has one digit, or one more than that of its tenth. -/
theorem decimal_induction {P : ℕ → Prop} (one : ∀ d < 10, P d)
    (more : ∀ n d, 0 < n → d < 10 → P n → P (10 * n + d)) (n : ℕ) : P n := by
  induction n using Nat.strong_induction_on with
  | _ n ih =>
    obtain hn | hn := Nat.lt_or_ge n 10
    · exact one n hn
    · have hsplit : 10 * (n / 10) + n % 10 = n := Nat.div_add_mod n 10
      rw [← hsplit]
      exact more (n / 10) (n % 10) (by omega) (Nat.mod_lt n (by decide)) (ih (n / 10) (by omega))

theorem digitsValue_append (ds : Bytes) (d : UInt8) :
    digitsValue (ds ++ [d]) = 10 * digitsValue ds + (d.toNat - 0x30) := by
  rw [digitsValue, List.foldl_append]
  rfl

/-- Digits that are the text of some number: there is one, and no zero leads. -/
structure Canonical (ds : Bytes) : Prop where
  nonempty : ds ≠ []
  digits : ds.all isDigit = true
  leading : ds.head? = some 0x30 → ds = [0x30]

theorem digitsValue_decimal (n : ℕ) : digitsValue (decimal n) = n := by
  induction n using decimal_induction with
  | one d hd =>
    rw [decimal_of_lt hd]
    exact (Nat.zero_add _).trans (toNat_digit d hd)
  | more n d hn hd ih => rw [decimal_append hn hd, digitsValue_append, ih, toNat_digit d hd]

theorem decimal_injective : Function.Injective decimal :=
  Function.LeftInverse.injective digitsValue_decimal

theorem canonical_decimal (n : ℕ) : Canonical (decimal n) := by
  induction n using decimal_induction with
  | one d hd =>
    rw [decimal_of_lt hd]
    exact ⟨List.cons_ne_nil _ _, by simp [isDigit_digit d hd],
      fun h ↦ congrArg (fun c ↦ [c]) (Option.some.inj h)⟩
  | more n d hn hd ih =>
    rw [decimal_append hn hd]
    refine ⟨by simp, by simp [List.all_append, ih.digits, isDigit_digit d hd], fun h ↦ ?_⟩
    rw [List.head?_append_of_ne_nil _ ih.nonempty] at h
    have hzero : decimal n = decimal 0 := ih.leading h
    exact absurd (decimal_injective hzero) (by omega)

theorem exists_digit (n : ℕ) : ∃ c cs, decimal n = c :: cs ∧ isDigit c = true := by
  obtain ⟨c, cs, hcons⟩ := List.exists_cons_of_ne_nil (canonical_decimal n).nonempty
  have hdigits := (canonical_decimal n).digits
  rw [hcons] at hdigits
  exact ⟨c, cs, hcons, (Bool.and_eq_true_iff.mp hdigits).1⟩

theorem ne_of_mem_decimal {c x : UInt8} {n : ℕ} (hc : c ∈ decimal n) (hx : isDigit x = false) : c ≠ x := by
  rintro rfl
  rw [List.all_eq_true.mp (canonical_decimal n).digits c hc] at hx
  cases hx

theorem formatInt_negSucc (m : ℕ) : formatInt (Int.negSucc m) = 0x2D :: decimal (m + 1) := by
  have htext : toString (Int.negSucc m) = "-" ++ toString (m + 1) := rfl
  rw [formatInt, htext, decimal, ofString_eq_ofChars, ofString_eq_ofChars,
    String.toList_append, ofChars_append]
  rfl

/-- Only the number itself is printed as digits alone. -/
theorem eq_of_formatInt_eq_decimal {z : ℤ} {n : ℕ} (h : formatInt z = decimal n) : z = n := by
  cases z with
  | ofNat m => exact congrArg Int.ofNat (decimal_injective h)
  | negSucc m =>
    rw [formatInt_negSucc] at h
    have hdigits := (canonical_decimal n).digits
    rw [← h] at hdigits
    cases hdigits

end OtlpCollectorOidc.Strconv

import OtlpCollectorOidc.Lib.Decimal

namespace OtlpCollectorOidc.Strconv

open Text

def digitOf (c : UInt8) : Option ℕ :=
  if isDigit c then some (c.toNat - 0x30)
  else if 0x61 ≤ c && c ≤ 0x7A then some (c.toNat - 0x61 + 10)
  else if 0x41 ≤ c && c ≤ 0x5A then some (c.toNat - 0x41 + 10)
  else none

/-- The digits at the head of a text in some base, after those that made `n`, and what follows them. -/
def readDigits (base n : ℕ) : Bytes → ℕ × Bytes
  | [] => (n, [])
  | c :: cs =>
    match digitOf c with
    | some d => if d < base then readDigits base (base * n + d) cs else (n, c :: cs)
    | none => (n, c :: cs)

/-- The base a literal's prefix stands for, and its digits. -/
def baseZero : Bytes → ℕ × Bytes
  | 0x30 :: c :: d :: rest =>
    if c = 0x62 || c = 0x42 then (2, d :: rest)
    else if c = 0x6F || c = 0x4F then (8, d :: rest)
    else if c = 0x78 || c = 0x58 then (16, d :: rest)
    else (8, c :: d :: rest)
  | 0x30 :: rest => (8, rest)
  | bs => (10, bs)

/-- Whether a minus sign leads, and what follows the sign. -/
def signOf (bs : Bytes) : Bool × Bytes :=
  match bs with
  | 0x2D :: rest => (true, rest)
  | 0x2B :: rest => (false, rest)
  | _ => (false, bs)

/-- `strconv.ParseInt` in base zero, of a text without underscores. -/
def parseIntBaseZero (bits : ℕ) (bs : Bytes) : Option ℤ :=
  let (negative, literal) := signOf bs
  if literal = [] then none
  else
    let (base, digits) := baseZero literal
    match readDigits base 0 digits with
    | (n, []) =>
      if negative then (if n ≤ 2 ^ (bits - 1) then some (-n) else none)
      else if n < 2 ^ (bits - 1) then some n else none
    | _ => none

def valueFrom (n : ℕ) (ds : Bytes) : ℕ := ds.foldl (fun n d ↦ 10 * n + (d.toNat - 0x30)) n

/-- The whole number that `strconv.ParseFloat` gives for digits alone, up to where the floats get
sparser than the whole numbers. -/
def parseWholeFloat (bs : Bytes) : Option ℤ :=
  let (negative, ds) := signOf bs
  if ds = [] || !ds.all isDigit || 2 ^ 53 < valueFrom 0 ds then none
  else some (if negative then -(valueFrom 0 ds : ℤ) else valueFrom 0 ds)

theorem digitOf_of_isDigit {c : UInt8} (h : isDigit c = true) : digitOf c = some (c.toNat - 0x30) := if_pos h

theorem isDigit_bound {c : UInt8} (h : isDigit c = true) : 0x30 ≤ c.toNat ∧ c.toNat ≤ 0x39 := by
  simpa only [isDigit, Bool.and_eq_true, decide_eq_true_eq, UInt8.le_iff_toNat_le, UInt8.reduceToNat] using h

section Digits

variable {ds : Bytes} (hds : ds.all isDigit = true)
include hds

theorem readDigits_ten (n : ℕ) : readDigits 10 n ds = (valueFrom n ds, []) := by
  induction ds generalizing n with
  | nil => rfl
  | cons c ds ih =>
    rw [List.all_cons, Bool.and_eq_true] at hds
    have hc := isDigit_bound hds.1
    simp only [readDigits, digitOf_of_isDigit hds.1]
    rw [if_pos (by omega), ih hds.2]
    rfl

/-- Digits that can be read in base eight are worth no more there than in base ten, and less when
anything stands before them. -/
theorem readDigits_eight {a b : ℕ} (hab : a ≤ b) (hrest : (readDigits 8 a ds).2 = []) :
    (readDigits 8 a ds).1 ≤ valueFrom b ds ∧ (a < b → (readDigits 8 a ds).1 < valueFrom b ds) := by
  induction ds generalizing a b with
  | nil => exact ⟨hab, id⟩
  | cons c ds ih =>
    rw [List.all_cons, Bool.and_eq_true] at hds
    simp only [readDigits, digitOf_of_isDigit hds.1] at hrest ⊢
    split_ifs at hrest ⊢ with hc
    obtain ⟨hle, hlt⟩ :=
      ih hds.2 (a := 8 * a + (c.toNat - 0x30)) (b := 10 * b + (c.toNat - 0x30)) (by omega) hrest
    exact ⟨hle, fun h ↦ hlt (by omega)⟩

/-- Digits can be read in base eight to their end where none of them is an eight or a nine. -/
theorem readDigits_eight_rest (n : ℕ) : (readDigits 8 n ds).2 = [] ↔ ∀ d ∈ ds, d ≠ 0x38 ∧ d ≠ 0x39 := by
  induction ds generalizing n with
  | nil => simp [readDigits]
  | cons c ds ih =>
    rw [List.all_cons, Bool.and_eq_true] at hds
    have hbound := isDigit_bound hds.1
    have hoctal : c.toNat - 0x30 < 8 ↔ c ≠ 0x38 ∧ c ≠ 0x39 := by
      rw [Ne, Ne, ← UInt8.toNat_inj, ← UInt8.toNat_inj, show (0x38 : UInt8).toNat = 0x38 from rfl,
        show (0x39 : UInt8).toNat = 0x39 from rfl]
      omega
    simp only [readDigits, digitOf_of_isDigit hds.1, List.forall_mem_cons, ← hoctal]
    split_ifs with hc
    · rw [ih hds.2]
      exact (and_iff_right hc).symm
    · simp [hc]

/-- After a first digit other than zero, a second one already tells the bases apart. -/
theorem readDigits_eight_lt {a : ℕ} (ha : 0 < a) (hne : ds ≠ []) (hrest : (readDigits 8 a ds).2 = []) :
    (readDigits 8 a ds).1 < valueFrom a ds := by
  obtain ⟨c, cs, rfl⟩ := List.exists_cons_of_ne_nil hne
  rw [List.all_cons, Bool.and_eq_true] at hds
  simp only [readDigits, digitOf_of_isDigit hds.1] at hrest ⊢
  split_ifs at hrest ⊢ with hc
  have hlt : 8 * a + (c.toNat - 0x30) < 10 * a + (c.toNat - 0x30) := by omega
  exact (readDigits_eight hds.2 hlt.le hrest).2 hlt

end Digits

theorem readDigits_zeros {base : ℕ} (hbase : 0 < base) (k : ℕ) (ds : Bytes) :
    readDigits base 0 (List.replicate k 0x30 ++ ds) = readDigits base 0 ds := by
  induction k with
  | zero => rfl
  | succ k ih =>
    rw [List.replicate_succ, List.cons_append, readDigits]
    simp only [show digitOf 0x30 = some 0 from rfl, hbase, if_true]
    exact ih

theorem valueFrom_zeros (k : ℕ) (ds : Bytes) :
    valueFrom 0 (List.replicate k 0x30 ++ ds) = valueFrom 0 ds := by
  induction k with
  | zero => rfl
  | succ k ih => exact ih

/-- Zeros before a single digit from one to seven. -/
def ZeroPadded (ds : Bytes) : Prop :=
  ∃ k d, ds = List.replicate k 0x30 ++ [d] ∧ 0x31 ≤ d.toNat ∧ d.toNat ≤ 0x37

theorem exists_leading {ds : Bytes} (hpos : 0 < valueFrom 0 ds) :
    ∃ k c cs, ds = List.replicate k 0x30 ++ c :: cs ∧ c ≠ 0x30 := by
  induction ds with
  | nil => exact absurd hpos (by decide)
  | cons c ds ih =>
    by_cases hc : c = 0x30
    · subst hc
      obtain ⟨k, d, cs, hds, hd⟩ := ih hpos
      exact ⟨k + 1, d, cs, by rw [hds]; rfl, hd⟩
    · exact ⟨0, c, ds, rfl, hc⟩

/-- Digits of a number above zero are worth the same in base eight as in base ten only where they are
one digit. -/
theorem readDigits_eight_eq_iff {ds : Bytes} (hds : ds.all isDigit = true) (hpos : 0 < valueFrom 0 ds) :
    readDigits 8 0 ds = (valueFrom 0 ds, []) ↔ ZeroPadded ds := by
  constructor
  · intro h
    obtain ⟨k, c, cs, rfl, hc⟩ := exists_leading hpos
    rw [List.all_append, List.all_cons, Bool.and_eq_true, Bool.and_eq_true] at hds
    have hbound := isDigit_bound hds.2.1
    have hne : c.toNat ≠ 0x30 := fun h ↦ hc (UInt8.toNat_inj.mp h)
    rw [readDigits_zeros (by decide), valueFrom_zeros, readDigits, digitOf_of_isDigit hds.2.1] at h
    dsimp only at h
    split_ifs at h with hlt
    · have hcs : cs = [] := by
        by_contra hcs
        have hless := readDigits_eight_lt hds.2.2 (a := 8 * 0 + (c.toNat - 0x30)) (by omega) hcs (by rw [h])
        rw [h] at hless
        exact absurd hless (lt_irrefl _)
      exact ⟨k, c, by rw [hcs], by omega, by omega⟩
    · exact absurd (congrArg Prod.snd h) (List.cons_ne_nil c cs)
  · rintro ⟨k, d, rfl, hlow, hhigh⟩
    rw [List.all_append, List.all_cons, Bool.and_eq_true, Bool.and_eq_true] at hds
    rw [readDigits_zeros (by decide), valueFrom_zeros, readDigits, digitOf_of_isDigit hds.2.1]
    dsimp only
    rw [if_pos (by omega)]
    rfl

/-- The digits of a number that reads as a positive one, after a plus sign or none. -/
structure Positive (bs ds : Bytes) : Prop where
  sign : bs = ds ∨ bs = 0x2B :: ds
  digits : ds.all isDigit = true
  pos : 0 < valueFrom 0 ds
  fits : valueFrom 0 ds < 2 ^ 63

theorem Positive.cons {bs ds : Bytes} (h : Positive bs ds) : ∃ c cs, ds = c :: cs ∧ isDigit c = true := by
  cases ds with
  | nil => exact absurd h.pos (by decide)
  | cons c cs => exact ⟨c, cs, rfl, (Bool.and_eq_true_iff.mp h.digits).1⟩

theorem parseUint_eq_some {bits n : ℕ} {bs : Bytes} (h : parseUint bits bs = some n) :
    bs.all isDigit = true ∧ n = valueFrom 0 bs := by
  unfold parseUint at h
  split_ifs at h with hb
  simp only [Bool.and_eq_true] at hb
  exact ⟨hb.1.2, (Option.some.inj h).symm⟩

theorem signOf_positive (bs : Bytes) :
    (signOf bs).1 = true ∨ (signOf bs).1 = false ∧ (bs = (signOf bs).2 ∨ bs = 0x2B :: (signOf bs).2) := by
  unfold signOf
  split
  · exact Or.inl rfl
  · exact Or.inr ⟨rfl, Or.inr rfl⟩
  · exact Or.inr ⟨rfl, Or.inl rfl⟩

theorem signOf_digit {c : UInt8} (hc : isDigit c = true) (cs : Bytes) :
    signOf (c :: cs) = (false, c :: cs) := by
  have hminus : c ≠ 0x2D := by
    rintro rfl
    cases hc
  have hplus : c ≠ 0x2B := by
    rintro rfl
    cases hc
  unfold signOf
  simp [hminus, hplus]

theorem Positive.signOf {bs ds : Bytes} (h : Positive bs ds) : Strconv.signOf bs = (false, ds) := by
  obtain ⟨c, cs, rfl, hc⟩ := h.cons
  obtain rfl | rfl := h.sign
  · exact signOf_digit hc cs
  · rfl

theorem parseInt_signOf (bs : Bytes) : parseInt 64 bs = match parseUint 64 (signOf bs).2 with
    | none => none
    | some m =>
      if (signOf bs).1 then (if m ≤ 2 ^ 63 then some (-(m : ℤ)) else none)
      else if m < 2 ^ 63 then some (m : ℤ) else none := rfl

theorem positive_of_parseInt {bs : Bytes} {n : ℤ} (h : parseInt 64 bs = some n) (hn : 0 < n) :
    ∃ ds, Positive bs ds ∧ n = valueFrom 0 ds := by
  rw [parseInt_signOf] at h
  split at h
  · cases h
  · rename_i m hm
    obtain ⟨hdigits, rfl⟩ := parseUint_eq_some hm
    obtain hminus | ⟨hplus, hsign⟩ := signOf_positive bs
    · rw [if_pos hminus] at h
      split_ifs at h
      cases h
      omega
    · rw [hplus, if_neg Bool.false_ne_true] at h
      split_ifs at h with hfits
      cases h
      exact ⟨(signOf bs).2, ⟨hsign, hdigits, by omega, hfits⟩, rfl⟩

theorem baseZero_zero {ds : Bytes} (hds : ds.all isDigit = true) : baseZero (0x30 :: ds) = (8, ds) := by
  match ds with
  | [] => rfl
  | [_] => rfl
  | c :: d :: ds =>
    rw [List.all_cons, Bool.and_eq_true] at hds
    have hletter : ∀ {x : UInt8}, isDigit x = false → c ≠ x := by
      rintro x hx rfl
      rw [hds.1] at hx
      cases hx
    simp [baseZero, hletter (x := 0x62) rfl, hletter (x := 0x42) rfl, hletter (x := 0x6F) rfl,
      hletter (x := 0x4F) rfl, hletter (x := 0x78) rfl, hletter (x := 0x58) rfl]

theorem baseZero_of_ne {ds : Bytes} (hds : ds.head? ≠ some 0x30) : baseZero ds = (10, ds) := by
  unfold baseZero
  split
  · exact absurd rfl hds
  · exact absurd rfl hds
  · rfl

theorem Positive.ne_nil {bs ds : Bytes} (h : Positive bs ds) : ds ≠ [] := by
  rintro rfl
  exact absurd h.pos (by decide)

section BaseZero

variable {bs ds : Bytes} (h : Positive bs ds)
include h

theorem parseIntBaseZero_positive :
    parseIntBaseZero 64 bs = match readDigits (baseZero ds).1 0 (baseZero ds).2 with
      | (n, []) => if n < 2 ^ 63 then some (n : ℤ) else none
      | _ => none := by
  unfold parseIntBaseZero
  rw [h.signOf]
  exact if_neg h.ne_nil

theorem parseIntBaseZero_plain (hzero : ds.head? ≠ some 0x30) :
    parseIntBaseZero 64 bs = some ↑(valueFrom 0 ds) := by
  rw [parseIntBaseZero_positive h, baseZero_of_ne hzero, readDigits_ten h.digits]
  exact if_pos h.fits

/-- A zero makes it octal: the value can only be less, and there is none where a digit is too large. -/
theorem parseIntBaseZero_zero (hzero : ds.head? = some 0x30) :
    parseIntBaseZero 64 bs = if (readDigits 8 0 ds).2 = [] then some ↑(readDigits 8 0 ds).1 else none := by
  obtain ⟨cs, rfl⟩ : ∃ cs, ds = 0x30 :: cs := by
    obtain ⟨c, cs, rfl⟩ := List.exists_cons_of_ne_nil h.ne_nil
    exact ⟨cs, by rw [Option.some.inj hzero]⟩
  have hread : readDigits 8 0 (0x30 :: cs) = readDigits 8 0 cs := readDigits_zeros (by decide) 1 cs
  have hfits := h.fits
  have hle := readDigits_eight h.digits (a := 0) (b := 0) le_rfl
  rw [parseIntBaseZero_positive h, baseZero_zero (Bool.and_eq_true_iff.mp h.digits).2, ← hread]
  rcases hdigits : readDigits 8 0 (0x30 :: cs) with ⟨n, _ | ⟨c, rest⟩⟩
  · rw [hdigits] at hle
    exact if_pos ((hle rfl).1.trans_lt hfits)
  · rfl

/-- A positive number is the same in base zero exactly when no zero leads it, or it is a single octal
digit. -/
theorem parseIntBaseZero_eq_iff :
    parseIntBaseZero 64 bs = some ↑(valueFrom 0 ds) ↔ ds.head? ≠ some 0x30 ∨ ZeroPadded ds := by
  by_cases hzero : ds.head? = some 0x30
  · rw [parseIntBaseZero_zero h hzero, ← readDigits_eight_eq_iff h.digits h.pos, Prod.ext_iff]
    simp [hzero, and_comm]
  · exact iff_of_true (parseIntBaseZero_plain h hzero) (Or.inl hzero)

/-- It is none where a zero leads and a digit is no octal one. -/
theorem parseIntBaseZero_eq_none_iff :
    parseIntBaseZero 64 bs = none ↔ ds.head? = some 0x30 ∧ ∃ d ∈ ds, d = 0x38 ∨ d = 0x39 := by
  by_cases hzero : ds.head? = some 0x30
  · have hrest := readDigits_eight_rest h.digits 0
    simp only [parseIntBaseZero_zero h hzero, hrest, ite_eq_right_iff, reduceCtorEq, imp_false,
      hzero, true_and]
    push Not
    simp only [imp_iff_not_or, not_not]
  · simp [parseIntBaseZero_plain h hzero, hzero]

theorem parseWholeFloat_positive (hexact : valueFrom 0 ds ≤ 2 ^ 53) :
    parseWholeFloat bs = some ↑(valueFrom 0 ds) := by
  have hrange : ¬ 2 ^ 53 < valueFrom 0 ds := by omega
  simp only [parseWholeFloat, h.signOf, h.ne_nil, h.digits, hrange]
  rfl

end BaseZero

end OtlpCollectorOidc.Strconv

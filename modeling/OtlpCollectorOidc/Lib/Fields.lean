import OtlpCollectorOidc.Lib.Text

namespace OtlpCollectorOidc.Text

section Split

variable {α : Type} {p : α → Bool}

/-- A stretch of a list with a separator, or nothing, on either side of it. -/
def Stands (p : α → Bool) (xs l : List α) : Prop :=
  ∃ a b, l = a ++ xs ++ b ∧ (∀ x ∈ a.getLast?, p x = true) ∧ ∀ x ∈ b.head?, p x = true

/-- The first part of a split begins the list, and every other follows a separator. -/
theorem splitOnP_parts {l h : List α} {t : List (List α)} (hl : l.splitOnP p = h :: t) :
    ((∀ x ∈ h, p x = false) ∧ ∃ b, l = h ++ b ∧ ∀ x ∈ b.head?, p x = true) ∧
    ∀ xs ∈ t, (∀ x ∈ xs, p x = false) ∧ ∃ a x b, l = a ++ x :: (xs ++ b) ∧ p x = true ∧
      ∀ y ∈ b.head?, p y = true := by
  induction l generalizing h t with
  | nil =>
    cases hl
    exact ⟨⟨by simp, [], rfl, by simp⟩, by simp⟩
  | cons y l ih =>
    obtain ⟨h', t', hl'⟩ := List.exists_cons_of_ne_nil (List.splitOnP_ne_nil p l)
    obtain ⟨⟨hno, b, hb, hsep⟩, htail⟩ := ih hl'
    rw [List.splitOnP_cons_eq_if_modifyHead, hl'] at hl
    split_ifs at hl with hy
    · cases hl
      refine ⟨⟨by simp, y :: l, rfl, by simpa using hy⟩, ?_⟩
      intro xs hxs
      obtain rfl | hxs := List.mem_cons.mp hxs
      · exact ⟨hno, [], y, b, by rw [hb]; rfl, hy, hsep⟩
      · obtain ⟨hno', a, x, b', hl'', hx, hsep'⟩ := htail xs hxs
        exact ⟨hno', y :: a, x, b', by rw [hl'']; rfl, hx, hsep'⟩
    · cases hl
      refine ⟨⟨?_, b, by rw [hb]; rfl, hsep⟩, ?_⟩
      · intro x hx
        obtain rfl | hx := List.mem_cons.mp hx
        · exact Bool.eq_false_iff.mpr hy
        · exact hno x hx
      · intro xs hxs
        obtain ⟨hno', a, x, b', hl'', hx, hsep'⟩ := htail xs hxs
        exact ⟨hno', y :: a, x, b', by rw [hl'']; rfl, hx, hsep'⟩

theorem mem_splitOnP_append {xs b : List α} (h : ∀ x ∈ xs, p x = false) (hb : ∀ x ∈ b.head?, p x = true) :
    xs ∈ (xs ++ b).splitOnP p := by
  cases b with
  | nil =>
    rw [List.append_nil, List.splitOnP_eq_singleton h]
    exact List.mem_singleton_self xs
  | cons y b =>
    rw [List.splitOnP_append_cons xs b (hb y rfl), List.splitOnP_eq_singleton h]
    exact List.mem_cons_self

/-- The parts of a split are the stretches without a separator that stand between separators. -/
theorem mem_splitOnP_iff {xs l : List α} : xs ∈ l.splitOnP p ↔ (∀ x ∈ xs, p x = false) ∧ Stands p xs l := by
  constructor
  · intro hxs
    obtain ⟨h, t, hl⟩ := List.exists_cons_of_ne_nil (List.splitOnP_ne_nil p l)
    obtain ⟨⟨hno, b, hb, hsep⟩, htail⟩ := splitOnP_parts hl
    rw [hl] at hxs
    obtain rfl | hxs := List.mem_cons.mp hxs
    · exact ⟨hno, [], b, by rw [hb]; rfl, by simp, hsep⟩
    · obtain ⟨hno', a, x, b', hl', hx, hsep'⟩ := htail xs hxs
      exact ⟨hno', a ++ [x], b', by simp [hl'], by simpa using hx, hsep'⟩
  · rintro ⟨hno, a, b, rfl, ha, hb⟩
    rcases List.eq_nil_or_concat a with rfl | ⟨a, x, rfl⟩
    · exact mem_splitOnP_append hno hb
    · have hx : p x = true := ha x (by simp)
      rw [List.concat_eq_append, List.append_assoc, List.append_assoc, List.singleton_append,
        List.splitOnP_append_cons a (xs ++ b) hx]
      exact List.mem_append_right _ (mem_splitOnP_append hno hb)

theorem notMem_of_mem_splitOn {sep : UInt8} {bs item : Bytes} (h : item ∈ bs.splitOn sep) : sep ∉ item := by
  intro hmem
  have hno := (mem_splitOnP_iff.mp h).1 sep hmem
  simp at hno

theorem mem_of_mem_splitOn {sep b : UInt8} {bs item : Bytes} (h : item ∈ bs.splitOn sep)
    (hb : b ∈ item) : b ∈ bs := by
  obtain ⟨before, after, rfl, _⟩ := (mem_splitOnP_iff.mp h).2
  simp [hb]

end Split

section Decode

theorem isTail_iff {b : UInt8} : isTail b = true ↔ 0x80 ≤ b.toNat ∧ b.toNat ≤ 0xBF := by
  simp [isTail, UInt8.le_iff_toNat_le]

theorem isTail_of_range {b low high : UInt8} (hl : 0x80 ≤ low.toNat) (hh : high.toNat ≤ 0xBF) (h : low ≤ b)
    (h' : b ≤ high) :
    isTail b = true := by
  rw [UInt8.le_iff_toNat_le] at h h'
  exact isTail_iff.mpr ⟨hl.trans h, h'.trans hh⟩

section Append

variable {b : UInt8} (hb : isTail b = false) (x : UInt8) (xs ys : Bytes)
include hb

theorem decodeTwo_append : decodeTwo (x :: xs ++ b :: ys) = decodeTwo (x :: xs) := by
  cases xs with
  | nil => simp [decodeTwo, hb]
  | cons y xs => rfl

theorem decodeThree_append : decodeThree (x :: xs ++ b :: ys) = decodeThree (x :: xs) := by
  match xs with
  | [] =>
    cases ys with
    | nil => rfl
    | cons c ys =>
      have hno : ¬ ((if x = 0xE0 then 0xA0 else 0x80 : UInt8) ≤ b ∧
          b ≤ (if x = 0xED then 0x9F else 0xBF : UInt8)) := by
        rintro ⟨hlow, hhigh⟩
        have htail := isTail_of_range (by split_ifs <;> decide) (by split_ifs <;> decide) hlow hhigh
        cases hb.symm.trans htail
      simp only [decodeThree, List.cons_append, List.nil_append]
      rw [if_neg]
      simp only [Bool.and_eq_true, decide_eq_true_eq]
      intro h
      exact hno ⟨h.1.1.2, h.1.2⟩
  | [y] => simp [decodeThree, hb]
  | y :: z :: xs => rfl

theorem decodeFour_append : decodeFour (x :: xs ++ b :: ys) = decodeFour (x :: xs) := by
  match xs with
  | [] =>
    match ys with
    | [] => rfl
    | [_] => rfl
    | c :: d :: ys =>
      have hno : ¬ ((if x = 0xF0 then 0x90 else 0x80 : UInt8) ≤ b ∧
          b ≤ (if x = 0xF4 then 0x8F else 0xBF : UInt8)) := by
        rintro ⟨hlow, hhigh⟩
        have htail := isTail_of_range (by split_ifs <;> decide) (by split_ifs <;> decide) hlow hhigh
        cases hb.symm.trans htail
      simp only [decodeFour, List.cons_append, List.nil_append]
      rw [if_neg]
      simp only [Bool.and_eq_true, decide_eq_true_eq]
      intro h
      exact hno ⟨h.1.1.1.2, h.1.1.2⟩
  | [y] =>
    cases ys with
    | nil => rfl
    | cons d ys => simp [decodeFour, hb]
  | [y, z] => simp [decodeFour, hb]
  | y :: z :: w :: xs => rfl

end Append

/-- Decoding never looks past a byte that continues no character. -/
theorem decodeRune_append {b : UInt8} (hb : isTail b = false) (x : UInt8) (xs ys : Bytes) :
    decodeRune (x :: xs ++ b :: ys) = decodeRune (x :: xs) := by
  rw [decodeRune, decodeRune, decodeTwo_append hb, decodeThree_append hb, decodeFour_append hb]
  rfl

theorem toNat_ofNat {n : ℕ} (h : n < 0xD800 ∨ 0xDFFF < n ∧ n < 0x110000) : (Char.ofNat n).toNat = n := by
  have hv : n.isValidChar := h
  rw [Char.ofNat, dif_pos hv]
  rfl

theorem utf8EncodeChar_two {x y : UInt8} (hx : 0xC2 ≤ x.toNat ∧ x.toNat ≤ 0xDF)
    (hy : 0x80 ≤ y.toNat ∧ y.toNat ≤ 0xBF) :
    String.utf8EncodeChar (Char.ofNat ((x.toNat - 0xC0) * 64 + (y.toNat - 0x80))) = [x, y] := by
  have hn := toNat_ofNat (n := (x.toNat - 0xC0) * 64 + (y.toNat - 0x80)) (by omega)
  unfold String.utf8EncodeChar
  simp only [show (Char.ofNat ((x.toNat - 0xC0) * 64 + (y.toNat - 0x80))).val.toNat = _ from hn]
  rw [if_neg (by omega), if_pos (by omega)]
  simp only [List.cons.injEq, and_true, ← UInt8.toNat_inj, UInt8.toNat_ofNat']
  omega

theorem utf8EncodeChar_three {x y z : UInt8} (hx : 0xE0 ≤ x.toNat ∧ x.toNat ≤ 0xEF)
    (hy : (if x.toNat = 0xE0 then 0xA0 else 0x80) ≤ y.toNat ∧ y.toNat ≤ if x.toNat = 0xED then 0x9F else 0xBF)
    (hz : 0x80 ≤ z.toNat ∧ z.toNat ≤ 0xBF) :
    String.utf8EncodeChar (Char.ofNat (((x.toNat - 0xE0) * 64 + (y.toNat - 0x80)) * 64 + (z.toNat - 0x80))) =
      [x, y, z] := by
  have hn := toNat_ofNat (n := ((x.toNat - 0xE0) * 64 + (y.toNat - 0x80)) * 64 + (z.toNat - 0x80))
    (by split_ifs at hy <;> omega)
  unfold String.utf8EncodeChar
  simp only [show (Char.ofNat
    (((x.toNat - 0xE0) * 64 + (y.toNat - 0x80)) * 64 + (z.toNat - 0x80))).val.toNat = _ from hn]
  rw [if_neg (by split_ifs at hy <;> omega), if_neg (by split_ifs at hy <;> omega),
    if_pos (by split_ifs at hy <;> omega)]
  simp only [List.cons.injEq, and_true, ← UInt8.toNat_inj, UInt8.toNat_ofNat']
  split_ifs at hy <;> omega

theorem utf8EncodeChar_four {x y z w : UInt8} (hx : 0xF0 ≤ x.toNat ∧ x.toNat ≤ 0xF4)
    (hy : (if x.toNat = 0xF0 then 0x90 else 0x80) ≤ y.toNat ∧ y.toNat ≤ if x.toNat = 0xF4 then 0x8F else 0xBF)
    (hz : 0x80 ≤ z.toNat ∧ z.toNat ≤ 0xBF) (hw : 0x80 ≤ w.toNat ∧ w.toNat ≤ 0xBF) :
    String.utf8EncodeChar (Char.ofNat
      ((((x.toNat - 0xF0) * 64 + (y.toNat - 0x80)) * 64 + (z.toNat - 0x80)) * 64 +
      (w.toNat - 0x80))) = [x, y, z, w] := by
  have hn :=
    toNat_ofNat (n := (((x.toNat - 0xF0) * 64 + (y.toNat - 0x80)) * 64 + (z.toNat - 0x80)) * 64 +
      (w.toNat - 0x80))
    (by split_ifs at hy <;> omega)
  unfold String.utf8EncodeChar
  simp only [show (Char.ofNat ((((x.toNat - 0xF0) * 64 + (y.toNat - 0x80)) * 64 + (z.toNat - 0x80)) * 64 +
    (w.toNat - 0x80))).val.toNat = _ from hn]
  rw [if_neg (by split_ifs at hy <;> omega), if_neg (by split_ifs at hy <;> omega),
    if_neg (by split_ifs at hy <;> omega)]
  simp only [List.cons.injEq, and_true, ← UInt8.toNat_inj, UInt8.toNat_ofNat']
  split_ifs at hy <;> omega

section Encoded

variable {c : Char} {bs : Bytes}

theorem decodeOne_eq_some (h : decodeOne bs = some c) : ∃ rest, bs = String.utf8EncodeChar c ++ rest := by
  match bs with
  | x :: rest =>
    rw [decodeOne] at h
    split_ifs at h with hx
    rw [Option.some_inj] at h
    subst h
    rw [UInt8.lt_iff_toNat_lt] at hx
    have hn : (Char.ofNat x.toNat).toNat = x.toNat := toNat_ofNat (Or.inl (hx.trans (by decide)))
    have hlt : (Char.ofNat x.toNat).toNat < 0x80 := hn.trans_lt hx
    exact ⟨rest, by rw [utf8EncodeChar_ascii hn.symm hlt]; rfl⟩

theorem decodeTwo_eq_some (h : decodeTwo bs = some c) : ∃ rest, bs = String.utf8EncodeChar c ++ rest := by
  match bs with
  | x :: y :: rest =>
    rw [decodeTwo] at h
    split_ifs at h with hxy
    rw [Option.some_inj] at h
    subst h
    simp only [Bool.and_eq_true, decide_eq_true_eq, UInt8.le_iff_toNat_le, isTail_iff] at hxy
    exact ⟨rest, by rw [utf8EncodeChar_two hxy.1 hxy.2]; rfl⟩

theorem decodeThree_eq_some (h : decodeThree bs = some c) : ∃ rest, bs = String.utf8EncodeChar c ++ rest := by
  match bs with
  | x :: y :: z :: rest =>
    simp only [decodeThree, Option.ite_none_right_eq_some] at h
    obtain ⟨hxyz, hc⟩ := h
    rw [Option.some_inj] at hc
    subst hc
    simp only [Bool.and_eq_true, decide_eq_true_eq, UInt8.le_iff_toNat_le, isTail_iff, apply_ite UInt8.toNat,
      ← UInt8.toNat_inj] at hxyz
    exact ⟨rest, by rw [utf8EncodeChar_three hxyz.1.1.1 ⟨hxyz.1.1.2, hxyz.1.2⟩ hxyz.2]; rfl⟩

theorem decodeFour_eq_some (h : decodeFour bs = some c) : ∃ rest, bs = String.utf8EncodeChar c ++ rest := by
  match bs with
  | x :: y :: z :: w :: rest =>
    simp only [decodeFour, Option.ite_none_right_eq_some] at h
    obtain ⟨hxyzw, hc⟩ := h
    rw [Option.some_inj] at hc
    subst hc
    simp only [Bool.and_eq_true, decide_eq_true_eq, UInt8.le_iff_toNat_le, isTail_iff, apply_ite UInt8.toNat,
      ← UInt8.toNat_inj] at hxyzw
    refine ⟨rest, ?_⟩
    rw [utf8EncodeChar_four hxyzw.1.1.1.1 ⟨hxyzw.1.1.1.2, hxyzw.1.1.2⟩ hxyzw.1.2 hxyzw.2]
    rfl

/-- Bytes begin with the encoding of the character read from them, or with a byte of none. -/
theorem decodeRune_cases (bs : Bytes) :
    (∃ c rest, bs = String.utf8EncodeChar c ++ rest ∧ decodeRune bs = (c, (String.utf8EncodeChar c).length)) ∨
      decodeRune bs = (replacement, 1) := by
  have hencoded {c : Char} (h : ∃ rest, bs = String.utf8EncodeChar c ++ rest) :
      ∃ c rest, bs = String.utf8EncodeChar c ++ rest ∧
          decodeRune bs = (c, (String.utf8EncodeChar c).length) := by
    obtain ⟨rest, rfl⟩ := h
    exact ⟨c, rest, rfl, decodeRune_utf8EncodeChar c rest⟩
  cases h₁ : decodeOne bs with
  | some c => exact Or.inl (hencoded (decodeOne_eq_some h₁))
  | none =>
    cases h₂ : decodeTwo bs with
    | some c => exact Or.inl (hencoded (decodeTwo_eq_some h₂))
    | none =>
      cases h₃ : decodeThree bs with
      | some c => exact Or.inl (hencoded (decodeThree_eq_some h₃))
      | none =>
        cases h₄ : decodeFour bs with
        | some c => exact Or.inl (hencoded (decodeFour_eq_some h₄))
        | none => exact Or.inr (by simp [decodeRune, h₁, h₂, h₃, h₄])

end Encoded

theorem decodeRune_le_length (x : UInt8) (xs : Bytes) : (decodeRune (x :: xs)).2 ≤ (x :: xs).length := by
  obtain ⟨c, rest, he, hd⟩ | hd := decodeRune_cases (x :: xs)
  · rw [hd, he, List.length_append]
    exact Nat.le_add_right _ _
  · rw [hd, List.length_cons]
    exact Nat.le_add_left _ _

theorem runes_cons (x : UInt8) (xs : Bytes) :
    runes (x :: xs) = ⟨(decodeRune (x :: xs)).1, (x :: xs).take (decodeRune (x :: xs)).2⟩ ::
      runes ((x :: xs).drop (decodeRune (x :: xs)).2) := by
  have hpos := decodeRune_pos (x :: xs)
  rw [runes, List.length_cons, runesFrom_cons, runes]
  congr 1
  apply runesFrom_eq
  · simp only [List.length_drop, List.length_cons]
    omega
  · exact le_rfl

theorem runes_append {b : UInt8} (hb : isTail b = false) (xs ys : Bytes) :
    runes (xs ++ b :: ys) = runes xs ++ runes (b :: ys) := by
  match xs with
  | [] => rfl
  | x :: xs =>
    have hpos := decodeRune_pos (x :: xs)
    have hle := decodeRune_le_length x xs
    have ih := runes_append hb ((x :: xs).drop (decodeRune (x :: xs)).2) ys
    rw [List.cons_append, runes_cons, ← List.cons_append, decodeRune_append hb,
      List.take_append_of_le_length hle, List.drop_append_of_le_length hle, ih, runes_cons x xs,
        List.cons_append]
termination_by xs.length
decreasing_by
  simp only [List.length_drop, List.length_cons]
  omega

theorem flatMap_raw_runes (bs : Bytes) : (runes bs).flatMap Rune.raw = bs := by
  match bs with
  | [] => rfl
  | x :: xs =>
    have hpos := decodeRune_pos (x :: xs)
    rw [runes_cons, List.flatMap_cons, flatMap_raw_runes ((x :: xs).drop _), List.take_append_drop]
termination_by bs.length
decreasing_by
  simp only [List.length_drop, List.length_cons]
  omega

/-- The runes of a text from one of them on are those of the bytes from there on. -/
theorem runes_of_suffix {bs : Bytes} {A R : List Rune} (h : runes bs = A ++ R) :
    runes (R.flatMap Rune.raw) = R := by
  induction A generalizing bs with
  | nil =>
    rw [List.nil_append] at h
    rw [← h, flatMap_raw_runes]
  | cons r A ih =>
    match bs with
    | x :: xs =>
      rw [runes_cons, List.cons_append] at h
      exact ih (List.cons.inj h).2

theorem rune_cases {bs : Bytes} {r : Rune} (h : r ∈ runes bs) :
    r.raw = String.utf8EncodeChar r.value ∨ r.value = replacement := by
  match bs with
  | x :: xs =>
    have hpos := decodeRune_pos (x :: xs)
    rw [runes_cons] at h
    obtain rfl | h := List.mem_cons.mp h
    · obtain ⟨c, rest, he, hd⟩ | hd := decodeRune_cases (x :: xs)
      · refine Or.inl ?_
        rw [hd, he, List.take_left]
      · exact Or.inr (congrArg Prod.fst hd)
    · exact rune_cases h
termination_by bs.length
decreasing_by
  simp only [List.length_drop, List.length_cons]
  omega

/-- Every byte of an ASCII text is one of its characters. -/
theorem mem_chars_of_ascii {s : Bytes} (h : ∀ x ∈ chars s, x.toNat < 0x80) {b : UInt8} (hb : b ∈ s) :
    Char.ofNat b.toNat ∈ chars s := by
  rw [← flatMap_raw_runes s] at hb
  obtain ⟨r, hr, hb⟩ := List.mem_flatMap.mp hb
  have hchar : r.value ∈ chars s := List.mem_map_of_mem hr
  have hascii := h r.value hchar
  rcases rune_cases hr with hraw | hreplaced
  · obtain ⟨a, _, ha⟩ := exists_byte (hascii.trans (by decide))
    rw [hraw, utf8EncodeChar_ascii ha hascii, List.mem_singleton] at hb
    rw [hb, ha, Char.ofNat_toNat]
    exact hchar
  · rw [hreplaced] at hascii
    exact absurd hascii (by decide)

/-- No character's first byte is one that continues another's. -/
theorem exists_lead (c : Char) : ∃ b bs, String.utf8EncodeChar c = b :: bs ∧ isTail b = false := by
  have hc := toNat_valid c
  unfold String.utf8EncodeChar
  simp only [show c.val.toNat = c.toNat from rfl]
  split_ifs with h₁ h₂ h₃ <;> refine ⟨_, _, rfl, Bool.eq_false_iff.mpr ?_⟩ <;>
    rw [Ne, isTail_iff, UInt8.toNat_ofNat'] <;> omega

theorem runes_append_char (xs : Bytes) (c : Char) (ys : Bytes) :
    runes (xs ++ (String.utf8EncodeChar c ++ ys)) = runes xs ++ ⟨c, String.utf8EncodeChar c⟩ :: runes ys := by
  obtain ⟨b, bs, hc, hb⟩ := exists_lead c
  rw [← runes_utf8EncodeChar_append, hc, List.cons_append, runes_append hb]

end Decode

section Delimited

variable {sep : Char → Bool} {r s : Bytes}

/-- A text has a separating character, or nothing, on either side of it in another. -/
def Between (sep : Char → Bool) (r s : Bytes) : Prop :=
  ∃ a b, s = a ++ r ++ b ∧ (a = [] ∨ ∃ a' c, sep c = true ∧ a = a' ++ String.utf8EncodeChar c) ∧
    (b = [] ∨ ∃ c b', sep c = true ∧ b = String.utf8EncodeChar c ++ b')

def Spaceless (r : Bytes) : Prop := ∀ c ∈ chars r, isSpace c = false

instance : Decidable (Spaceless r) := List.decidableBAll _ _

theorem Between.mono {sep' : Char → Bool} (h : Between sep r s) (hs : ∀ c, sep c = true → sep' c = true) :
    Between sep' r s := by
  obtain ⟨a, b, he, ha, hb⟩ := h
  refine ⟨a, b, he, ha.imp_right ?_, hb.imp_right ?_⟩
  · rintro ⟨a', c, hc, h⟩
    exact ⟨a', c, hs c hc, h⟩
  · rintro ⟨c, b', hc, h⟩
    exact ⟨c, b', hs c hc, h⟩

theorem raw_of_isSpace {x : Rune} (hx : x ∈ runes s) (h : isSpace x.value = true) :
    x.raw = String.utf8EncodeChar x.value := by
  obtain hraw | hrep := rune_cases hx
  · exact hraw
  · rw [hrep] at h
    exact absurd h (by decide)

/-- The runes before white space are those of the bytes before it. -/
theorem runes_before {A rs B : List Rune} (h : runes s = A ++ rs ++ B)
    (hB : ∀ x ∈ B.head?, isSpace x.value = true) :
    runes (rs.flatMap Rune.raw) = rs := by
  rw [List.append_assoc] at h
  have hsuffix := runes_of_suffix h
  cases B with
  | nil => simpa using hsuffix
  | cons x B =>
    have hraw : x.raw = String.utf8EncodeChar x.value := raw_of_isSpace (by rw [h]; simp) (hB x rfl)
    have hs : runes s = (A ++ rs ++ [x]) ++ B := by
      rw [h]
      simp
    have hB' : runes (B.flatMap Rune.raw) = B := runes_of_suffix hs
    rw [List.flatMap_append, List.flatMap_cons, hraw, runes_append_char, hB', ← hraw] at hsuffix
    exact List.append_cancel_right hsuffix

theorem between_of_runes {A rs B : List Rune} (h : runes s = A ++ rs ++ B)
    (hA : ∀ x ∈ A.getLast?, isSpace x.value = true) (hB : ∀ x ∈ B.head?, isSpace x.value = true) :
    Between isSpace (rs.flatMap Rune.raw) s := by
  refine ⟨A.flatMap Rune.raw, B.flatMap Rune.raw, ?_, ?_, ?_⟩
  · rw [← flatMap_raw_runes s, h, List.flatMap_append, List.flatMap_append]
  · obtain rfl | ⟨A, x, rfl⟩ := List.eq_nil_or_concat A
    · exact Or.inl rfl
    · have hx : isSpace x.value = true := hA x (by simp)
      refine Or.inr ⟨A.flatMap Rune.raw, x.value, hx, ?_⟩
      rw [List.concat_eq_append, List.flatMap_append, List.flatMap_singleton,
        raw_of_isSpace (by rw [h]; simp) hx]
  · cases B with
    | nil => exact Or.inl rfl
    | cons x B =>
      have hx : isSpace x.value = true := hB x rfl
      refine Or.inr ⟨x.value, B.flatMap Rune.raw, hx, ?_⟩
      rw [List.flatMap_cons, raw_of_isSpace (by rw [h]; simp) hx]

theorem Between.runes (h : Between isSpace r s) :
    ∃ A B, Text.runes s = A ++ Text.runes r ++ B ∧ (∀ x ∈ A.getLast?, isSpace x.value = true) ∧
      ∀ x ∈ B.head?, isSpace x.value = true := by
  obtain ⟨a, b, rfl, ha, hb⟩ := h
  have hleft : ∃ A, Text.runes (a ++ r) = A ++ Text.runes r ∧ ∀ x ∈ A.getLast?, isSpace x.value = true := by
    obtain rfl | ⟨a, c, hc, rfl⟩ := ha
    · exact ⟨[], rfl, by simp⟩
    · exact ⟨Text.runes a ++ [⟨c, String.utf8EncodeChar c⟩],
        by rw [List.append_assoc, runes_append_char]; simp, by simpa using hc⟩
  obtain ⟨A, hA, hlast⟩ := hleft
  obtain rfl | ⟨c, b, hc, rfl⟩ := hb
  · exact ⟨A, [], by simpa using hA, hlast, by simp⟩
  · exact ⟨A, ⟨c, String.utf8EncodeChar c⟩ :: Text.runes b, by rw [runes_append_char, hA], hlast,
      by simpa using hc⟩

/-- The fields of a text are what stands in it between white space and holds none. -/
theorem mem_fields_iff : r ∈ fields s ↔ r ≠ [] ∧ Spaceless r ∧ Between isSpace r s := by
  simp only [fields, List.mem_map, List.mem_filter, mem_splitOnP_iff, decide_eq_true_eq]
  constructor
  · rintro ⟨rs, ⟨⟨hno, A, B, h, hA, hB⟩, hne⟩, rfl⟩
    have hrs := runes_before h hB
    refine ⟨?_, ?_, between_of_runes h hA hB⟩
    · intro hnil
      rw [hnil] at hrs
      exact hne hrs.symm
    · intro c hc
      rw [chars, hrs] at hc
      obtain ⟨x, hx, rfl⟩ := List.mem_map.mp hc
      exact hno x hx
  · rintro ⟨hne, hno, hb⟩
    obtain ⟨A, B, h, hA, hB⟩ := hb.runes
    refine ⟨runes r, ⟨⟨?_, A, B, h, hA, hB⟩, ?_⟩, flatMap_raw_runes r⟩
    · intro x hx
      exact hno x.value (List.mem_map_of_mem hx)
    · intro hnil
      exact hne (by rw [← flatMap_raw_runes r, hnil]; rfl)

/-- The non-empty pieces of a text split at U+0020. -/
def pieces (s : Bytes) : List Bytes := (s.splitOn 0x20).filter (· ≠ [])

theorem between_space_iff : Between (· = ' ') r s ↔ Stands (· == (0x20 : UInt8)) r s := by
  have henc : String.utf8EncodeChar ' ' = [0x20] := by decide
  constructor
  · rintro ⟨a, b, he, ha, hb⟩
    refine ⟨a, b, he, ?_, ?_⟩
    · obtain rfl | ⟨a', c, hc, rfl⟩ := ha
      · simp
      · rw [of_decide_eq_true hc, henc]
        simp
    · obtain rfl | ⟨c, b', hc, rfl⟩ := hb
      · simp
      · rw [of_decide_eq_true hc, henc]
        simp
  · rintro ⟨a, b, he, ha, hb⟩
    refine ⟨a, b, he, ?_, ?_⟩
    · obtain rfl | ⟨a', x, rfl⟩ := List.eq_nil_or_concat a
      · exact Or.inl rfl
      · have hx : x = 0x20 := by simpa using ha x (by simp)
        exact Or.inr ⟨a', ' ', by decide, by rw [List.concat_eq_append, henc, hx]⟩
    · cases b with
      | nil => exact Or.inl rfl
      | cons x b =>
        have hx : x = 0x20 := by simpa using hb x rfl
        exact Or.inr ⟨' ', b, by decide, by rw [henc, hx]; rfl⟩

theorem mem_pieces_iff : r ∈ pieces s ↔ r ≠ [] ∧ 0x20 ∉ r ∧ Between (· = ' ') r s := by
  rw [pieces, List.mem_filter, List.splitOn, mem_splitOnP_iff, between_space_iff, decide_eq_true_eq]
  have hno : (∀ x ∈ r, (x == (0x20 : UInt8)) = false) ↔ 0x20 ∉ r := by
    simp only [beq_eq_false_iff_ne]
    exact ⟨fun h h' ↦ h _ h' rfl, fun h x hx hx' ↦ h (hx' ▸ hx)⟩
  rw [hno]
  tauto

end Delimited

section Trim

theorem rdropWhile_dropWhile {α : Type} (p : α → Bool) (l : List α) :
    (((l.dropWhile p).rdropWhile p).dropWhile p).rdropWhile p = (l.dropWhile p).rdropWhile p := by
  have hdrop : ((l.dropWhile p).rdropWhile p).dropWhile p = (l.dropWhile p).rdropWhile p := by
    cases hm : (l.dropWhile p).rdropWhile p with
    | nil => rfl
    | cons x m =>
      obtain ⟨t, ht⟩ := List.rdropWhile_prefix p (l.dropWhile p)
      have hx := List.head?_dropWhile_not p l
      rw [← ht, hm] at hx
      exact List.dropWhile_cons_of_neg (Bool.eq_false_iff.mp hx)
  rw [hdrop, List.rdropWhile_idempotent]

/-- What is trimmed off is white space on both sides. -/
theorem runes_trimSpace (s : Bytes) :
    runes (trimSpace s) = ((runes s).dropWhile (fun r ↦ isSpace r.value)).rdropWhile
      (fun r ↦ isSpace r.value) ∧
    ∃ A B, runes s = A ++ runes (trimSpace s) ++ B ∧ ∀ x ∈ A ++ B, isSpace x.value = true := by
  have hsplit : runes s = (runes s).takeWhile (fun r ↦ isSpace r.value) ++
      ((runes s).dropWhile (fun r ↦ isSpace r.value)).rdropWhile (fun r ↦ isSpace r.value) ++
      ((runes s).dropWhile (fun r ↦ isSpace r.value)).rtakeWhile (fun r ↦ isSpace r.value) := by
    rw [List.append_assoc, List.rdropWhile_append_rtakeWhile, List.takeWhile_append_dropWhile]
  have htail : ∀ x ∈ ((runes s).dropWhile (fun r ↦ isSpace r.value)).rtakeWhile (fun r ↦ isSpace r.value),
      isSpace x.value = true := fun x hx ↦ List.mem_rtakeWhile_imp (p := fun r : Rune ↦ isSpace r.value) hx
  have hruns := runes_before hsplit (fun x hx ↦ htail x (List.mem_of_mem_head? hx))
  refine ⟨hruns, _, _, by rw [trimSpace, hruns]; exact hsplit, ?_⟩
  intro x hx
  obtain hx | hx := List.mem_append.mp hx
  · exact List.mem_takeWhile_imp (p := fun r : Rune ↦ isSpace r.value) hx
  · exact htail x hx

theorem trimSpace_trimSpace (s : Bytes) : trimSpace (trimSpace s) = trimSpace s := by
  conv_lhs => rw [trimSpace, (runes_trimSpace s).1, rdropWhile_dropWhile]
  rfl

theorem mem_of_mem_trimSpace {s : Bytes} {b : UInt8} (h : b ∈ trimSpace s) : b ∈ s := by
  obtain ⟨A, B, hs, _⟩ := (runes_trimSpace s).2
  rw [← flatMap_raw_runes s, hs, List.flatMap_append, List.flatMap_append, flatMap_raw_runes]
  simp [h]

theorem trimSpace_of_spaceless {s : Bytes} (h : Spaceless s) : trimSpace s = s := by
  have hno : ∀ x ∈ runes s, isSpace x.value = false := fun x hx ↦ h x.value (List.mem_map_of_mem hx)
  obtain ⟨A, B, hs, hspace⟩ := (runes_trimSpace s).2
  have hnil : A ++ B = [] := by
    rw [List.eq_nil_iff_forall_not_mem]
    intro x hx
    have hmem : x ∈ runes s := by
      rw [hs]
      simp only [List.mem_append] at hx ⊢
      tauto
    exact Bool.false_ne_true ((hno x hmem).symm.trans (hspace x hx))
  obtain ⟨rfl, rfl⟩ := List.append_eq_nil_iff.mp hnil
  rw [List.nil_append, List.append_nil] at hs
  rw [← flatMap_raw_runes (trimSpace s), ← hs, flatMap_raw_runes]

/-- Trimming leaves any character that is no white space. -/
theorem trimSpace_ne_nil {s : Bytes} {x : Rune} (hx : x ∈ runes s) (h : isSpace x.value = false) :
    trimSpace s ≠ [] := by
  intro hnil
  obtain ⟨A, B, hs, hspace⟩ := (runes_trimSpace s).2
  rw [hs, hnil, show runes [] = [] from rfl, List.append_nil] at hx
  exact Bool.false_ne_true (h.symm.trans (hspace x hx))

theorem runes_ascii {b : UInt8} (hb : b.toNat < 0x80) (bs : Bytes) :
    runes (b :: bs) = ⟨Char.ofNat b.toNat, [b]⟩ :: runes bs := by
  have hn : (Char.ofNat b.toNat).toNat = b.toNat := toNat_ofNat (Or.inl (hb.trans (by decide)))
  have henc := utf8EncodeChar_ascii hn.symm (hn.trans_lt hb)
  rw [← henc, ← runes_utf8EncodeChar_append, henc, List.singleton_append]

theorem spaceless_of_ascii {s : Bytes} (h : ∀ b ∈ s, b.toNat < 0x80 ∧ isSpace (Char.ofNat b.toNat) = false) :
    Spaceless s := by
  induction s with
  | nil => simp [Spaceless, chars, runes, runesFrom]
  | cons b s ih =>
    obtain ⟨hb, hspace⟩ := h b List.mem_cons_self
    intro c hc
    rw [chars, runes_ascii hb, List.map_cons] at hc
    obtain rfl | hc := List.mem_cons.mp hc
    · exact hspace
    · exact ih (fun x hx ↦ h x (List.mem_cons_of_mem b hx)) c hc

end Trim

end OtlpCollectorOidc.Text

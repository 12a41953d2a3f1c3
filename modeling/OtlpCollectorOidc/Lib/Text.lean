import Mathlib.Data.List.DropRight

namespace OtlpCollectorOidc.Text

/-- A Go string: any sequence of bytes, valid UTF-8 or not. -/
abbrev Bytes := List UInt8

def ofChars (cs : List Char) : Bytes := cs.flatMap String.utf8EncodeChar

theorem ofChars_cons (c : Char) (cs : List Char) :
    ofChars (c :: cs) = String.utf8EncodeChar c ++ ofChars cs := rfl

theorem ofChars_append (cs ds : List Char) : ofChars (cs ++ ds) = ofChars cs ++ ofChars ds :=
  List.flatMap_append

def ofString (s : String) : Bytes := s.toUTF8.data.toList

instance : Coe String Bytes := ⟨ofString⟩

instance lawfulBytes : LawfulBEq Bytes := List.instLawfulBEq

def replacement : Char := Char.ofNat 0xFFFD

def isTail (b : UInt8) : Bool := 0x80 ≤ b && b ≤ 0xBF

def decodeOne : Bytes → Option Char
  | a :: _ => if a < 0x80 then some (Char.ofNat a.toNat) else none
  | _ => none

def decodeTwo : Bytes → Option Char
  | a :: b :: _ =>
    if 0xC2 ≤ a && a ≤ 0xDF && isTail b then
      some (Char.ofNat ((a.toNat - 0xC0) * 64 + (b.toNat - 0x80)))
    else none
  | _ => none

def decodeThree : Bytes → Option Char
  | a :: b :: c :: _ =>
    let low : UInt8 := if a = 0xE0 then 0xA0 else 0x80
    let high : UInt8 := if a = 0xED then 0x9F else 0xBF
    if 0xE0 ≤ a && a ≤ 0xEF && low ≤ b && b ≤ high && isTail c then
      some (Char.ofNat (((a.toNat - 0xE0) * 64 + (b.toNat - 0x80)) * 64 + (c.toNat - 0x80)))
    else none
  | _ => none

def decodeFour : Bytes → Option Char
  | a :: b :: c :: d :: _ =>
    let low : UInt8 := if a = 0xF0 then 0x90 else 0x80
    let high : UInt8 := if a = 0xF4 then 0x8F else 0xBF
    if 0xF0 ≤ a && a ≤ 0xF4 && low ≤ b && b ≤ high && isTail c && isTail d then
      some (Char.ofNat ((((a.toNat - 0xF0) * 64 + (b.toNat - 0x80)) * 64 + (c.toNat - 0x80)) * 64 +
        (d.toNat - 0x80)))
    else none
  | _ => none

/-- `utf8.DecodeRune`: the first rune and its width; U+FFFD and one byte where
the bytes do not begin with a well-formed sequence. -/
def decodeRune (bs : Bytes) : Char × ℕ :=
  (((decodeOne bs).map (·, 1)) <|> ((decodeTwo bs).map (·, 2)) <|>
    ((decodeThree bs).map (·, 3)) <|> ((decodeFour bs).map (·, 4))).getD (replacement, 1)

structure Rune where
  value : Char
  raw : Bytes

def runesFrom : ℕ → Bytes → List Rune
  | 0, _ => []
  | _, [] => []
  | n + 1, bs => ⟨(decodeRune bs).1, bs.take (decodeRune bs).2⟩ :: runesFrom n (bs.drop (decodeRune bs).2)

def runes (bs : Bytes) : List Rune := runesFrom bs.length bs

def chars (bs : Bytes) : List Char := (runes bs).map Rune.value

theorem toNat_valid (c : Char) : c.toNat < 0xD800 ∨ 0xDFFF < c.toNat ∧ c.toNat < 0x110000 := c.valid

theorem exists_byte {n : ℕ} (h : n < 256) : ∃ a : UInt8, UInt8.ofNat n = a ∧ a.toNat = n :=
  ⟨UInt8.ofNat n, rfl, UInt8.toNat_ofNat_of_lt' h⟩

theorem decodeOne_eq_none {a : UInt8} (h : 0x80 ≤ a.toNat) (rest : Bytes) : decodeOne (a :: rest) = none := by
  rw [decodeOne, if_neg]
  rw [UInt8.lt_iff_toNat_lt]
  exact not_lt.mpr h

theorem decodeTwo_eq_none {a : UInt8} (h : 0xE0 ≤ a.toNat) (rest : Bytes) : decodeTwo (a :: rest) = none := by
  cases rest with
  | nil => rfl
  | cons b rest =>
    rw [decodeTwo, if_neg]
    simp only [Bool.and_eq_true, decide_eq_true_eq, UInt8.le_iff_toNat_le]
    intro ha
    exact absurd (h.trans ha.1.2) (by decide)

theorem decodeThree_eq_none {a : UInt8} (h : 0xF0 ≤ a.toNat) (rest : Bytes) :
    decodeThree (a :: rest) = none := by
  match rest with
  | [] => rfl
  | [_] => rfl
  | b :: c :: rest =>
    rw [decodeThree, if_neg]
    simp only [Bool.and_eq_true, decide_eq_true_eq, UInt8.le_iff_toNat_le]
    intro ha
    exact absurd (h.trans ha.1.1.1.2) (by decide)

theorem decodeRune_utf8EncodeChar (c : Char) (rest : Bytes) :
    decodeRune (String.utf8EncodeChar c ++ rest) = (c, (String.utf8EncodeChar c).length) := by
  have hc := Char.ofNat_toNat c
  have hv := toNat_valid c
  unfold String.utf8EncodeChar
  simp only [show c.val.toNat = c.toNat from rfl]
  generalize c.toNat = v at hc hv
  split_ifs with h₁ h₂ h₃
  · obtain ⟨a, ha, han⟩ := exists_byte (n := v) (by omega)
    have hd : decodeOne (a :: rest) = some c := by
      rw [decodeOne, if_pos (UInt8.lt_iff_toNat_lt.mpr (by rw [han]; exact Nat.lt_succ_of_le h₁)), han, hc]
    simp [decodeRune, ha, hd]
  · obtain ⟨a, ha, han⟩ := exists_byte (n := v / 64 % 32 + 192) (by omega)
    obtain ⟨b, hb, hbn⟩ := exists_byte (n := v % 64 + 128) (by omega)
    have hd : decodeTwo (a :: b :: rest) = some c := by
      have hn : (a.toNat - 0xC0) * 64 + (b.toNat - 0x80) = v := by omega
      rw [decodeTwo, if_pos, hn, hc]
      simp only [isTail, Bool.and_eq_true, decide_eq_true_eq, UInt8.le_iff_toNat_le, han, hbn,
        UInt8.reduceToNat]
      omega
    rw [ha, hb]
    simp [decodeRune, hd, decodeOne_eq_none (show 0x80 ≤ a.toNat by omega)]
  · obtain ⟨a, ha, han⟩ := exists_byte (n := v / 4096 % 16 + 224) (by omega)
    obtain ⟨b, hb, hbn⟩ := exists_byte (n := v / 64 % 64 + 128) (by omega)
    obtain ⟨d, hd, hdn⟩ := exists_byte (n := v % 64 + 128) (by omega)
    have hthree : decodeThree (a :: b :: d :: rest) = some c := by
      have hn : ((a.toNat - 0xE0) * 64 + (b.toNat - 0x80)) * 64 + (d.toNat - 0x80) = v := by omega
      rw [decodeThree, if_pos, hn, hc]
      simp only [isTail, Bool.and_eq_true, decide_eq_true_eq, UInt8.le_iff_toNat_le, ← UInt8.toNat_inj,
        apply_ite UInt8.toNat, han, hbn, hdn, UInt8.reduceToNat]
      split_ifs <;> omega
    rw [ha, hb, hd]
    simp [decodeRune, hthree, decodeOne_eq_none (show 0x80 ≤ a.toNat by omega),
      decodeTwo_eq_none (show 0xE0 ≤ a.toNat by omega)]
  · obtain ⟨a, ha, han⟩ := exists_byte (n := v / 262144 % 8 + 240) (by omega)
    obtain ⟨b, hb, hbn⟩ := exists_byte (n := v / 4096 % 64 + 128) (by omega)
    obtain ⟨d, hd, hdn⟩ := exists_byte (n := v / 64 % 64 + 128) (by omega)
    obtain ⟨e, he, hen⟩ := exists_byte (n := v % 64 + 128) (by omega)
    have hfour : decodeFour (a :: b :: d :: e :: rest) = some c := by
      have hn : (((a.toNat - 0xF0) * 64 + (b.toNat - 0x80)) * 64 + (d.toNat - 0x80)) * 64 +
          (e.toNat - 0x80) = v := by
        omega
      rw [decodeFour, if_pos, hn, hc]
      simp only [isTail, Bool.and_eq_true, decide_eq_true_eq, UInt8.le_iff_toNat_le, ← UInt8.toNat_inj,
        apply_ite UInt8.toNat, han, hbn, hdn, hen, UInt8.reduceToNat]
      split_ifs <;> omega
    rw [ha, hb, hd, he]
    simp [decodeRune, hfour, decodeOne_eq_none (show 0x80 ≤ a.toNat by omega),
      decodeTwo_eq_none (show 0xE0 ≤ a.toNat by omega), decodeThree_eq_none (show 0xF0 ≤ a.toNat by omega)]

theorem decodeRune_pos (bs : Bytes) : 1 ≤ (decodeRune bs).2 := by
  unfold decodeRune
  cases decodeOne bs <;> cases decodeTwo bs <;> cases decodeThree bs <;> cases decodeFour bs <;> simp

theorem runesFrom_cons (n : ℕ) (b : UInt8) (bs : Bytes) :
    runesFrom (n + 1) (b :: bs) = ⟨(decodeRune (b :: bs)).1, (b :: bs).take (decodeRune (b :: bs)).2⟩ ::
      runesFrom n ((b :: bs).drop (decodeRune (b :: bs)).2) := rfl

theorem runesFrom_nil (n : ℕ) : runesFrom n [] = [] := by
  cases n <;> rfl

/-- Every rune takes a byte, so the length of the text is fuel enough. -/
theorem runesFrom_eq {n m : ℕ} {bs : Bytes} (hn : bs.length ≤ n) (hm : bs.length ≤ m) :
    runesFrom n bs = runesFrom m bs := by
  induction n generalizing m bs with
  | zero => rw [List.length_eq_zero_iff.mp (Nat.le_zero.mp hn), runesFrom_nil, runesFrom_nil]
  | succ n ih =>
    match bs, m with
    | [], m => rw [runesFrom_nil, runesFrom_nil]
    | b :: bs, m + 1 =>
      have hpos := decodeRune_pos (b :: bs)
      simp only [List.length_cons] at hn hm
      rw [runesFrom_cons, runesFrom_cons, ih (m := m)]
      · simp only [List.length_drop, List.length_cons]
        omega
      · simp only [List.length_drop, List.length_cons]
        omega

theorem utf8EncodeChar_ne_nil (c : Char) : String.utf8EncodeChar c ≠ [] := by
  unfold String.utf8EncodeChar
  dsimp only
  split_ifs <;> simp

theorem runes_utf8EncodeChar_append (c : Char) (bs : Bytes) :
    runes (String.utf8EncodeChar c ++ bs) = ⟨c, String.utf8EncodeChar c⟩ :: runes bs := by
  obtain ⟨b, rest, hb⟩ := List.exists_cons_of_ne_nil (utf8EncodeChar_ne_nil c)
  have hd := decodeRune_utf8EncodeChar c bs
  have hl : (String.utf8EncodeChar c ++ bs).length = (rest ++ bs).length + 1 := by rw [hb]; simp
  rw [runes, hl]
  conv_lhs => rw [hb, List.cons_append, runesFrom_cons, ← List.cons_append, ← hb, hd]
  rw [List.take_left, List.drop_left, runesFrom_eq (by simp) le_rfl, runes]

/-- The runes of well-formed text are its characters, whatever follows them. -/
theorem runes_ofChars_append (cs : List Char) (bs : Bytes) :
    runes (ofChars cs ++ bs) = cs.map (fun c ↦ ⟨c, String.utf8EncodeChar c⟩) ++ runes bs := by
  induction cs with
  | nil => rfl
  | cons c cs ih =>
    rw [ofChars_cons, List.append_assoc, runes_utf8EncodeChar_append, List.map_cons, List.cons_append, ← ih]

theorem chars_ofChars_append (cs : List Char) (bs : Bytes) : chars (ofChars cs ++ bs) = cs ++ chars bs := by
  rw [chars, runes_ofChars_append, List.map_append, List.map_map, chars]
  congr 1
  exact List.map_id cs

theorem ofChars_injective : Function.Injective ofChars := by
  intro cs ds h
  have hc := chars_ofChars_append cs []
  rw [h, chars_ofChars_append ds []] at hc
  exact (List.append_cancel_right hc).symm

/-- An ASCII byte occurs in the encoding of its own character alone. -/
theorem notMem_utf8EncodeChar {b : UInt8} {c : Char} (hb : b.toNat < 0x80) (h : c.toNat ≠ b.toNat) :
    b ∉ String.utf8EncodeChar c := by
  have hv := toNat_valid c
  unfold String.utf8EncodeChar
  simp only [show c.val.toNat = c.toNat from rfl]
  split_ifs <;> simp only [List.mem_cons, List.not_mem_nil, or_false, not_or, ← UInt8.toNat_inj,
    UInt8.toNat_ofNat'] <;>
    omega

def trimSuffix (suffix bs : Bytes) : Bytes :=
  if suffix.isSuffixOf bs then bs.take (bs.length - suffix.length) else bs

theorem trimSuffix_append (suffix bs : Bytes) : trimSuffix suffix (bs ++ suffix) = bs := by
  rw [trimSuffix, if_pos (List.isSuffixOf_iff_suffix.mpr (List.suffix_append bs suffix))]
  simp

/-- `strings.ReplaceAll` of one byte. -/
def replaceByte (b : UInt8) (new bs : Bytes) : Bytes := bs.flatMap (fun c ↦ if c = b then new else [c])

theorem replaceByte_append (b : UInt8) (new xs ys : Bytes) :
    replaceByte b new (xs ++ ys) = replaceByte b new xs ++ replaceByte b new ys := List.flatMap_append

theorem utf8EncodeChar_ascii {b : UInt8} {c : Char} (hb : b.toNat = c.toNat) (hc : c.toNat < 0x80) :
    String.utf8EncodeChar c = [b] := by
  have hv : UInt8.ofNat c.val.toNat = b := by
    rw [show c.val.toNat = c.toNat from rfl, ← hb, UInt8.ofNat_toNat]
  unfold String.utf8EncodeChar
  exact (if_pos (Nat.le_of_lt_succ hc)).trans (congrArg (fun x ↦ [x]) hv)

theorem replaceByte_ofChars {b : UInt8} {c : Char} (hb : b.toNat = c.toNat) (hc : c.toNat < 0x80)
    (ds cs : List Char) :
    replaceByte b (ofChars ds) (ofChars cs) = ofChars (cs.flatMap (fun x ↦ if x = c then ds else [x])) := by
  have hx : ∀ x, replaceByte b (ofChars ds) (String.utf8EncodeChar x) =
      ofChars (if x = c then ds else [x]) := by
    intro x
    split_ifs with h
    · rw [h, utf8EncodeChar_ascii hb hc]
      simp [replaceByte]
    · have hne : x.toNat ≠ b.toNat := by
        rw [hb]
        exact fun hn ↦ h (Char.toNat_inj.mp hn)
      have hid : ∀ y ∈ String.utf8EncodeChar x, (if y = b then ofChars ds else [y]) = [y] := by
        intro y hy
        apply if_neg
        rintro rfl
        exact notMem_utf8EncodeChar (hb ▸ hc) hne hy
      rw [replaceByte, List.flatMap_congr hid]
      simp [ofChars]
  induction cs with
  | nil => rfl
  | cons x cs ih => rw [ofChars_cons, replaceByte_append, hx, ih, List.flatMap_cons, ofChars_append]

theorem ofString_eq_ofChars (s : String) : ofString s = ofChars s.toList := by
  rw [ofString, String.toUTF8, ← String.utf8Encode_toList, List.utf8Encode, ofChars]
  simp

def Valid (bs : Bytes) : Prop := ∃ cs, bs = ofChars cs

theorem valid_ofString (s : String) : Valid (ofString s) := ⟨s.toList, ofString_eq_ofChars s⟩

theorem chars_ofChars (cs : List Char) : chars (ofChars cs) = cs := by
  have h := chars_ofChars_append cs []
  rwa [List.append_nil, show chars [] = [] from rfl, List.append_nil] at h

theorem Valid.ofChars_chars {bs : Bytes} (h : Valid bs) : ofChars (chars bs) = bs := by
  obtain ⟨cs, rfl⟩ := h
  rw [chars_ofChars]

theorem chars_ofString (s : String) : chars (ofString s) = s.toList := by
  rw [ofString_eq_ofChars, chars_ofChars]

theorem ofString_inj {a b : String} : ofString a = ofString b ↔ a = b := by
  constructor
  · intro h
    rw [ofString_eq_ofChars, ofString_eq_ofChars] at h
    exact String.toList_injective (ofChars_injective h)
  · rintro rfl
    rfl

theorem splitOn_append_of_notMem {b : UInt8} {bs : Bytes} (h : b ∉ bs) (rest : Bytes) :
    (bs ++ rest).splitOn b = (rest.splitOn b).modifyHead (bs ++ ·) := by
  induction bs with
  | nil => exact (congrFun List.modifyHead_id _).symm
  | cons x bs ih =>
    obtain ⟨hx, hbs⟩ := List.ne_and_not_mem_of_not_mem_cons h
    rw [List.cons_append, List.splitOn, List.splitOnP_cons_eq_if_modifyHead, if_neg (by simpa using hx.symm),
      ← List.splitOn, ih hbs, List.modifyHead_modifyHead]
    rfl

theorem splitOn_cons_self (b : UInt8) (bs : Bytes) : (b :: bs).splitOn b = [] :: bs.splitOn b := by
  rw [List.splitOn, List.splitOnP_cons_eq_if_modifyHead, if_pos (by simp), List.splitOn]

/-- No separator below U+0080 stands inside a character. -/
theorem splitOn_ofChars {b : UInt8} {c : Char} (hb : b.toNat = c.toNat) (hc : c.toNat < 0x80)
    (cs : List Char) :
    (ofChars cs).splitOn b = (cs.splitOn c).map ofChars := by
  induction cs with
  | nil => rfl
  | cons x cs ih =>
    have hcons : (x :: cs).splitOn c =
        if (x == c) = true then [] :: cs.splitOn c else (cs.splitOn c).modifyHead (x :: ·) :=
      List.splitOnP_cons_eq_if_modifyHead ..
    rw [ofChars_cons, hcons]
    split_ifs with hx
    · have hx : x = c := by simpa using hx
      rw [hx, utf8EncodeChar_ascii hb hc, List.singleton_append, splitOn_cons_self, ih]
      rfl
    · have hx : x ≠ c := by simpa using hx
      have hne : b ∉ String.utf8EncodeChar x :=
        notMem_utf8EncodeChar (hb ▸ hc) (fun h ↦ hx (Char.toNat_inj.mp (h.trans hb)))
      rw [splitOn_append_of_notMem hne, ih]
      cases cs.splitOn c with
      | nil => rfl
      | cons y ys => simp [ofChars_cons]

theorem Valid.splitOn {b : UInt8} {c : Char} (hb : b.toNat = c.toNat) (hc : c.toNat < 0x80) {bs item : Bytes}
    (h : Valid bs) (hi : item ∈ bs.splitOn b) : Valid item := by
  obtain ⟨cs, rfl⟩ := h
  rw [splitOn_ofChars hb hc] at hi
  obtain ⟨ds, _, rfl⟩ := List.mem_map.mp hi
  exact ⟨ds, rfl⟩

def isSpace (c : Char) : Bool :=
  let n := c.toNat
  (9 ≤ n && n ≤ 13) || n = 0x20 || n = 0x85 || n = 0xA0 || n = 0x1680 ||
    (0x2000 ≤ n && n ≤ 0x200A) || n = 0x2028 || n = 0x2029 || n = 0x202F || n = 0x205F || n = 0x3000

def trimSpace (bs : Bytes) : Bytes :=
  (((runes bs).dropWhile (fun r ↦ isSpace r.value)).rdropWhile (fun r ↦ isSpace r.value)).flatMap Rune.raw

theorem Valid.trimSpace {bs : Bytes} (h : Valid bs) : Valid (trimSpace bs) := by
  obtain ⟨cs, rfl⟩ := h
  have hr := runes_ofChars_append cs []
  rw [List.append_nil, show runes [] = [] from rfl, List.append_nil] at hr
  rw [Text.trimSpace, hr]
  have hsub : List.Sublist (((cs.map (fun c ↦ (⟨c, String.utf8EncodeChar c⟩ : Rune))).dropWhile
      (fun r ↦ isSpace r.value)).rdropWhile (fun r ↦ isSpace r.value))
      (cs.map (fun c ↦ ⟨c, String.utf8EncodeChar c⟩)) :=
    (List.rdropWhile_prefix _ _).sublist.trans (List.dropWhile_sublist _)
  obtain ⟨ds, _, hds⟩ := List.sublist_map_iff.mp hsub
  rw [hds, List.flatMap_map]
  exact ⟨ds, rfl⟩

def fields (bs : Bytes) : List Bytes :=
  (((runes bs).splitOnP (fun r ↦ isSpace r.value)).filter (· ≠ [])).map (List.flatMap Rune.raw)

def cut (sep : UInt8) : Bytes → Option (Bytes × Bytes)
  | [] => none
  | b :: bs => if b = sep then some ([], bs) else (cut sep bs).map (fun p ↦ (b :: p.1, p.2))

theorem cut_eq_some {sep : UInt8} {bs before after : Bytes} (h : cut sep bs = some (before, after)) :
    bs = before ++ sep :: after ∧ sep ∉ before := by
  induction bs generalizing before with
  | nil => simp [cut] at h
  | cons b bs ih =>
    rw [cut] at h
    split_ifs at h with hb
    · cases h
      simp [hb]
    · obtain ⟨⟨x, y⟩, hp, he⟩ := Option.map_eq_some_iff.mp h
      cases he
      obtain ⟨hbs, hx⟩ := ih hp
      exact ⟨by rw [hbs, List.cons_append], by simp [hx, Ne.symm hb]⟩

theorem mem_splitOn_of_cut {sep : UInt8} {bs before after : Bytes} (h : cut sep bs = some (before, after)) :
    before ∈ bs.splitOn sep := by
  obtain ⟨rfl, hb⟩ := cut_eq_some h
  simp [splitOn_append_of_notMem hb, splitOn_cons_self]

theorem cut_append {sep : UInt8} {before after : Bytes} (h : sep ∉ before) :
    cut sep (before ++ sep :: after) = some (before, after) := by
  induction before with
  | nil => simp [cut]
  | cons b before ih =>
    obtain ⟨hb, hbefore⟩ := List.ne_and_not_mem_of_not_mem_cons h
    rw [List.cons_append, cut, if_neg hb.symm, ih hbefore]
    rfl

def toLower (bs : Bytes) : Bytes := bs.map (fun c ↦ if 0x41 ≤ c && c ≤ 0x5A then c + 0x20 else c)

def join (sep : Bytes) (parts : List Bytes) : Bytes := sep.intercalate parts

/-- `strings.Compare(a, b) <= 0`. -/
def compareLE : Bytes → Bytes → Bool
  | [], _ => true
  | _ :: _, [] => false
  | a :: as, b :: bs => a < b || (a = b && compareLE as bs)

theorem compareLE_total (as bs : Bytes) : compareLE as bs = true ∨ compareLE bs as = true := by
  induction as generalizing bs with
  | nil => exact Or.inl rfl
  | cons a as ih =>
    cases bs with
    | nil => exact Or.inr rfl
    | cons b bs =>
      simp only [compareLE, Bool.or_eq_true, Bool.and_eq_true, decide_eq_true_eq]
      by_cases h : a = b
      · exact (ih bs).imp (fun hl ↦ Or.inr ⟨h, hl⟩) (fun hl ↦ Or.inr ⟨h.symm, hl⟩)
      · exact (UInt8.lt_or_lt_of_ne h).imp Or.inl Or.inl

theorem compareLE_refl (bs : Bytes) : compareLE bs bs = true := or_self_iff.mp (compareLE_total bs bs)

theorem compareLE_antisymm {as bs : Bytes} (h : compareLE as bs = true) (h' : compareLE bs as = true) :
    as = bs := by
  induction as generalizing bs with
  | nil =>
    cases bs with
    | nil => rfl
    | cons b bs => cases h'
  | cons a as ih =>
    cases bs with
    | nil => cases h
    | cons b bs =>
      simp only [compareLE, Bool.or_eq_true, Bool.and_eq_true, decide_eq_true_eq, UInt8.lt_iff_toNat_lt,
        ← UInt8.toNat_inj] at h h'
      have hab : a = b := UInt8.toNat_inj.mp (by omega)
      subst hab
      rw [ih (h.resolve_left (lt_irrefl _)).2 (h'.resolve_left (lt_irrefl _)).2]

theorem compareLE_trans {as bs cs : Bytes} (h : compareLE as bs = true) (h' : compareLE bs cs = true) :
    compareLE as cs = true := by
  induction as generalizing bs cs with
  | nil => rfl
  | cons a as ih =>
    cases bs with
    | nil => simp [compareLE] at h
    | cons b bs =>
      cases cs with
      | nil => simp [compareLE] at h'
      | cons c cs =>
        simp only [compareLE, Bool.or_eq_true, Bool.and_eq_true, decide_eq_true_eq] at h h' ⊢
        obtain h | ⟨rfl, h⟩ := h
        · obtain h' | ⟨rfl, _⟩ := h'
          · exact Or.inl (UInt8.lt_trans h h')
          · exact Or.inl h
        · exact h'.imp_right (And.imp_right (ih h))

/-- The representative Go compares a rune by when it ignores case, on the
letters whose case variants include an ASCII one: U+017F folds to `s` and
U+212A to `k`. -/
def foldRune (c : Char) : Char :=
  if c.toNat = 0x17F then 's' else if c.toNat = 0x212A then 'k' else c.toLower

def equalFold (bs : Bytes) (name : String) : Bool :=
  (chars bs).map foldRune = name.toList.map foldRune

def digit64 (b : UInt8) : Option ℕ :=
  if 0x41 ≤ b && b ≤ 0x5A then some (b.toNat - 0x41)
  else if 0x61 ≤ b && b ≤ 0x7A then some (b.toNat - 0x61 + 26)
  else if 0x30 ≤ b && b ≤ 0x39 then some (b.toNat - 0x30 + 52)
  else if b = 0x2D then some 62
  else if b = 0x5F then some 63
  else none

def quads : List ℕ → Option Bytes
  | [] => some []
  | [_] => none
  | [a, b] => some [UInt8.ofNat (a * 4 + b / 16)]
  | [a, b, c] => some [UInt8.ofNat (a * 4 + b / 16), UInt8.ofNat (b % 16 * 16 + c / 4)]
  | a :: b :: c :: d :: rest =>
    (quads rest).map (fun bs ↦ UInt8.ofNat (a * 4 + b / 16) :: UInt8.ofNat (b % 16 * 16 + c / 4) ::
      UInt8.ofNat (c % 4 * 64 + d) :: bs)

/-- `base64.RawURLEncoding.DecodeString`, which skips CR and LF and takes no
padding; the unused low bits of the last digit are not looked at. -/
def decodeString (bs : Bytes) : Option Bytes :=
  ((bs.filter (fun b ↦ b ≠ 0x0A && b ≠ 0x0D)).mapM digit64).bind quads

end OtlpCollectorOidc.Text

import OtlpCollectorOidc.Lib.Fields
import OtlpCollectorOidc.Lib.Url

namespace OtlpCollectorOidc.Strconv

open Text

def fixedDigits (digit : UInt8 → Option ℕ) (base width : ℕ) (bs : Bytes) : Option ℕ :=
  if bs.length < width then none else (bs.take width).foldlM (fun v b ↦ (digit b).map (base * v + ·)) 0

def octalDigit (b : UInt8) : Option ℕ := if 0x30 ≤ b && b ≤ 0x37 then some (b.toNat - 0x30) else none

/-- The escapes of one letter that stand for one byte, `\a` to `\"`. -/
def letterEscape (d : UInt8) : Option UInt8 :=
  match d.toNat with
  | 0x61 => some 0x07
  | 0x62 => some 0x08
  | 0x66 => some 0x0C
  | 0x6E => some 0x0A
  | 0x72 => some 0x0D
  | 0x74 => some 0x09
  | 0x76 => some 0x0B
  | 0x5C => some 0x5C
  | 0x22 => some 0x22
  | _ => none

def runeEscape (width : ℕ) (bs : Bytes) : Option (Bytes × Bytes) :=
  (fixedDigits Url.unhex 16 width bs).bind (fun v ↦
    if v < 0xD800 || 0xDFFF < v &&
      v < 0x110000 then some (String.utf8EncodeChar (Char.ofNat v), bs.drop width) else none)

/-- What stands after a backslash: the bytes it is read as, and the rest. -/
def unquoteEscape (d : UInt8) (bs : Bytes) : Option (Bytes × Bytes) :=
  match letterEscape d with
  | some b => some ([b], bs)
  | none =>
    if d = 0x78 then (fixedDigits Url.unhex 16 2 bs).map (fun v ↦ ([UInt8.ofNat v], bs.drop 2))
    else if d = 0x75 then runeEscape 4 bs
    else if d = 0x55 then runeEscape 8 bs
    else (fixedDigits octalDigit 8 3 (d :: bs)).bind
      (fun v ↦ if v ≤ 255 then some ([UInt8.ofNat v], bs.drop 2) else none)

/-- `strconv.UnquoteChar` with a double quote, giving the bytes that `strconv.Unquote` then appends. -/
def unquoteChar : Bytes → Option (Bytes × Bytes)
  | [] => none
  | c :: bs =>
    if c = 0x22 then none
    else if 0x80 ≤ c then
      some (String.utf8EncodeChar (decodeRune (c :: bs)).1, (c :: bs).drop (decodeRune (c :: bs)).2)
    else if c = 0x5C then
      match bs with
      | [] => none
      | d :: bs => unquoteEscape d bs
    else some ([c], bs)

/-- Reads to the closing quote, refusing a newline, with one unit of fuel for each character and for the
quote. -/
def unquoteBody : ℕ → Bytes → Option (Bytes × Bytes)
  | 0, _ => none
  | _, [] => none
  | n + 1, c :: bs =>
    if c = 0x22 then some ([], bs)
    else if c = 0x0A then none
    else (unquoteChar (c :: bs)).bind (fun p ↦ (unquoteBody n p.2).map (fun q ↦ (p.1 ++ q.1, q.2)))

/-- The text and the rest. Go takes a text without an escape as it stands. -/
def unquoteRest (bs : Bytes) : Option (Bytes × Bytes) :=
  let inner := bs.takeWhile (fun b ↦ b != 0x22)
  if 0x22 ∈ bs then
    if 0x5C ∉ inner ∧ 0x0A ∉ inner ∧ ofChars (chars inner) = inner then
      some (inner, bs.drop (inner.length + 1))
    else unquoteBody bs.length bs
  else none

/-- `strconv.Unquote` of a text in double quotes. -/
def unquote : Bytes → Option Bytes
  | [] => none
  | c :: bs => if c = 0x22 then (unquoteRest bs).bind (fun p ↦ if p.2 = [] then some p.1 else none) else none

/-- Bytes that are read as others, whatever follows them. -/
def ReadsAs (written read : Bytes) : Prop :=
  ∀ n rest, unquoteBody (n + 1) (written ++ rest) = (unquoteBody n rest).map (fun q ↦ (read ++ q.1, q.2))

theorem readsAs_escape {d b : UInt8} (h : letterEscape d = some b) : ReadsAs [0x5C, d] [b] := by
  intro n rest
  have hchar : unquoteChar (0x5C :: d :: rest) = some ([b], rest) := by simp [unquoteChar, unquoteEscape, h]
  simp [unquoteBody, hchar]

theorem first_ne {c d : Char} {b b' : UInt8} {bs : Bytes} (h : c ≠ d) (hd : d.toNat = b'.toNat)
    (hb : b'.toNat < 0x80) (hc : String.utf8EncodeChar c = b :: bs) : b ≠ b' := by
  rintro rfl
  have hne : c.toNat ≠ b.toNat := fun hn ↦ h (Char.toNat_inj.mp (hn.trans hd.symm))
  apply notMem_utf8EncodeChar hb hne
  rw [hc]
  exact List.mem_cons_self

theorem unquoteChar_char {c : Char} (hq : c ≠ '"') (hb : c ≠ '\\') (rest : Bytes) :
    unquoteChar (String.utf8EncodeChar c ++ rest) = some (String.utf8EncodeChar c, rest) := by
  obtain ⟨b, bs, hc⟩ := List.exists_cons_of_ne_nil (utf8EncodeChar_ne_nil c)
  have hquote : b ≠ 0x22 := first_ne hq (by decide) (by decide) hc
  have hback : b ≠ 0x5C := first_ne hb (by decide) (by decide) hc
  have hd := decodeRune_utf8EncodeChar c rest
  rw [hc] at hd ⊢
  by_cases hhigh : 0x80 ≤ b
  · simp only [unquoteChar, List.cons_append, if_neg hquote, if_pos hhigh]
    rw [← List.cons_append, hd, hc, List.drop_left]
  · -- an ASCII byte is a character of its own
    have hone : decodeRune (b :: bs ++ rest) = (Char.ofNat b.toNat, 1) := by
      simp [decodeRune, decodeOne, UInt8.not_le.mp hhigh]
    have hlen : bs = [] := by
      have := congrArg Prod.snd (hd.symm.trans hone)
      simpa using this
    simp [unquoteChar, hlen, hquote, hhigh, hback]

theorem readsAs_char {c : Char} (hq : c ≠ '"') (hb : c ≠ '\\') (hn : c ≠ '\n') :
    ReadsAs (String.utf8EncodeChar c) (String.utf8EncodeChar c) := by
  intro n rest
  obtain ⟨b, bs, hc⟩ := List.exists_cons_of_ne_nil (utf8EncodeChar_ne_nil c)
  have hquote : b ≠ 0x22 := first_ne hq (by decide) (by decide) hc
  have hnew : b ≠ 0x0A := first_ne hn (by decide) (by decide) hc
  have hchar := unquoteChar_char hq hb rest
  rw [hc, List.cons_append] at hchar
  rw [hc, List.cons_append, unquoteBody, if_neg hquote, if_neg hnew, hchar, Option.bind_some]

theorem length_le_length_flatMap {α : Type} {write : α → Bytes} {xs : List α} (h : ∀ x ∈ xs, write x ≠ []) :
    xs.length ≤ (xs.flatMap write).length := by
  induction xs with
  | nil => exact le_rfl
  | cons x xs ih =>
    have hx := List.length_pos_of_ne_nil (h x List.mem_cons_self)
    have hxs := ih (fun y hy ↦ h y (List.mem_cons_of_mem x hy))
    rw [List.flatMap_cons, List.length_append, List.length_cons]
    omega

theorem unquoteBody_reads {α : Type} {write value : α → Bytes} {xs : List α}
    (h : ∀ x ∈ xs, ReadsAs (write x) (value x)) {n : ℕ} (hn : xs.length < n) (rest : Bytes) :
    unquoteBody n (xs.flatMap write ++ 0x22 :: rest) = some (xs.flatMap value, rest) := by
  induction xs generalizing n with
  | nil =>
    obtain ⟨n, rfl⟩ := Nat.exists_eq_add_one.mpr hn
    simp [unquoteBody]
  | cons x xs ih =>
    obtain ⟨n, rfl⟩ := Nat.exists_eq_add_one.mpr (Nat.zero_lt_of_lt hn)
    have hx := h x List.mem_cons_self
    rw [List.flatMap_cons, List.append_assoc, hx,
      ih (fun y hy ↦ h y (List.mem_cons_of_mem x hy)) (Nat.succ_lt_succ_iff.mp hn)]
    rfl

end OtlpCollectorOidc.Strconv

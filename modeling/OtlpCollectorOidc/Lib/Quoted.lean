import OtlpCollectorOidc.Lib.Fields
import OtlpCollectorOidc.Lib.Strconv

namespace OtlpCollectorOidc.Strconv

open Text

def lowerhex (n : ℕ) : UInt8 := UInt8.ofNat (if n < 10 then 0x30 + n else 0x57 + n)

def hexDigits (width n : ℕ) : Bytes := (List.range width).reverse.map (fun i ↦ lowerhex (n / 16 ^ i % 16))

section Quote

variable (isPrint : Char → Bool)

/-- A rune as `strconv.Quote` writes it; a byte that is none is written as the byte. -/
def quoteRune (r : Rune) : Bytes :=
  if r.value = replacement && r.raw.length = 1 then ofString "\\x" ++ hexDigits 2 (r.raw.headD 0).toNat
  else if r.value = '"' || r.value = '\\' then 0x5C :: r.raw
  else if isPrint r.value then r.raw
  else match r.value.toNat with
    | 0x07 => "\\a"
    | 0x08 => "\\b"
    | 0x0C => "\\f"
    | 0x0A => "\\n"
    | 0x0D => "\\r"
    | 0x09 => "\\t"
    | 0x0B => "\\v"
    | n =>
      if n < 0x20 || n = 0x7F then ofString "\\x" ++ hexDigits 2 n
      else if n < 0x10000 then ofString "\\u" ++ hexDigits 4 n
      else ofString "\\U" ++ hexDigits 8 n

def quoteBody (bs : Bytes) : Bytes := (runes bs).flatMap (quoteRune isPrint)

/-- `strconv.Quote`, but for the characters that `strconv.IsPrint` lists. -/
def quote (bs : Bytes) : Bytes := 0x22 :: quoteBody isPrint bs ++ [0x22]

/-- What stands between two ASCII bytes is quoted on its own. -/
theorem quoteBody_between {b c : UInt8} (hb : b.toNat < 0x80) (hc : c.toNat < 0x80) (xs ys zs : Bytes) :
    quoteBody isPrint ys <:+: quote isPrint (xs ++ b :: (ys ++ c :: zs)) := by
  have htail {b : UInt8} (hb : b.toNat < 0x80) : isTail b = false := by
    rw [Bool.eq_false_iff, ne_eq, isTail_iff]
    omega
  have hsplit : quoteBody isPrint (xs ++ b :: (ys ++ c :: zs)) = quoteBody isPrint xs ++
      quoteRune isPrint ⟨Char.ofNat b.toNat, [b]⟩ ++ quoteBody isPrint ys ++ quoteBody isPrint (c :: zs) := by
    rw [quoteBody, runes_append (htail hb), runes_ascii hb, runes_append (htail hc)]
    simp [quoteBody]
  refine ⟨0x22 :: (quoteBody isPrint xs ++ quoteRune isPrint ⟨Char.ofNat b.toNat, [b]⟩),
    quoteBody isPrint (c :: zs) ++ [0x22], ?_⟩
  rw [quote, hsplit]
  simp

end Quote

end OtlpCollectorOidc.Strconv

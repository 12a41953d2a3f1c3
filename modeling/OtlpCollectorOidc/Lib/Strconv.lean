import OtlpCollectorOidc.Lib.Number
import OtlpCollectorOidc.Lib.Text

namespace OtlpCollectorOidc.Strconv

open Text Number

def isDigit (c : UInt8) : Bool := 0x30 ≤ c && c ≤ 0x39

def digitsValue (ds : Bytes) : ℕ := ds.foldl (fun n d ↦ 10 * n + (d.toNat - 0x30)) 0

/-- `strconv.ParseUint` in base ten. -/
def parseUint (bits : ℕ) (bs : Bytes) : Option ℕ :=
  if bs ≠ [] && bs.all isDigit && digitsValue bs < 2 ^ bits then some (digitsValue bs) else none

theorem parseUint_lt {bits n : ℕ} {bs : Bytes} (h : parseUint bits bs = some n) : n < 2 ^ bits := by
  unfold parseUint at h
  split_ifs at h with hb
  simp only [Bool.and_eq_true, decide_eq_true_iff] at hb
  exact Option.some.inj h ▸ hb.2

/-- `strconv.ParseInt` in base ten. -/
def parseInt (bits : ℕ) (bs : Bytes) : Option ℤ :=
  let (negative, digits) := match bs with
    | 0x2D :: rest => (true, rest)
    | 0x2B :: rest => (false, rest)
    | _ => (false, bs)
  match parseUint bits digits with
  | none => none
  | some n =>
    if negative then (if n ≤ 2 ^ (bits - 1) then some (-n) else none)
    else if n < 2 ^ (bits - 1) then some n else none

def formatInt (n : ℤ) : Bytes := ofString (toString n)

/-- The digits at the head of a duration's text; none where their value overflows. -/
def leadingInt (bs : Bytes) : Option (ℕ × Bytes) :=
  let (digits, rest) := bs.span isDigit
  if digitsValue digits ≤ 2 ^ 63 then some (digitsValue digits, rest) else none

/-- The digits after the point, as many as fit, and the power of ten they are over. -/
def leadingFraction (f scale : ℕ) (full : Bool) : Bytes → ℕ × ℕ × Bytes
  | [] => (f, scale, [])
  | c :: rest =>
    if isDigit c then
      let y := 10 * f + (c.toNat - 0x30)
      if full || (2 ^ 63 - 1) / 10 < f || 2 ^ 63 < y then leadingFraction f scale true rest
      else leadingFraction y (10 * scale) false rest
    else (f, scale, c :: rest)

def units : List (Bytes × ℕ) :=
  [("ns", 1), ("us", 10 ^ 3), ("µs", 10 ^ 3), ("μs", 10 ^ 3), ("ms", 10 ^ 6), ("s", 10 ^ 9),
    ("m", 60 * 10 ^ 9), ("h", 3600 * 10 ^ 9)]

/-- The terms of a duration, each a number and its unit, added up. Every term
takes at least one byte, so `fuel` is the length of the text. -/
def parseTerms : ℕ → ℕ → Bytes → Option ℕ
  | _, d, [] => some d
  | 0, _, _ :: _ => none
  | fuel + 1, d, c :: s => do
    let (v, rest) ← leadingInt (c :: s)
    let before := rest.length < (c :: s).length
    let (f, scale, after) := match rest with
      | 0x2E :: rest => leadingFraction 0 1 false rest
      | rest => (0, 1, rest)
    let point := rest.head? = some 0x2E
    if !before && !(point && after.length + 1 < rest.length) then none
    else do
      let (name, rest) := after.span (fun c ↦ !(c = 0x2E || isDigit c))
      let unit ← (units.find? (fun u ↦ u.1 = name)).map Prod.snd
      if 2 ^ 63 / unit < v then none
      else
        let fraction := if f = 0 then 0 else
          (truncate (roundFloat64 (roundFloat64 f * roundFloat64 ((unit : ℚ) / (scale : ℚ))))).toNat
        let v := v * unit + fraction
        let d := (d + v) % 2 ^ 64
        if 2 ^ 63 < v || 2 ^ 63 < d then none else parseTerms fuel d rest

/-- `time.ParseDuration`. -/
def parseDuration (bs : Bytes) : Option Duration :=
  let (negative, s) := match bs with
    | 0x2D :: rest => (true, rest)
    | 0x2B :: rest => (false, rest)
    | _ => (false, bs)
  if s = [0x30] then some 0
  else if s = [] then none
  else match parseTerms s.length 0 s with
    | none => none
    | some d => if negative then some (-d) else if d < 2 ^ 63 then some d else none

/-- The fraction of `v / 10 ^ digits` without its trailing zeros. -/
def fraction (v digits : ℕ) : Bytes :=
  let text := ofString (toString (10 ^ digits + v % 10 ^ digits))
  let kept := (text.drop 1).rdropWhile (· = 0x30)
  if kept = [] then [] else 0x2E :: kept

/-- `Duration.String`. -/
def durationString (d : Duration) : Bytes :=
  let u := d.natAbs
  let number (n : ℕ) := ofString (toString n)
  let text :=
    if u = 0 then ofString "0s"
    else if u < 10 ^ 3 then number u ++ ofString "ns"
    else if u < 10 ^ 6 then number (u / 10 ^ 3) ++ fraction u 3 ++ ofString "µs"
    else if u < 10 ^ 9 then number (u / 10 ^ 6) ++ fraction u 6 ++ ofString "ms"
    else
      let seconds := u / 10 ^ 9
      let minutes := seconds / 60
      let hours := minutes / 60
      (if 0 < hours then number hours ++ ofString "h" else []) ++
      (if 0 < minutes then number (minutes % 60) ++ ofString "m" else []) ++
      number (seconds % 60) ++ fraction u 9 ++ ofString "s"
  if d < 0 then 0x2D :: text else text

example : parseDuration (ofString "1h2m3.5s") = some (3723500 * 10 ^ 6) := by decide +kernel

example : durationString (3723500 * 10 ^ 6) = ofString "1h2m3.5s" := by decide +kernel

end OtlpCollectorOidc.Strconv

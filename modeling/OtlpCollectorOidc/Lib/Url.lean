import Mathlib.Data.List.TakeDrop
import OtlpCollectorOidc.Lib.Text

namespace OtlpCollectorOidc.Url

open Text

/-- What `url.Parse` reads out of an address. -/
structure URL where
  scheme : Bytes := []
  opaqueData : Bytes := []
  host : Bytes := []
  path : Bytes := []
  rawQuery : Bytes := []
  fragment : Bytes := []

inductive Mode where
  | path
  | userPassword
  | host
  | zone
  | fragment
  deriving DecidableEq

def isLetter (c : UInt8) : Bool := (0x61 ≤ c && c ≤ 0x7A) || (0x41 ≤ c && c ≤ 0x5A)

def isDigit (c : UInt8) : Bool := 0x30 ≤ c && c ≤ 0x39

def unhex (c : UInt8) : Option ℕ :=
  if isDigit c then some (c.toNat - 0x30)
  else if 0x61 ≤ c && c ≤ 0x66 then some (c.toNat - 0x61 + 10)
  else if 0x41 ≤ c && c ≤ 0x46 then some (c.toNat - 0x41 + 10)
  else none

def hostAllows (c : UInt8) : Bool :=
  isLetter c || isDigit c || c ∈ ofString "-_.~!$&'()*+,;=:[]<>\""

def escapeAllowed (mode : Mode) (a b : UInt8) (n : ℕ) : Bool :=
  let percent := a = 0x32 && b = 0x35
  match mode with
  | .host => percent || 0x80 ≤ n
  | .zone => percent || n = 0x20 || hostAllows (UInt8.ofNat n)
  | _ => true

def plainAllowed (mode : Mode) (c : UInt8) : Bool :=
  match mode with
  | .host | .zone => 0x80 ≤ c || hostAllows c
  | _ => true

def unescape (mode : Mode) : Bytes → Option Bytes
  | [] => some []
  | 0x25 :: a :: b :: rest => do
    let x ← unhex a
    let y ← unhex b
    if escapeAllowed mode a b (16 * x + y) then
      (unescape mode rest).map (UInt8.ofNat (16 * x + y) :: ·)
    else none
  | c :: rest =>
    if c ≠ 0x25 && plainAllowed mode c then (unescape mode rest).map (c :: ·) else none

def cutLast (sep : UInt8) (bs : Bytes) : Option (Bytes × Bytes) :=
  (cut sep bs.reverse).map (fun p ↦ (p.2.reverse, p.1.reverse))

def getScheme (raw : Bytes) : Option (Bytes × Bytes) :=
  match raw.span (fun c ↦ isLetter c || isDigit c || c ∈ ofString "+-.") with
  | ([], 0x3A :: _) => none
  | (c :: cs, 0x3A :: rest) => if isLetter c then some (c :: cs, rest) else some ([], raw)
  | _ => some ([], raw)

def validOptionalPort : Bytes → Bool
  | [] => true
  | c :: port => c = 0x3A && port.all isDigit

def cutPercent : Bytes → Option (Bytes × Bytes)
  | 0x25 :: 0x32 :: 0x35 :: rest => some ([], 0x25 :: 0x32 :: 0x35 :: rest)
  | [] => none
  | c :: rest => (cutPercent rest).map (fun p ↦ (c :: p.1, p.2))

def isOctet (bs : Bytes) : Bool :=
  bs ≠ [] && bs.all isDigit && (bs.length = 1 || bs.head? ≠ some 0x30) &&
    bs.foldl (fun n c ↦ 10 * n + (c.toNat - 0x30)) 0 ≤ 255

def areOctets : ℕ → Bytes → Bool
  | 0, _ => false
  | 1, bs => isOctet bs
  | n + 2, bs =>
    match cut 0x2E bs with
    | some (octet, rest) => isOctet octet && areOctets (n + 1) rest
    | none => false

/-- Whether the text fills as many groups as are left of an IPv6 address, all of them unless `::` was seen. -/
def areGroups : ℕ → Bool → Bytes → Bool
  | 0, ellipsis, bs => bs.isEmpty && !ellipsis
  | n + 1, ellipsis, bs =>
    let (digits, rest) := bs.span (fun c ↦ (unhex c).isSome)
    if digits = [] || 4 < digits.length then false
    else match rest with
      | [] => ellipsis = decide (0 < n)
      -- An IPv4 address stands for the last two groups.
      | 0x2E :: _ => n ≠ 0 && ellipsis = decide (1 < n) && areOctets 4 bs
      | [0x3A] => false
      | [0x3A, 0x3A] => !ellipsis && 0 < n
      | 0x3A :: 0x3A :: rest => !ellipsis && areGroups n true rest
      | 0x3A :: rest => areGroups n ellipsis rest
      | _ => false

/-- Whether `netip.ParseAddr` reads an IPv6 address, with its zone if it has one. -/
def isIPv6 (text : Bytes) : Bool :=
  let (address, zone) := match cut 0x25 text with
    | some (address, zone) => (address, some zone)
    | none => (text, none)
  zone ≠ some [] && match address with
    | [0x3A, 0x3A] => true
    | 0x3A :: 0x3A :: rest => areGroups 8 true rest
    | _ => areGroups 8 false address

def unescapeLiteral (literal : Bytes) : Option Bytes :=
  match cutPercent literal with
  | some (address, zone) => do
    let address ← unescape .host address
    let zone ← unescape .zone zone
    some (address ++ zone)
  | none => unescape .host literal

/-- A host with an optional port. Only a host in brackets may have colons of its own, unless `several` may. -/
def parseHost (several : Bool) (host : Bytes) : Option Bytes :=
  match cutLast 0x5B host with
  | some ([], inner) => do
    let (literal, port) ← cutLast 0x5D inner
    let address ← unescapeLiteral literal
    if validOptionalPort port && isIPv6 address then some (0x5B :: address ++ 0x5D :: port) else none
  | some (_ :: _, _) => none
  | none =>
    match if several then cutLast 0x3A host else cut 0x3A host with
    | some (_, port) => if port.all isDigit then unescape .host host else none
    | none => unescape .host host

def validUserinfo (bs : Bytes) : Bool :=
  bs.all (fun c ↦ isLetter c || isDigit c || c ∈ ofString "-._:~!$&'()*+,;=%@")

def parseAuthority (several : Bool) (authority : Bytes) : Option Bytes :=
  match cutLast 0x40 authority with
  | none => parseHost several authority
  | some (userinfo, host) => do
    let host ← parseHost several host
    if validUserinfo userinfo then
      match cut 0x3A userinfo with
      | none => (unescape .userPassword userinfo).map (fun _ ↦ host)
      | some (username, password) => do
        let _ ← unescape .userPassword username
        let _ ← unescape .userPassword password
        some host
    else none

def parseHierarchy (several : Bytes → Bool) (scheme rest : Bytes) : Option URL :=
  match rest with
  | 0x2F :: 0x2F :: after =>
    if scheme = [] && after.head? = some 0x2F then (unescape .path rest).map (fun p ↦ { path := p })
    else do
      let (authority, path) := after.span (· ≠ 0x2F)
      let host ← parseAuthority (several scheme) authority
      let path ← unescape .path path
      some { scheme := scheme, host := host, path := path }
  | _ => (unescape .path rest).map (fun p ↦ { scheme := scheme, path := p })

/-- `url.Parse`, its errors all alike, where the hosts of some schemes may have several colons. -/
def parseWith (several : Bytes → Bool) (raw : Bytes) : Option URL := do
  let (before, fragment) := (cut 0x23 raw).getD (raw, [])
  if before.any (fun c ↦ c < 0x20 || c = 0x7F) then none
  else if before = [0x2A] then (unescape .fragment fragment).map (fun f ↦ { path := before, fragment := f })
  else do
    let (scheme, rest) ← getScheme before
    let scheme := scheme.map (fun c ↦ if 0x41 ≤ c && c ≤ 0x5A then c + 0x20 else c)
    let (rest, query) := (cut 0x3F rest).getD (rest, [])
    let fragment ← unescape .fragment fragment
    if rest.head? = some 0x2F then
      (parseHierarchy several scheme rest).map (fun u ↦ { u with rawQuery := query, fragment := fragment })
    else if scheme ≠ [] then
      some { scheme := scheme, opaqueData := rest, rawQuery := query, fragment := fragment }
    else if 0x3A ∈ rest.takeWhile (· ≠ 0x2F) then none
    else (unescape .path rest).map (fun p ↦ { path := p, rawQuery := query, fragment := fragment })

/-- `url.Parse` of an address that has to be http or https. -/
def parse (raw : Bytes) : Option URL := parseWith (fun _ ↦ false) raw

/-- What stands between the slashes of an address that has an authority. -/
def authority (raw : Bytes) : Bytes :=
  let before := ((cut 0x23 raw).getD (raw, [])).1
  match getScheme before with
  | none => []
  | some (scheme, rest) =>
    match ((cut 0x3F rest).getD (rest, [])).1 with
    | 0x2F :: 0x2F :: after =>
      if scheme = [] && after.head? = some 0x2F then [] else after.takeWhile (· ≠ 0x2F)
    | _ => []

/-- Whether `url.Parse` sets `User`. -/
def hasUser (raw : Bytes) : Bool := 0x40 ∈ authority raw

def splitHostPort (hostPort : Bytes) : Bytes × Bytes :=
  let (host, port) := match cutLast 0x3A hostPort with
    | some (host, port) => if port.all isDigit then (host, port) else (hostPort, [])
    | none => (hostPort, [])
  match host, host.getLast? with
  | 0x5B :: inner, some 0x5D => (inner.dropLast, port)
  | _, _ => (host, port)

def URL.hostname (u : URL) : Bytes := (splitHostPort u.host).1

def URL.port (u : URL) : Bytes := (splitHostPort u.host).2

def upperhex (n : ℕ) : UInt8 := UInt8.ofNat (if n < 10 then 0x30 + n else 0x37 + n)

def percentEncode (keep : UInt8 → Bool) (bs : Bytes) : Bytes :=
  bs.flatMap (fun c ↦ if keep c then [c] else [0x25, upperhex (c.toNat / 16), upperhex (c.toNat % 16)])

def unreserved (c : UInt8) : Bool := isLetter c || isDigit c || c ∈ ofString "-_.~"

/-- `url.PathEscape`. -/
def pathEscape : Bytes → Bytes := percentEncode (fun c ↦ unreserved c || c ∈ ofString "$&+:=@")

/-- `url.QueryEscape`, in which a space is a plus sign. -/
def queryEscape (bs : Bytes) : Bytes :=
  replaceByte 0x20 [0x2B] (percentEncode (fun c ↦ unreserved c || c = 0x20) bs)

def queryUnescape (bs : Bytes) : Option Bytes := unescape .path (replaceByte 0x2B [0x20] bs)

theorem cutLast_eq_some {sep : UInt8} {bs before after : Bytes} (h : cutLast sep bs = some (before, after)) :
    bs = before ++ sep :: after ∧ sep ∉ after := by
  rw [cutLast, Option.map_eq_some_iff] at h
  obtain ⟨⟨x, y⟩, hcut, he⟩ := h
  obtain ⟨rfl, rfl⟩ := Prod.mk.inj he
  obtain ⟨hsplit, hnot⟩ := cut_eq_some hcut
  have hrev := congrArg List.reverse hsplit
  exact ⟨by simpa using hrev, by simpa using hnot⟩

theorem cutLast_append {sep : UInt8} (before : Bytes) {after : Bytes} (h : sep ∉ after) :
    cutLast sep (before ++ sep :: after) = some (before, after) := by
  have hrev : (before ++ sep :: after).reverse = after.reverse ++ sep :: before.reverse := by simp
  rw [cutLast, hrev, cut_append (by simpa using h)]
  simp

theorem unhex_upperhex : ∀ n < 16, unhex (upperhex n) = some n := by decide

theorem unescape_plain {c : UInt8} (hc : c ≠ 0x25) (bs : Bytes) :
    unescape .path (c :: bs) = (unescape .path bs).map (c :: ·) := by
  rw [unescape]
  · simp [hc, plainAllowed]
  · simp [hc]

theorem unescape_percent (c : UInt8) (bs : Bytes) :
    unescape .path (0x25 :: upperhex (c.toNat / 16) :: upperhex (c.toNat % 16) :: bs) =
      (unescape .path bs).map (c :: ·) := by
  have hlt : c.toNat < 256 := c.toNat_lt
  have hn : 16 * (c.toNat / 16) + c.toNat % 16 = c.toNat := by omega
  rw [unescape, unhex_upperhex _ (by omega), unhex_upperhex _ (by omega)]
  simp only [Option.bind_eq_bind, Option.bind_some, hn, escapeAllowed, if_true, UInt8.ofNat_toNat]

theorem percentEncode_cons (keep : UInt8 → Bool) (c : UInt8) (bs : Bytes) : percentEncode keep (c :: bs) =
    (if keep c then [c] else [0x25, upperhex (c.toNat / 16), upperhex (c.toNat % 16)]) ++
      percentEncode keep bs := rfl

/-- Percent-decoding undoes percent-encoding, as long as the percent sign itself is encoded. -/
theorem unescape_percentEncode {keep : UInt8 → Bool} (hkeep : keep 0x25 = false) (bs : Bytes) :
    unescape .path (percentEncode keep bs) = some bs := by
  induction bs with
  | nil => rfl
  | cons c bs ih =>
    rw [percentEncode_cons]
    split_ifs with hc
    · have hne : c ≠ 0x25 := by
        rintro rfl
        rw [hkeep] at hc
        cases hc
      rw [List.singleton_append, unescape_plain hne, ih]
      rfl
    · simp only [List.cons_append, List.nil_append]
      rw [unescape_percent, ih]
      rfl

def isUpperhex (c : UInt8) : Bool := isDigit c || (0x41 ≤ c && c ≤ 0x46)

theorem isUpperhex_upperhex : ∀ n < 16, isUpperhex (upperhex n) = true := by decide

theorem isUpperhex_byte (c : UInt8) :
    isUpperhex (upperhex (c.toNat / 16)) = true ∧ isUpperhex (upperhex (c.toNat % 16)) = true := by
  have hlt : c.toNat < 256 := c.toNat_lt
  exact ⟨isUpperhex_upperhex _ (by omega), isUpperhex_upperhex _ (by omega)⟩

theorem mem_percentEncode {keep : UInt8 → Bool} {bs : Bytes} {c : UInt8} (h : c ∈ percentEncode keep bs) :
    keep c = true ∨ c = 0x25 ∨ isUpperhex c = true := by
  obtain ⟨d, _, hd⟩ := List.mem_flatMap.mp h
  split_ifs at hd with hk
  · rw [List.mem_singleton] at hd
    exact Or.inl (hd ▸ hk)
  · obtain ⟨hhigh, hlow⟩ := isUpperhex_byte d
    simp only [List.mem_cons, List.not_mem_nil, or_false] at hd
    obtain rfl | rfl | rfl := hd
    · exact Or.inr (Or.inl rfl)
    · exact Or.inr (Or.inr hhigh)
    · exact Or.inr (Or.inr hlow)

/-- Every percent sign of an encoded text begins an escape. -/
theorem percentEncode_escapes {keep : UInt8 → Bool} (hkeep : keep 0x25 = false) {bs before after : Bytes}
    (h : percentEncode keep bs = before ++ 0x25 :: after) :
    ∃ a b rest, after = a :: b :: rest ∧ isUpperhex a = true ∧ isUpperhex b = true := by
  induction bs generalizing before with
  | nil => simp [percentEncode] at h
  | cons c bs ih =>
    rw [percentEncode_cons] at h
    split_ifs at h with hc
    · cases before with
      | nil =>
        obtain ⟨rfl, _⟩ := List.cons.inj h
        rw [hkeep] at hc
        cases hc
      | cons d before => exact ih (List.cons.inj h).2
    · obtain ⟨hhigh, hlow⟩ := isUpperhex_byte c
      have hne {d : UInt8} (hd : isUpperhex d = true) : d ≠ 0x25 := by
        rintro rfl
        cases hd
      -- The escape's own percent sign is the only one among its three bytes.
      match before with
      | [] => exact ⟨_, _, _, (List.cons.inj h).2.symm, hhigh, hlow⟩
      | [_] => exact absurd (List.cons.inj (List.cons.inj h).2).1 (hne hhigh)
      | [_, _] => exact absurd (List.cons.inj (List.cons.inj (List.cons.inj h).2).2).1 (hne hlow)
      | _ :: _ :: _ :: before => exact ih (List.cons.inj (List.cons.inj (List.cons.inj h).2).2).2

theorem forall_byte {P : UInt8 → Prop} (h : ∀ n < 256, P (UInt8.ofNat n)) (c : UInt8) : P c := by
  have hc := h c.toNat c.toNat_lt
  rwa [UInt8.ofNat_toNat] at hc

theorem queryEscape_cons (c : UInt8) (bs : Bytes) :
    queryEscape (c :: bs) = queryEscape [c] ++ queryEscape bs := by
  rw [queryEscape, queryEscape, queryEscape, ← replaceByte_append]
  simp [percentEncode]

theorem queryEscape_byte : ∀ c : UInt8,
    (0x26 ∉ queryEscape [c] ∧ 0x3D ∉ queryEscape [c]) ∧
      (c ≠ 0x25 ∧ replaceByte 0x2B [0x20] (queryEscape [c]) = [c] ∨
        replaceByte 0x2B [0x20] (queryEscape [c]) =
          [0x25, upperhex (c.toNat / 16), upperhex (c.toNat % 16)]) :=
  forall_byte (by decide +kernel)

/-- No separator occurs in an escaped part. -/
theorem notMem_queryEscape (bs : Bytes) : 0x26 ∉ queryEscape bs ∧ 0x3D ∉ queryEscape bs := by
  induction bs with
  | nil => decide
  | cons c bs ih =>
    obtain ⟨⟨hamp, heq⟩, _⟩ := queryEscape_byte c
    rw [queryEscape_cons]
    simp [hamp, heq, ih.1, ih.2]

theorem queryUnescape_queryEscape (bs : Bytes) : queryUnescape (queryEscape bs) = some bs := by
  unfold queryUnescape
  induction bs with
  | nil => rfl
  | cons c bs ih =>
    rw [queryEscape_cons, replaceByte_append]
    obtain ⟨hc, hr⟩ | hr := (queryEscape_byte c).2
    · rw [hr, List.singleton_append, unescape_plain hc, ih]
      rfl
    · rw [hr]
      simp only [List.cons_append, List.nil_append]
      rw [unescape_percent, ih]
      rfl

def schemeByte (c : UInt8) : Bool := isLetter c || isDigit c || c ∈ ofString "+-."

def schemeOf (raw : Bytes) : Bytes := ((getScheme raw).map (fun p ↦ toLower p.1)).getD []

structure IsScheme (s : Bytes) : Prop where
  letter : ∃ c cs, s = c :: cs ∧ isLetter c = true
  bytes : ∀ c ∈ s, schemeByte c = true

theorem getScheme_append {s : Bytes} (hs : IsScheme s) (rest : Bytes) :
    getScheme (s ++ 0x3A :: rest) = some (s, rest) := by
  obtain ⟨c, cs, rfl, hc⟩ := hs.letter
  have hspan : (c :: cs ++ 0x3A :: rest).span schemeByte = (c :: cs, 0x3A :: rest) := by
    rw [List.span_eq_takeWhile_dropWhile, List.takeWhile_append_of_pos hs.bytes,
      List.dropWhile_append_of_pos hs.bytes, List.takeWhile_cons_of_neg (by decide),
        List.dropWhile_cons_of_neg (by decide), List.append_nil]
  unfold getScheme
  rw [show (fun c ↦ isLetter c || isDigit c || decide (c ∈ ofString "+-.")) = schemeByte from rfl, hspan]
  exact if_pos hc

theorem getScheme_eq_some {raw s rest : Bytes} (h : getScheme raw = some (s, rest)) (hs : s ≠ []) :
    IsScheme s ∧ raw = s ++ 0x3A :: rest := by
  unfold getScheme at h
  have hspan : raw.span schemeByte = (raw.takeWhile schemeByte, raw.dropWhile schemeByte) :=
    List.span_eq_takeWhile_dropWhile _ raw
  split at h
  · cases h
  · rename_i c cs rest' he
    split_ifs at h with hc
    · cases h
      have htake : raw.takeWhile schemeByte = c :: cs := congrArg Prod.fst (hspan.symm.trans he)
      have hdrop : raw.dropWhile schemeByte = 0x3A :: rest := congrArg Prod.snd (hspan.symm.trans he)
      refine ⟨⟨⟨c, cs, rfl, hc⟩, ?_⟩, ?_⟩
      · rw [← htake]
        exact fun x hx ↦ List.mem_takeWhile_imp hx
      · rw [← htake, ← hdrop, List.takeWhile_append_dropWhile]
    · cases h
      exact absurd rfl hs
  · cases h
    exact absurd rfl hs

theorem schemeOf_append {s : Bytes} (hs : IsScheme s) (rest : Bytes) :
    schemeOf (s ++ 0x3A :: rest) = toLower s := by
  rw [schemeOf, getScheme_append hs]
  rfl

variable {several : Bytes → Bool}

theorem scheme_parseHierarchy {scheme rest : Bytes} {u : URL}
    (h : parseHierarchy several scheme rest = some u) (hu : u.scheme ≠ []) : u.scheme = scheme := by
  unfold parseHierarchy at h
  split at h
  · split_ifs at h
    · obtain ⟨p, _, rfl⟩ := Option.map_eq_some_iff.mp h
      exact absurd rfl hu
    · simp only [Option.bind_eq_bind, Option.bind_eq_some_iff] at h
      obtain ⟨_, _, _, _, he⟩ := h
      cases he
      rfl
  · obtain ⟨p, _, rfl⟩ := Option.map_eq_some_iff.mp h
    rfl

theorem scheme_of_parse {raw : Bytes} {u : URL} (h : parseWith several raw = some u) (hu : u.scheme ≠ []) :
    ∃ s rest, IsScheme s ∧ raw = s ++ 0x3A :: rest ∧ u.scheme = toLower s := by
  obtain ⟨before, fragment, tail, hcut, hraw⟩ : ∃ before fragment tail,
      (cut 0x23 raw).getD (raw, []) = (before, fragment) ∧ raw = before ++ tail := by
    cases hc : cut 0x23 raw with
    | none => exact ⟨raw, [], [], rfl, (List.append_nil raw).symm⟩
    | some p => exact ⟨p.1, p.2, 0x23 :: p.2, rfl, (cut_eq_some hc).1⟩
  unfold parseWith at h
  simp only [hcut] at h
  split_ifs at h
  · obtain ⟨_, _, rfl⟩ := Option.map_eq_some_iff.mp h
    exact absurd rfl hu
  · simp only [Option.bind_eq_bind, Option.bind_eq_some_iff] at h
    obtain ⟨⟨scheme, rest⟩, hscheme, f, _, h⟩ := h
    have hlower : u.scheme = toLower scheme := by
      split_ifs at h
      · obtain ⟨v, hv, rfl⟩ := Option.map_eq_some_iff.mp h
        exact scheme_parseHierarchy (u := v) hv hu
      · cases h
        rfl
      · obtain ⟨_, _, rfl⟩ := Option.map_eq_some_iff.mp h
        exact absurd rfl hu
    have hne : scheme ≠ [] := by
      rintro rfl
      exact hu hlower
    obtain ⟨hs, hb⟩ := getScheme_eq_some hscheme hne
    exact ⟨scheme, rest ++ tail, hs, by rw [hraw, hb]; simp, hlower⟩

end OtlpCollectorOidc.Url

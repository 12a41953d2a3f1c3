import OtlpCollectorOidc.Lib.Number
import OtlpCollectorOidc.Lib.Text

namespace OtlpCollectorOidc.Json

open Text Number

/-- A JSON value. The members of an object stand in source order, repeated
names included. -/
inductive Value where
  | null
  | bool (b : Bool)
  | num (q : ℚ)
  | str (s : Bytes)
  | arr (xs : List Value)
  | obj (ms : List (Bytes × Value))

def isBlank (c : Char) : Bool := c = ' ' || c = '\t' || c = '\r' || c = '\n'

def skipBlank (cs : List Char) : List Char := cs.dropWhile isBlank

def decimal (ds : List Char) : ℕ := ds.foldl (fun n d ↦ 10 * n + (d.toNat - '0'.toNat)) 0

def digits (cs : List Char) : Option (List Char × List Char) :=
  match cs.span Char.isDigit with
  | ([], _) => none
  | (ds, rest) => some (ds, rest)

def integerPart : List Char → Option (List Char × List Char)
  | '0' :: rest => some (['0'], rest)
  | cs => digits cs

def fractionPart : List Char → Option (List Char × List Char)
  | '.' :: rest => digits rest
  | cs => some ([], cs)

def exponentPart : List Char → Option (ℤ × List Char)
  | 'e' :: '-' :: rest | 'E' :: '-' :: rest => (digits rest).map (fun p ↦ (-(decimal p.1 : ℤ), p.2))
  | 'e' :: '+' :: rest | 'E' :: '+' :: rest => (digits rest).map (fun p ↦ ((decimal p.1 : ℤ), p.2))
  | 'e' :: rest | 'E' :: rest => (digits rest).map (fun p ↦ ((decimal p.1 : ℤ), p.2))
  | cs => some (0, cs)

def unsigned (cs : List Char) : Option (ℚ × List Char) := do
  let (i, cs) ← integerPart cs
  let (f, cs) ← fractionPart cs
  let (e, cs) ← exponentPart cs
  some ((decimal (i ++ f) : ℚ) * 10 ^ (e - f.length), cs)

def number : List Char → Option (ℚ × List Char)
  | '-' :: cs => (unsigned cs).map (fun p ↦ (-p.1, p.2))
  | cs => unsigned cs

def hexDigit (c : Char) : Option ℕ :=
  if c.isDigit then some (c.toNat - '0'.toNat)
  else if 'a' ≤ c && c ≤ 'f' then some (c.toNat - 'a'.toNat + 10)
  else if 'A' ≤ c && c ≤ 'F' then some (c.toNat - 'A'.toNat + 10)
  else none

inductive Piece where
  | char (c : Char)
  | unit (n : ℕ)

def escape : Char → Option Char
  | '"' => some '"'
  | '\\' => some '\\'
  | '/' => some '/'
  | 'b' => some (Char.ofNat 8)
  | 'f' => some (Char.ofNat 12)
  | 'n' => some '\n'
  | 'r' => some '\r'
  | 't' => some '\t'
  | _ => none

def pieces : List Char → Option (List Piece × List Char)
  | [] => none
  | '"' :: rest => some ([], rest)
  | '\\' :: 'u' :: a :: b :: c :: d :: rest => do
    let n ← [a, b, c, d].foldlM (fun n h ↦ (hexDigit h).map (16 * n + ·)) 0
    let (ps, rest) ← pieces rest
    some (.unit n :: ps, rest)
  | '\\' :: c :: rest => do
    let e ← escape c
    let (ps, rest) ← pieces rest
    some (.char e :: ps, rest)
  | c :: rest =>
    if c.toNat < 0x20 then none
    else (pieces rest).map (fun p ↦ (.char c :: p.1, p.2))

def isSurrogate (n : ℕ) : Bool := 0xD800 ≤ n && n ≤ 0xDFFF

def joinPieces : List Piece → List Char
  | [] => []
  | .char c :: ps => c :: joinPieces ps
  | .unit n :: .unit m :: ps =>
    if 0xD800 ≤ n && n ≤ 0xDBFF && 0xDC00 ≤ m && m ≤ 0xDFFF then
      Char.ofNat (0x10000 + (n - 0xD800) * 0x400 + (m - 0xDC00)) :: joinPieces ps
    else (if isSurrogate n then replacement else Char.ofNat n) :: joinPieces (.unit m :: ps)
  | .unit n :: ps => (if isSurrogate n then replacement else Char.ofNat n) :: joinPieces ps

def stringBody (cs : List Char) : Option (Bytes × List Char) :=
  (pieces cs).map (fun p ↦ (ofChars (joinPieces p.1), p.2))

abbrev Reader (α : Type) := List Char → Option (α × List Char)

def consumed (cs rest : List Char) : List Char :=
  (skipBlank cs).take ((skipBlank cs).length - rest.length)

/-- The items up to the closing bracket, each with its own text. Every item
takes at least one character, so `fuel` is the length of what is left. -/
def items {α : Type} (close : Char) (item : Reader α) : ℕ → Reader (List (α × List Char))
  | 0, _ => none
  | fuel + 1, cs => do
    let (x, rest) ← item cs
    match skipBlank rest with
    | ',' :: rest' => do
      let (xs, rest'') ← items close item fuel rest'
      some ((x, consumed cs rest) :: xs, rest'')
    | c :: rest' => if c = close then some ([(x, consumed cs rest)], rest') else none
    | [] => none

def list {α : Type} (close : Char) (item : Reader α) : Reader (List (α × List Char)) := fun cs ↦
  match skipBlank cs with
  | c :: rest => if c = close then some ([], rest) else items close item cs.length cs
  | [] => none

def member {α : Type} (value : Reader α) : Reader (Bytes × α × List Char) := fun cs ↦
  match skipBlank cs with
  | '"' :: rest => do
    let (name, rest) ← stringBody rest
    match skipBlank rest with
    | ':' :: rest => do
      let (x, rest') ← value rest
      some ((name, x, consumed rest rest'), rest')
    | _ => none
  | _ => none

def scalar (convert : ℚ → Option ℚ) : Reader Value
  | 'n' :: 'u' :: 'l' :: 'l' :: rest => some (.null, rest)
  | 't' :: 'r' :: 'u' :: 'e' :: rest => some (.bool true, rest)
  | 'f' :: 'a' :: 'l' :: 's' :: 'e' :: rest => some (.bool false, rest)
  | '"' :: rest => (stringBody rest).map (fun p ↦ (.str p.1, p.2))
  | cs => do
    let (q, rest) ← number cs
    let f ← convert q
    some (.num f, rest)

/-- One value, nested at most `depth` deep. `convert` is what becomes of a
number literal: `parseFloat` where it is decoded into `any`, and nothing where
its member is skipped or kept raw. -/
def value (convert : ℚ → Option ℚ) : ℕ → Reader Value
  | 0, cs => scalar convert (skipBlank cs)
  | depth + 1, cs =>
    match skipBlank cs with
    | '[' :: rest => (list ']' (value convert depth) rest).map (fun p ↦ (.arr (p.1.map Prod.fst), p.2))
    | '{' :: rest =>
      (list '}' (member (value convert depth)) rest).map
        (fun p ↦ (.obj (p.1.map (fun m ↦ (m.1.1, m.1.2.1))), p.2))
    | cs => scalar convert cs

def maxDepth : ℕ := 10000

/-- `Decoder.Decode` into `any`: the first value, and what follows it unread. -/
def decode (bs : Bytes) : Option (Value × List Char) := value parseFloat maxDepth (chars bs)

def complete {α : Type} (p : α × List Char) : Option α := if skipBlank p.2 = [] then some p.1 else none

def unmarshal (bs : Bytes) : Option Value := (value some maxDepth (chars bs)).bind complete

/-- `json.Unmarshal` into a struct with one string field: a member whose name
is the field's ignoring case sets it, the last one winning; `null` leaves it and
any other kind of value is an error. -/
def stringField (name : String) (ms : List (Bytes × Value)) : Option Bytes :=
  ms.foldlM (fun acc m ↦
    if equalFold m.1 name then
      match m.2 with
      | .str s => some s
      | .null => some acc
      | _ => none
    else some acc) []

def rawField (name : String) (ms : List (Bytes × Value × List Char)) : Option (List Bytes) :=
  ms.foldlM (fun acc m ↦
    if equalFold m.1 name then
      match m.2 with
      | (.arr _, '[' :: text) =>
        (list ']' (value some maxDepth) text).map (fun p ↦ p.1.map (fun x ↦ ofChars x.2))
      | (.null, _) => some []
      | _ => none
    else some acc) []

def unmarshalRawField (name : String) (bs : Bytes) : Option (List Bytes) :=
  match skipBlank (chars bs) with
  | '{' :: rest =>
    ((list '}' (member (value some (maxDepth - 1))) rest).bind complete).bind
      (fun ms ↦ rawField name (ms.map Prod.fst))
  | cs => ((scalar some cs).bind complete).bind (fun v ↦ match v with | .null => some [] | _ => none)

def hex (n : ℕ) : Char := if n < 10 then Char.ofNat (0x30 + n) else Char.ofNat (0x57 + n)

/-- What an encoder that leaves HTML alone writes for a rune it does not copy. -/
def escapeOf (c : Char) : Option (List Char) :=
  if c = '"' || c = '\\' then some ['\\', c]
  else if c.toNat = 8 then some ['\\', 'b']
  else if c.toNat = 12 then some ['\\', 'f']
  else if c = '\n' then some ['\\', 'n']
  else if c = '\r' then some ['\\', 'r']
  else if c = '\t' then some ['\\', 't']
  else if c.toNat < 0x20 then some ['\\', 'u', '0', '0', hex (c.toNat / 16), hex (c.toNat % 16)]
  else if c.toNat = 0x2028 || c.toNat = 0x2029 then some ['\\', 'u', '2', '0', '2', hex (c.toNat % 16)]
  else none

/-- What is no character is written as the one that replaces it. -/
def encodeRune (r : Rune) : Bytes := ofChars ((escapeOf r.value).getD [r.value])

def encodeString (v : Bytes) : Bytes := 0x22 :: (runes v).flatMap encodeRune ++ [0x22]

theorem hexDigit_hex : ∀ n < 16, hexDigit (hex n) = some n := by decide

theorem escapeOf_eq_none {c : Char} : escapeOf c = none ↔
    c ≠ '"' ∧ c ≠ '\\' ∧ 0x20 ≤ c.toNat ∧ c.toNat ≠ 0x2028 ∧ c.toNat ≠ 0x2029 := by
  have hn : c = '\n' → c.toNat = 10 := fun h ↦ h ▸ rfl
  have hr : c = '\r' → c.toNat = 13 := fun h ↦ h ▸ rfl
  have ht : c = '\t' → c.toNat = 9 := fun h ↦ h ▸ rfl
  unfold escapeOf
  simp only [Bool.or_eq_true, decide_eq_true_eq]
  split_ifs with h₁ h₂ h₃ h₄ h₅ h₆ h₇ h₈ <;> simp only [false_iff, true_iff]
  · exact fun h ↦ h₁.elim h.1 h.2.1
  · omega
  · omega
  · have := hn h₄
    omega
  · have := hr h₅
    omega
  · have := ht h₆
    omega
  · omega
  · omega
  · exact ⟨fun h ↦ h₁ (Or.inl h), fun h ↦ h₁ (Or.inr h), by omega, by omega, by omega⟩

theorem dollar_notMem_escapeOf {c : Char} {e : List Char} (h : escapeOf c = some e) : '$' ∉ e := by
  have hhex : ∀ n < 16, '$' ≠ hex n := by decide
  unfold escapeOf at h
  split_ifs at h with h₁ h₂ h₃ h₄ h₅ h₆ h₇ h₈ <;> cases h
  · simp only [Bool.or_eq_true, decide_eq_true_eq] at h₁
    obtain rfl | rfl := h₁ <;> decide
  · decide
  · decide
  · decide
  · decide
  · decide
  · simp [hhex (c.toNat / 16) (by omega), hhex (c.toNat % 16) (by omega)]
  · simp [hhex (c.toNat % 16) (by omega)]

theorem encodeString_ofChars (cs : List Char) :
    encodeString (ofChars cs) = ofChars ('"' :: cs.flatMap (fun c ↦ (escapeOf c).getD [c]) ++ ['"']) := by
  have hr := runes_ofChars_append cs []
  rw [List.append_nil] at hr
  have hm : (cs.map (fun c ↦ (⟨c, String.utf8EncodeChar c⟩ : Rune))).flatMap encodeRune =
      ofChars (cs.flatMap (fun c ↦ (escapeOf c).getD [c])) := by
    rw [List.flatMap_map, ofChars, List.flatMap_assoc]
    rfl
  rw [encodeString, hr, show runes [] = [] from rfl, List.append_nil, hm]
  simp only [ofChars, List.flatMap_append, List.flatMap_cons, List.flatMap_nil]
  rfl

mutual

/-- Values that differ in their numbers only. -/
inductive Alike : Value → Value → Prop where
  | null : Alike .null .null
  | bool (b : Bool) : Alike (.bool b) (.bool b)
  | num (q q' : ℚ) : Alike (.num q) (.num q')
  | str (s : Bytes) : Alike (.str s) (.str s)
  | arr {xs ys : List Value} : List.Forall₂ Alike xs ys → Alike (.arr xs) (.arr ys)
  | obj {ms ns : List (Bytes × Value)} : List.Forall₂ AlikeMember ms ns → Alike (.obj ms) (.obj ns)

inductive AlikeMember : Bytes × Value → Bytes × Value → Prop where
  | mk (name : Bytes) {v w : Value} : Alike v w → AlikeMember (name, v) (name, w)

end

theorem alikeMember_iff {m n : Bytes × Value} : AlikeMember m n ↔ m.1 = n.1 ∧ Alike m.2 n.2 := by
  constructor
  · rintro ⟨name, h⟩
    exact ⟨rfl, h⟩
  · obtain ⟨name, v⟩ := m
    obtain ⟨name', w⟩ := n
    rintro ⟨rfl, h⟩
    exact .mk name h

/-- Where both readers succeed, they read as far and what they read is related. -/
def Agree {α β : Type} (R : α → β → Prop) (p : Reader α) (p' : Reader β) : Prop :=
  ∀ {cs x rest x' rest'}, p cs = some (x, rest) → p' cs = some (x', rest') → R x x' ∧ rest = rest'

section Agree

variable {α β : Type} {R : α → β → Prop} {p : Reader α} {p' : Reader β} {close : Char}

theorem Agree.items (h : Agree R p p') (fuel : ℕ) :
    Agree (List.Forall₂ (fun x y ↦ R x.1 y.1)) (items close p fuel) (items close p' fuel) := by
  induction fuel with
  | zero =>
    intro cs xs rest ys rest' hx hy
    cases hx
  | succ fuel ih =>
    intro cs xs rest ys rest' hx hy
    simp only [Json.items, Option.bind_eq_bind, Option.bind_eq_some_iff, Prod.exists] at hx hy
    obtain ⟨x, r, hp, hx⟩ := hx
    obtain ⟨y, r', hp', hy⟩ := hy
    obtain ⟨hR, rfl⟩ := h hp hp'
    rcases hr : skipBlank r with _ | ⟨c, t⟩
    · simp [hr] at hx
    · by_cases hc : c = ','
      · subst hc
        simp only [hr, Option.bind_eq_some_iff, Prod.exists, Option.some.injEq, Prod.mk.injEq] at hx hy
        obtain ⟨xs', t₁, hxs, rfl, rfl⟩ := hx
        obtain ⟨ys', t₂, hys, rfl, rfl⟩ := hy
        obtain ⟨hall, rfl⟩ := ih hxs hys
        exact ⟨.cons hR hall, rfl⟩
      · simp only [hr, Option.ite_none_right_eq_some, Option.some.injEq, Prod.mk.injEq] at hx hy
        obtain ⟨_, rfl, rfl⟩ := hx
        obtain ⟨_, rfl, rfl⟩ := hy
        exact ⟨.cons hR .nil, rfl⟩

theorem Agree.list (h : Agree R p p') :
    Agree (List.Forall₂ (fun x y ↦ R x.1 y.1)) (list close p) (list close p') := by
  intro cs xs rest ys rest' hx hy
  unfold Json.list at hx hy
  rcases hr : skipBlank cs with _ | ⟨c, t⟩
  · simp [hr] at hx
  · simp only [hr] at hx hy
    split_ifs at hx hy
    · cases hx
      cases hy
      exact ⟨.nil, rfl⟩
    · exact h.items cs.length hx hy

theorem Agree.member (h : Agree R p p') :
    Agree (fun m n ↦ m.1 = n.1 ∧ R m.2.1 n.2.1) (member p) (member p') := by
  intro cs m rest n rest' hm hn
  unfold Json.member at hm hn
  split at hm
  · rename_i t ht
    simp only [ht, Option.bind_eq_bind, Option.bind_eq_some_iff, Prod.exists] at hm hn
    obtain ⟨name, t', hs, hm⟩ := hm
    obtain ⟨name', t'', hs', hn⟩ := hn
    cases hs.symm.trans hs'
    split at hm
    · rename_i u hu
      simp only [hu, Option.bind_eq_some_iff, Prod.exists, Option.some.injEq, Prod.mk.injEq] at hm hn
      obtain ⟨x, u₁, hx, rfl, rfl⟩ := hm
      obtain ⟨y, u₂, hy, rfl, rfl⟩ := hn
      obtain ⟨hR, rfl⟩ := h hx hy
      exact ⟨⟨rfl, hR⟩, rfl⟩
    · cases hm
  · cases hm

end Agree

section Conversions

variable (f g : ℚ → Option ℚ)

theorem scalar_agree : Agree Alike (scalar f) (scalar g) := by
  intro cs v rest w rest' hv hw
  unfold scalar at hv hw
  split at hv
  · cases hv
    cases hw
    exact ⟨.null, rfl⟩
  · cases hv
    cases hw
    exact ⟨.bool true, rfl⟩
  · cases hv
    cases hw
    exact ⟨.bool false, rfl⟩
  · rename_i t
    obtain ⟨⟨s, t'⟩, hs, he⟩ := Option.map_eq_some_iff.mp hv
    obtain ⟨⟨s', t''⟩, hs', he'⟩ := Option.map_eq_some_iff.mp hw
    cases hs.symm.trans hs'
    cases he
    cases he'
    exact ⟨.str s, rfl⟩
  · rename_i hnull htrue hfalse hstr
    split at hw
    · exact absurd rfl (hnull _)
    · exact absurd rfl (htrue _)
    · exact absurd rfl (hfalse _)
    · exact absurd rfl (hstr _)
    · simp only [Option.bind_eq_bind, Option.bind_eq_some_iff, Prod.exists, Option.some.injEq,
        Prod.mk.injEq] at hv hw
      obtain ⟨q, t, hq, a, _, rfl, rfl⟩ := hv
      obtain ⟨q', t', hq', b, _, rfl, rfl⟩ := hw
      cases hq.symm.trans hq'
      exact ⟨.num a b, rfl⟩

/-- What becomes of the number literals is all that two readings of one text can differ in. -/
theorem value_agree (depth : ℕ) : Agree Alike (value f depth) (value g depth) := by
  induction depth with
  | zero =>
    intro cs v rest w rest' hv hw
    exact scalar_agree f g hv hw
  | succ depth ih =>
    intro cs v rest w rest' hv hw
    unfold value at hv hw
    split at hv
    · rename_i t ht
      simp only [ht, Option.map_eq_some_iff, Prod.exists, Prod.mk.injEq] at hv hw
      obtain ⟨xs, u, hxs, rfl, rfl⟩ := hv
      obtain ⟨ys, u', hys, rfl, rfl⟩ := hw
      obtain ⟨hall, rfl⟩ := ih.list hxs hys
      exact ⟨.arr (List.forall₂_map_left_iff.mpr (List.forall₂_map_right_iff.mpr hall)), rfl⟩
    · rename_i t ht
      simp only [ht, Option.map_eq_some_iff, Prod.exists, Prod.mk.injEq] at hv hw
      obtain ⟨ms, u, hms, rfl, rfl⟩ := hv
      obtain ⟨ns, u', hns, rfl, rfl⟩ := hw
      obtain ⟨hall, rfl⟩ := Agree.list (Agree.member ih) hms hns
      refine ⟨.obj (List.forall₂_map_left_iff.mpr (List.forall₂_map_right_iff.mpr ?_)), rfl⟩
      exact hall.imp fun _ _ h ↦ alikeMember_iff.mpr h
    · rename_i harr hobj
      split at hw
      · rename_i ht
        exact absurd ht (harr _)
      · rename_i ht
        exact absurd ht (hobj _)
      · exact scalar_agree f g hv hw

end Conversions

theorem decode_alike {bs : Bytes} {v w : Value} {rest : List Char} (hv : unmarshal bs = some v)
    (hw : decode bs = some (w, rest)) : Alike v w := by
  obtain ⟨⟨v', rest'⟩, hread, hc⟩ := Option.bind_eq_some_iff.mp hv
  simp only [complete, Option.ite_none_right_eq_some, Option.some.injEq] at hc
  obtain ⟨_, rfl⟩ := hc
  exact (value_agree some parseFloat maxDepth hread hw).1

end OtlpCollectorOidc.Json

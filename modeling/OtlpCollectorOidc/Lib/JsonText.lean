import OtlpCollectorOidc.Lib.Decimal
import OtlpCollectorOidc.Lib.Json

namespace OtlpCollectorOidc.Json

open Text

/-- What an encoder that is wary of HTML writes for a rune it does not copy. -/
def escapeHTML (c : Char) : Option (List Char) :=
  if c = '<' || c = '>' || c = '&' then some ['\\', 'u', '0', '0', hex (c.toNat / 16), hex (c.toNat % 16)]
  else escapeOf c

def runeText (html : Bool) (r : Rune) : List Char :=
  (if html then escapeHTML r.value else escapeOf r.value).getD [r.value]

def stringText (html : Bool) (v : Bytes) : List Char := '"' :: (runes v).flatMap (runeText html) ++ ['"']

def toValid (v : Bytes) : Bytes := ofChars (chars v)

section Strings

/-- A piece that stands for one character. -/
inductive Stands : Piece → Char → Prop where
  | char (c : Char) : Stands (.char c) c
  | unit (c : Char) : Stands (.unit c.toNat) c

theorem not_surrogate (c : Char) : isSurrogate c.toNat = false := by
  have hvalid := toNat_valid c
  simp only [isSurrogate, Bool.and_eq_false_iff, decide_eq_false_iff_not]
  omega

theorem joinPieces_stands {ps : List Piece} {cs : List Char} (h : List.Forall₂ Stands ps cs) :
    joinPieces ps = cs := by
  induction h with
  | nil => rfl
  | @cons p c ps cs hp hps ih =>
    cases hp with
    | char c => rw [joinPieces, ih]
    | unit c =>
      have hsurrogate := not_surrogate c
      cases hps with
      | nil => simp [joinPieces, hsurrogate, Char.ofNat_toNat]
      | @cons p' c' ps' cs' hp' hps' =>
        have hlow : (0xD800 ≤ c.toNat && c.toNat ≤ 0xDBFF) = false := by
          simp only [isSurrogate, Bool.and_eq_false_iff, decide_eq_false_iff_not] at hsurrogate ⊢
          omega
        cases hp' with
        | char c' => simp [joinPieces, hsurrogate, Char.ofNat_toNat, ← ih]
        | unit c' => simp [joinPieces, hsurrogate, hlow, Char.ofNat_toNat, ← ih]

theorem pieces_unicode {c : Char} {x y z w : ℕ} (hx : x < 16) (hy : y < 16) (hz : z < 16) (hw : w < 16)
    (hc : c.toNat = ((x * 16 + y) * 16 + z) * 16 + w) (rest : List Char) :
    pieces ('\\' :: 'u' :: hex x :: hex y :: hex z :: hex w :: rest) =
      (pieces rest).map (fun p ↦ (.unit c.toNat :: p.1, p.2)) := by
  have hn : 16 * (16 * (16 * (16 * 0 + x) + y) + z) + w = c.toNat := by omega
  rw [pieces]
  simp only [List.foldlM_cons, List.foldlM_nil, hexDigit_hex _ hx, hexDigit_hex _ hy, hexDigit_hex _ hz,
    hexDigit_hex _ hw, Option.map_some, Option.bind_eq_bind, Option.bind_some, Option.pure_def, hn]
  cases pieces rest <;> rfl

def ReadsChar (text : List Char) (c : Char) : Prop :=
  ∃ p, Stands p c ∧ ∀ rest, pieces (text ++ rest) = (pieces rest).map (fun q ↦ (p :: q.1, q.2))

theorem readsChar_raw {c : Char} (hq : c ≠ '"') (hb : c ≠ '\\') (hlow : 0x20 ≤ c.toNat) :
    ReadsChar [c] c := by
  refine ⟨.char c, .char c, fun rest ↦ ?_⟩
  have hlow : ¬ c.toNat < 0x20 := by omega
  rw [List.singleton_append, pieces]
  · rw [if_neg hlow]
  all_goals simp [hq, hb]

theorem readsChar_unicode {c : Char} {x y z w : ℕ} (hx : x < 16) (hy : y < 16) (hz : z < 16) (hw : w < 16)
    (hc : c.toNat = ((x * 16 + y) * 16 + z) * 16 + w) : ReadsChar ['\\', 'u', hex x, hex y, hex z, hex w] c :=
  ⟨.unit c.toNat, .unit c, fun rest ↦ pieces_unicode hx hy hz hw hc rest⟩

theorem readsChar_short {c x : Char} (hx : escape x = some c) (hu : x ≠ 'u') : ReadsChar ['\\', x] c := by
  refine ⟨.char c, .char c, fun rest ↦ ?_⟩
  change pieces ('\\' :: x :: rest) = _
  rw [pieces, hx]
  · cases pieces rest <;> rfl
  · simp [hu]

theorem readsChar_escapeOf {c : Char} {e : List Char} (h : escapeOf c = some e) : ReadsChar e c := by
  have hofNat : ∀ {n : ℕ}, c.toNat = n → Char.ofNat n = c := fun hn ↦ hn ▸ Char.ofNat_toNat c
  unfold escapeOf at h
  split_ifs at h with h₁ h₂ h₃ h₄ h₅ h₆ h₇ h₈ <;> cases h
  · simp only [Bool.or_eq_true, decide_eq_true_eq] at h₁
    obtain rfl | rfl := h₁
    · exact readsChar_short rfl (by decide)
    · exact readsChar_short rfl (by decide)
  · exact readsChar_short (congrArg some (hofNat h₂)) (by decide)
  · exact readsChar_short (congrArg some (hofNat h₃)) (by decide)
  · exact readsChar_short (congrArg some h₄.symm) (by decide)
  · exact readsChar_short (congrArg some h₅.symm) (by decide)
  · exact readsChar_short (congrArg some h₆.symm) (by decide)
  · exact readsChar_unicode (x := 0) (y := 0) (by omega) (by omega) (by omega) (by omega) (by omega)
  · simp only [Bool.or_eq_true, decide_eq_true_eq] at h₈
    exact readsChar_unicode (x := 2) (y := 0) (z := 2) (by omega) (by omega) (by omega) (by omega) (by omega)

theorem readsChar_copied {c : Char} (h : escapeOf c = none) : ReadsChar [c] c := by
  obtain ⟨hq, hb, hlow, -⟩ := escapeOf_eq_none.mp h
  exact readsChar_raw hq hb hlow

theorem readsChar_escaped (html : Bool) (c : Char) :
    ReadsChar ((if html then escapeHTML c else escapeOf c).getD [c]) c := by
  have hplain : ReadsChar ((escapeOf c).getD [c]) c := by
    cases h : escapeOf c with
    | none => exact readsChar_copied h
    | some e => exact readsChar_escapeOf h
  cases html with
  | false => exact hplain
  | true =>
    rw [if_pos rfl, escapeHTML]
    split_ifs with hspecial
    · simp only [Bool.or_eq_true, decide_eq_true_eq] at hspecial
      obtain (rfl | rfl) | rfl := hspecial
      all_goals
        exact readsChar_unicode (x := 0) (y := 0) (by decide) (by decide) (by decide) (by decide) (by decide)
    · exact hplain

theorem pieces_runes (html : Bool) (rs : List Rune) (rest : List Char) :
    ∃ ps, List.Forall₂ Stands ps (rs.map Rune.value) ∧
      pieces (rs.flatMap (runeText html) ++ '"' :: rest) = some (ps, rest) := by
  induction rs with
  | nil => exact ⟨[], .nil, by rw [List.flatMap_nil, List.nil_append, pieces]⟩
  | cons r rs ih =>
    obtain ⟨ps, hps, hread⟩ := ih
    obtain ⟨p, hp, hchar⟩ := readsChar_escaped html r.value
    refine ⟨p :: ps, .cons hp hps, ?_⟩
    rw [List.flatMap_cons, List.append_assoc, runeText, hchar, hread]
    rfl

/-- Whichever way a string was written, it is read back with what was malformed in it replaced. -/
theorem stringBody_stringText (html : Bool) (v : Bytes) (rest : List Char) :
    stringBody ((runes v).flatMap (runeText html) ++ '"' :: rest) = some (toValid v, rest) := by
  obtain ⟨ps, hps, hread⟩ := pieces_runes html (runes v) rest
  rw [stringBody, hread, Option.map_some, joinPieces_stands hps]
  rfl

end Strings

section Numbers

/-- What may follow a value inside another. -/
def Ends (rest : List Char) : Prop := rest = [] ∨ ∃ c rest', rest = c :: rest' ∧ (c = ',' ∨ c = ']' ∨ c = '}')

theorem Ends.head {rest : List Char} (h : Ends rest) {c : Char} (hc : rest.head? = some c) :
    c = ',' ∨ c = ']' ∨ c = '}' := by
  obtain rfl | ⟨d, rest', rfl, hd⟩ := h
  · cases hc
  · exact Option.some.inj hc ▸ hd

theorem decimal_append (ds : List Char) (d : Char) :
    decimal (ds ++ [d]) = 10 * decimal ds + (d.toNat - '0'.toNat) := by
  rw [decimal, List.foldl_append]
  rfl

theorem toDigits_append {n d : ℕ} (hn : 0 < n) (hd : d < 10) :
    Nat.toDigits 10 (10 * n + d) = Nat.toDigits 10 n ++ [Nat.digitChar d] := by
  rw [← Nat.toDigits_append_toDigits (by decide) hn hd, Nat.toDigits_of_lt_base hd]

theorem toNat_digitChar : ∀ d < 10, (Nat.digitChar d).toNat - '0'.toNat = d := by decide

theorem decimal_toDigits (n : ℕ) : decimal (Nat.toDigits 10 n) = n := by
  induction n using Strconv.decimal_induction with
  | one d hd =>
    rw [Nat.toDigits_of_lt_base hd]
    exact (Nat.zero_add _).trans (toNat_digitChar d hd)
  | more n d hn hd ih => rw [toDigits_append hn hd, decimal_append, ih, toNat_digitChar d hd]

theorem digitChar_ne_zero : ∀ d < 10, 0 < d → Nat.digitChar d ≠ '0' := by decide

theorem leading_toDigits {n : ℕ} : 0 < n → (Nat.toDigits 10 n).head? ≠ some '0' := by
  induction n using Strconv.decimal_induction with
  | one d hd =>
    intro hpos h
    rw [Nat.toDigits_of_lt_base hd] at h
    exact digitChar_ne_zero d hd hpos (Option.some.inj h)
  | more n d hn hd ih =>
    intro hpos
    rw [toDigits_append hn hd, List.head?_append_of_ne_nil _ Nat.toDigits_ne_nil]
    exact ih hn

theorem Ends.span {rest : List Char} (h : Ends rest) {ds : List Char} (hds : ∀ c ∈ ds, c.isDigit = true) :
    (ds ++ rest).span Char.isDigit = (ds, rest) := by
  have hstop : rest.takeWhile Char.isDigit = [] ∧ rest.dropWhile Char.isDigit = rest := by
    obtain rfl | ⟨c, rest', rfl, rfl | rfl | rfl⟩ := h
    all_goals exact ⟨rfl, rfl⟩
  rw [List.span_eq_takeWhile_dropWhile, List.takeWhile_append_of_pos hds, List.dropWhile_append_of_pos hds,
    hstop.1, hstop.2, List.append_nil]

theorem integerPart_toDigits (n : ℕ) {rest : List Char} (h : Ends rest) :
    integerPart (Nat.toDigits 10 n ++ rest) = some (Nat.toDigits 10 n, rest) := by
  obtain rfl | hn := Nat.eq_zero_or_pos n
  · rfl
  · obtain ⟨c, ds, hcons⟩ := List.exists_cons_of_ne_nil (Nat.toDigits_ne_nil (n := n) (b := 10))
    have hdigits : ∀ c ∈ Nat.toDigits 10 n, c.isDigit = true :=
      fun c hc ↦ Nat.isDigit_of_mem_toDigits (by decide) (by decide) hc
    have hspan := h.span hdigits
    have hlead := leading_toDigits hn
    rw [hcons] at hspan hlead ⊢
    rw [integerPart, digits, hspan]
    rintro rest' heq
    cases heq
    exact hlead rfl

theorem unsigned_toDigits (n : ℕ) {rest : List Char} (h : Ends rest) :
    unsigned (Nat.toDigits 10 n ++ rest) = some ((n : ℚ), rest) := by
  have hfraction : fractionPart rest = some ([], rest) := by
    obtain rfl | ⟨c, rest', rfl, rfl | rfl | rfl⟩ := h
    all_goals rfl
  have hexponent : exponentPart rest = some (0, rest) := by
    obtain rfl | ⟨c, rest', rfl, rfl | rfl | rfl⟩ := h
    all_goals rfl
  simp [unsigned, integerPart_toDigits n h, hfraction, hexponent, decimal_toDigits]

theorem number_toString (n : ℤ) {rest : List Char} (h : Ends rest) :
    number ((toString n).toList ++ rest) = some ((n : ℚ), rest) := by
  cases n with
  | ofNat m =>
    have htext : (toString (Int.ofNat m)).toList = Nat.toDigits 10 m := Nat.toList_repr
    obtain ⟨c, ds, hcons⟩ := List.exists_cons_of_ne_nil (Nat.toDigits_ne_nil (n := m) (b := 10))
    have hc : c ≠ '-' := by
      rintro rfl
      have hdigit := Nat.isDigit_of_mem_toDigits (b := 10) (n := m) (by decide) (by decide)
        (hcons ▸ List.mem_cons_self)
      cases hdigit
    have hread := unsigned_toDigits m h
    rw [htext]
    rw [hcons] at hread ⊢
    rw [number]
    · exact hread
    · rintro rest' heq
      cases heq
      exact hc rfl
  | negSucc m =>
    have htext : (toString (Int.negSucc m)).toList = '-' :: Nat.toDigits 10 (m + 1) := by
      change ("-" ++ toString (m + 1)).toList = _
      rw [String.toList_append]
      exact congrArg ('-' :: ·) Nat.toList_repr
    rw [htext, List.cons_append, number, unsigned_toDigits (m + 1) h]
    simp [Int.negSucc_eq]

end Numbers

/-- A value as a program hands it to the encoder. -/
inductive Doc where
  | null
  | flag (b : Bool)
  | int (n : ℤ)
  | text (s : Bytes)
  | array (xs : List Doc)
  | object (ms : List (Bytes × Doc))

mutual

def Doc.encode (html : Bool) : Doc → List Char
  | .null => ['n', 'u', 'l', 'l']
  | .flag b => if b then ['t', 'r', 'u', 'e'] else ['f', 'a', 'l', 's', 'e']
  | .int n => (toString n).toList
  | .text s => stringText html s
  | .array xs => '[' :: List.intercalate [','] (encodeItems html xs) ++ [']']
  | .object ms => '{' :: List.intercalate [','] (encodeMembers html ms) ++ ['}']

def encodeItems (html : Bool) : List Doc → List (List Char)
  | [] => []
  | x :: xs => x.encode html :: encodeItems html xs

def encodeMembers (html : Bool) : List (Bytes × Doc) → List (List Char)
  | [] => []
  | m :: ms => encodeMember html m :: encodeMembers html ms

def encodeMember (html : Bool) : Bytes × Doc → List Char
  | (name, x) => stringText html name ++ ':' :: x.encode html

end

mutual

def Doc.value : Doc → Value
  | .null => .null
  | .flag b => .bool b
  | .int n => .num n
  | .text s => .str (toValid s)
  | .array xs => .arr (itemValues xs)
  | .object ms => .obj (memberValues ms)

def itemValues : List Doc → List Value
  | [] => []
  | x :: xs => x.value :: itemValues xs

def memberValues : List (Bytes × Doc) → List (Bytes × Value)
  | [] => []
  | m :: ms => memberValue m :: memberValues ms

def memberValue : Bytes × Doc → Bytes × Value
  | (name, x) => (toValid name, x.value)

end

def Doc.Fits : ℕ → Doc → Prop
  | _, .null | _, .flag _ | _, .int _ | _, .text _ => True
  | 0, .array _ | 0, .object _ => False
  | depth + 1, .array xs => ∀ x ∈ xs, x.Fits depth
  | depth + 1, .object ms => ∀ m ∈ ms, m.2.Fits depth

section Docs

theorem encodeItems_eq (html : Bool) (xs : List Doc) : encodeItems html xs = xs.map (Doc.encode html) := by
  induction xs with
  | nil => rfl
  | cons x xs ih => rw [encodeItems, ih, List.map_cons]

theorem encodeMembers_eq (html : Bool) (ms : List (Bytes × Doc)) :
    encodeMembers html ms = ms.map (fun m ↦ stringText html m.1 ++ ':' :: m.2.encode html) := by
  induction ms with
  | nil => rfl
  | cons m ms ih => rw [encodeMembers, ih, encodeMember, List.map_cons]

theorem itemValues_eq (xs : List Doc) : itemValues xs = xs.map Doc.value := by
  induction xs with
  | nil => rfl
  | cons x xs ih => rw [itemValues, ih, List.map_cons]

theorem memberValues_eq (ms : List (Bytes × Doc)) :
    memberValues ms = ms.map (fun m ↦ (toValid m.1, m.2.value)) := by
  induction ms with
  | nil => rfl
  | cons m ms ih => rw [memberValues, ih, memberValue, List.map_cons]

def Begins (text : List Char) : Prop := ∃ c text', text = c :: text' ∧ isBlank c = false ∧ c ≠ ']' ∧ c ≠ '}'

theorem Begins.skipBlank {text : List Char} (h : Begins text) (rest : List Char) :
    skipBlank (text ++ rest) = text ++ rest := by
  obtain ⟨c, text', rfl, hc, -⟩ := h
  rw [Json.skipBlank, List.cons_append, List.dropWhile_cons_of_neg (by simp [hc])]

theorem Begins.ne_nil {text : List Char} (h : Begins text) : text ≠ [] := by
  obtain ⟨c, text', rfl, -⟩ := h
  exact List.cons_ne_nil c text'

theorem begins_cons {c : Char} (text : List Char) (hc : isBlank c = false ∧ c ≠ ']' ∧ c ≠ '}') :
    Begins (c :: text) :=
  ⟨c, text, rfl, hc⟩

theorem begins_stringText (html : Bool) (v : Bytes) (text : List Char) : Begins (stringText html v ++ text) :=
  begins_cons _ (by decide)

theorem exists_cons_toString (n : ℤ) :
    ∃ c text, (toString n).toList = c :: text ∧ (c.isDigit = true ∨ c = '-') := by
  cases n with
  | ofNat m =>
    have htext : (toString (Int.ofNat m)).toList = Nat.toDigits 10 m := Nat.toList_repr
    obtain ⟨c, ds, hcons⟩ := List.exists_cons_of_ne_nil (Nat.toDigits_ne_nil (n := m) (b := 10))
    have hdigit :=
      Nat.isDigit_of_mem_toDigits (b := 10) (n := m) (by decide) (by decide) (hcons ▸ List.mem_cons_self)
    exact ⟨c, ds, htext.trans hcons, .inl hdigit⟩
  | negSucc m => exact ⟨'-', (toString (m + 1)).toList, String.toList_append, .inr rfl⟩

theorem ne_of_isDigit {c x : Char} (hc : c.isDigit = true ∨ c = '-') (hx : x.isDigit = false ∧ x ≠ '-') :
    c ≠ x := by
  rintro rfl
  obtain hdigit | rfl := hc
  · rw [hx.1] at hdigit
    cases hdigit
  · exact hx.2 rfl

theorem begins_toString (n : ℤ) : Begins (toString n).toList := by
  obtain ⟨c, text, hcons, hc⟩ := exists_cons_toString n
  have hne {x : Char} := ne_of_isDigit (x := x) hc
  refine ⟨c, text, hcons, ?_, hne (by decide), hne (by decide)⟩
  simp only [isBlank, Bool.or_eq_false_iff, decide_eq_false_iff_not]
  exact ⟨⟨⟨hne (by decide), hne (by decide)⟩, hne (by decide)⟩, hne (by decide)⟩

theorem begins_encode (html : Bool) (x : Doc) : Begins (x.encode html) := by
  cases x with
  | null =>
    rw [Doc.encode]
    exact begins_cons _ (by decide)
  | flag b =>
    rw [Doc.encode]
    cases b
    all_goals exact begins_cons _ (by decide)
  | int n =>
    rw [Doc.encode]
    exact begins_toString n
  | text s =>
    rw [Doc.encode]
    exact begins_cons _ (by decide)
  | array xs =>
    rw [Doc.encode]
    exact begins_cons _ (by decide)
  | object ms =>
    rw [Doc.encode]
    exact begins_cons _ (by decide)

def ReadsItem {α β : Type} (item : Reader α) (shape : α → β) (text : List Char) (b : β) : Prop :=
  ∀ rest, Ends rest → ∃ a, item (text ++ rest) = some (a, rest) ∧ shape a = b

theorem length_intercalate {texts : List (List Char)} (h : ∀ t ∈ texts, t ≠ []) :
    texts.length ≤ (List.intercalate [','] texts).length := by
  induction texts with
  | nil => exact Nat.zero_le _
  | cons t texts ih =>
    have ht : 0 < t.length := List.length_pos_iff.mpr (h t List.mem_cons_self)
    have hrest := ih (fun u hu ↦ h u (List.mem_cons_of_mem t hu))
    cases texts with
    | nil =>
      rw [List.intercalate_singleton]
      exact ht
    | cons u texts =>
      rw [List.intercalate_cons_cons, List.length_append, List.length_append, List.length_cons]
      omega

theorem begins_intercalate {texts : List (List Char)} (hne : texts ≠ []) (h : ∀ t ∈ texts, Begins t) :
    Begins (List.intercalate [','] texts) := by
  cases texts with
  | nil => exact absurd rfl hne
  | cons t texts =>
    obtain ⟨c, text, hcons, hc⟩ := h t List.mem_cons_self
    cases texts with
    | nil =>
      rw [List.intercalate_singleton]
      exact ⟨c, text, hcons, hc⟩
    | cons u texts =>
      rw [List.intercalate_cons_cons, hcons]
      exact begins_cons _ hc

section Lists

variable {α β γ : Type} {close : Char} (hclose : close = ']' ∨ close = '}') {item : Reader α} {shape : α → β}
  {text : γ → List Char} {out : γ → β} {zs : List γ}
include hclose

theorem items_intercalate (hne : zs ≠ []) (hread : ∀ z ∈ zs, ReadsItem item shape (text z) (out z)) {fuel : ℕ}
    (hfuel : zs.length ≤ fuel) (rest : List Char) :
    ∃ ys, items close item fuel (List.intercalate [','] (zs.map text) ++ close :: rest) = some (ys, rest) ∧
      ys.map (fun y ↦ shape y.1) = zs.map out := by
  induction zs generalizing fuel with
  | nil => exact absurd rfl hne
  | cons z zs ih =>
    obtain ⟨fuel, rfl⟩ : ∃ n, fuel = n + 1 := ⟨fuel - 1, by simp only [List.length_cons] at hfuel; omega⟩
    have hz := hread z List.mem_cons_self
    cases zs with
    | nil =>
      obtain ⟨a, ha, hshape⟩ := hz (close :: rest) (.inr ⟨close, rest, rfl, .inr hclose⟩)
      refine ⟨[(a, consumed (text z ++ close :: rest) (close :: rest))], ?_, by simp [hshape]⟩
      rw [List.map_cons, List.map_nil, List.intercalate_singleton, items, ha]
      obtain rfl | rfl := hclose
      all_goals rfl
    | cons y zs =>
      obtain ⟨ys, hys, hshapes⟩ := ih (List.cons_ne_nil y zs) (fun x hx ↦ hread x (List.mem_cons_of_mem z hx))
        (Nat.le_of_succ_le_succ hfuel)
      have htext : List.intercalate [','] ((z :: y :: zs).map text) ++ close :: rest =
          text z ++ ',' :: (List.intercalate [','] ((y :: zs).map text) ++ close :: rest) := by
        simp [List.intercalate_cons_cons]
      generalize List.intercalate [','] ((y :: zs).map text) ++ close :: rest = more at hys htext
      obtain ⟨a, ha, hshape⟩ := hz (',' :: more) (.inr ⟨',', more, rfl, .inl rfl⟩)
      refine ⟨(a, consumed (text z ++ ',' :: more) (',' :: more)) :: ys, ?_, by simp [hshapes, hshape]⟩
      rw [htext, items, ha, Option.bind_eq_bind, Option.bind_some]
      change (items close item fuel more).bind _ = _
      rw [hys]
      rfl

theorem list_intercalate (hbegins : ∀ z ∈ zs, Begins (text z))
    (hread : ∀ z ∈ zs, ReadsItem item shape (text z) (out z)) (rest : List Char) :
    ∃ ys, list close item (List.intercalate [','] (zs.map text) ++ close :: rest) = some (ys, rest) ∧
      ys.map (fun y ↦ shape y.1) = zs.map out := by
  obtain rfl | hne := eq_or_ne zs []
  · refine ⟨[], ?_, rfl⟩
    obtain rfl | rfl := hclose
    all_goals rfl
  · have htexts : ∀ t ∈ zs.map text, Begins t := by
      intro t ht
      obtain ⟨z, hz, rfl⟩ := List.mem_map.mp ht
      exact hbegins z hz
    have hstart := begins_intercalate (by simpa using hne) htexts
    have hfuel : zs.length ≤ (List.intercalate [','] (zs.map text) ++ close :: rest).length := by
      have hlength := length_intercalate (fun t ht ↦ (htexts t ht).ne_nil)
      rw [List.length_map] at hlength
      rw [List.length_append]
      omega
    obtain ⟨ys, hys, hshapes⟩ := items_intercalate hclose hne hread hfuel rest
    refine ⟨ys, ?_, hshapes⟩
    have hskip := hstart.skipBlank (close :: rest)
    obtain ⟨c, text, hcons, -, hbracket, hbrace⟩ := hstart
    have hc : c ≠ close := by
      rintro rfl
      exact hclose.elim hbracket hbrace
    rw [list, hskip, hcons, List.cons_append]
    rw [hcons, List.cons_append] at hys
    exact (if_neg hc).trans hys

end Lists

theorem value_of_scalar {x : Doc} {html : Bool} {rest : List Char} {v : Value} (depth : ℕ)
    (hbracket : (x.encode html).head? ≠ some '[') (hbrace : (x.encode html).head? ≠ some '{')
    (hscalar : scalar some (x.encode html ++ rest) = some (v, rest)) :
    value some depth (x.encode html ++ rest) = some (v, rest) := by
  have hskip := (begins_encode html x).skipBlank rest
  cases depth with
  | zero => rw [value, hskip, hscalar]
  | succ depth =>
    obtain ⟨c, text, hcons, -⟩ := begins_encode html x
    rw [value, hskip]
    rw [hcons] at hbracket hbrace hscalar ⊢
    split
    · rename_i heq
      cases heq
      exact absurd rfl hbracket
    · rename_i heq
      cases heq
      exact absurd rfl hbrace
    · exact hscalar

theorem scalar_toString (n : ℤ) {rest : List Char} (h : Ends rest) :
    scalar some ((toString n).toList ++ rest) = some (.num n, rest) := by
  have hnumber := number_toString n h
  obtain ⟨c, text, hcons, hc⟩ := exists_cons_toString n
  have hne {x : Char} := ne_of_isDigit (x := x) hc
  rw [hcons] at hnumber ⊢
  rw [scalar, hnumber]
  · rfl
  · rintro rest' heq
    exact hne (x := 'n') (by decide) (List.cons.inj heq).1
  · rintro rest' heq
    exact hne (x := 't') (by decide) (List.cons.inj heq).1
  · rintro rest' heq
    exact hne (x := 'f') (by decide) (List.cons.inj heq).1
  · rintro rest' heq
    exact hne (x := '"') (by decide) (List.cons.inj heq).1

theorem readsItem_member {depth : ℕ} {html : Bool} {x : Doc}
    (hx : ∀ rest, Ends rest → value some depth (x.encode html ++ rest) = some (x.value, rest))
    (name : Bytes) :
    ReadsItem (member (value some depth)) (fun m ↦ (m.1, m.2.1)) (stringText html name ++
      ':' :: x.encode html)
      (toValid name, x.value) := by
  intro rest hrest
  have hskip : skipBlank (stringText html name ++ ':' :: (x.encode html ++ rest)) =
      stringText html name ++ ':' :: (x.encode html ++ rest) := by
    simpa using (begins_stringText html name []).skipBlank (':' :: (x.encode html ++ rest))
  have hbody := stringBody_stringText html name (':' :: (x.encode html ++ rest))
  refine ⟨(toValid name, x.value, consumed (x.encode html ++ rest) rest), ?_, rfl⟩
  rw [List.append_assoc, List.cons_append, member, hskip]
  rw [stringText, List.append_assoc, List.cons_append, List.singleton_append]
  change (stringBody _).bind _ = _
  rw [hbody, Option.bind_some]
  change (value some depth (x.encode html ++ rest)).bind _ = _
  rw [hx rest hrest]
  rfl

theorem value_null (html : Bool) (depth : ℕ) (rest : List Char) :
    value some depth (Doc.null.encode html ++ rest) = some (Doc.null.value, rest) := by
  apply value_of_scalar depth
  · simp [Doc.encode]
  · simp [Doc.encode]
  · simp [Doc.encode, Doc.value, scalar]

theorem value_flag (html : Bool) (depth : ℕ) (b : Bool) (rest : List Char) :
    value some depth ((Doc.flag b).encode html ++ rest) = some ((Doc.flag b).value, rest) := by
  cases b
  all_goals
    apply value_of_scalar depth
    · simp [Doc.encode]
    · simp [Doc.encode]
    · simp [Doc.encode, Doc.value, scalar]

theorem value_int (html : Bool) (depth : ℕ) (n : ℤ) {rest : List Char} (h : Ends rest) :
    value some depth ((Doc.int n).encode html ++ rest) = some ((Doc.int n).value, rest) := by
  obtain ⟨c, text, hcons, hc⟩ := exists_cons_toString n
  have hne {x : Char} := ne_of_isDigit (x := x) hc
  apply value_of_scalar depth
  · rw [Doc.encode, hcons]
    simpa using hne (by decide)
  · rw [Doc.encode, hcons]
    simpa using hne (by decide)
  · rw [Doc.encode, Doc.value]
    exact scalar_toString n h

theorem value_text (html : Bool) (depth : ℕ) (s : Bytes) (rest : List Char) :
    value some depth ((Doc.text s).encode html ++ rest) = some ((Doc.text s).value, rest) := by
  apply value_of_scalar depth
  · simp [Doc.encode, stringText]
  · simp [Doc.encode, stringText]
  · rw [Doc.encode, stringText, List.append_assoc, List.cons_append, List.singleton_append, scalar,
      stringBody_stringText, Doc.value]
    rfl

/-- What the encoder writes is read as the value it was given, whether or not it is
wary of HTML, with malformed text replaced. -/
theorem value_encode (html : Bool) {depth : ℕ} {x : Doc} (hfits : x.Fits depth) {rest : List Char}
    (hrest : Ends rest) :
    value some depth (x.encode html ++ rest) = some (x.value, rest) := by
  induction depth generalizing x rest with
  | zero =>
    cases x with
    | null => exact value_null html 0 rest
    | flag b => exact value_flag html 0 b rest
    | int n => exact value_int html 0 n hrest
    | text s => exact value_text html 0 s rest
    | array xs => exact hfits.elim
    | object ms => exact hfits.elim
  | succ depth ih =>
    cases x with
    | null => exact value_null html (depth + 1) rest
    | flag b => exact value_flag html (depth + 1) b rest
    | int n => exact value_int html (depth + 1) n hrest
    | text s => exact value_text html (depth + 1) s rest
    | array xs =>
      have hread : ∀ x ∈ xs, ReadsItem (value some depth) (fun v ↦ v) (x.encode html) x.value :=
        fun x hx rest hrest ↦ ⟨x.value, ih (hfits x hx) hrest, rfl⟩
      obtain ⟨ys, hys, hvalues⟩ := list_intercalate (.inl rfl) (fun x _ ↦ begins_encode html x) hread rest
      rw [value, (begins_encode html (.array xs)).skipBlank, Doc.encode, List.append_assoc, List.cons_append,
        List.singleton_append, encodeItems_eq]
      change (list ']' (value some depth) _).map _ = _
      rw [hys, Option.map_some, Doc.value, itemValues_eq, ← hvalues]
    | object ms =>
      have hread : ∀ m ∈ ms, ReadsItem (member (value some depth)) (fun p ↦ (p.1, p.2.1))
          (stringText html m.1 ++ ':' :: m.2.encode html) (toValid m.1, m.2.value) :=
        fun m hm ↦ readsItem_member (fun rest hrest ↦ ih (hfits m hm) hrest) m.1
      obtain ⟨ys, hys, hvalues⟩ :=
        list_intercalate (.inr rfl) (fun m _ ↦ begins_stringText html m.1 _) hread rest
      rw [value, (begins_encode html (.object ms)).skipBlank, Doc.encode, List.append_assoc, List.cons_append,
        List.singleton_append, encodeMembers_eq]
      change (list '}' (member (value some depth)) _).map _ = _
      rw [hys, Option.map_some, Doc.value, memberValues_eq, ← hvalues]

theorem unmarshal_encode (html : Bool) {x : Doc} (hfits : x.Fits maxDepth) :
    unmarshal (ofChars (x.encode html)) = some x.value := by
  have hread := value_encode html hfits (.inl rfl)
  rw [List.append_nil] at hread
  rw [unmarshal, chars_ofChars, hread]
  rfl

end Docs

end OtlpCollectorOidc.Json

import OtlpCollectorOidc.Lib.Unquote

namespace OtlpCollectorOidc.Ottl

open Text Strconv

section Token

/-- What a string token holds between its quotes: `(\\.|[^\\"])*`, over characters. -/
inductive StringBody : List Rune → Prop
  | nil : StringBody []
  | escape {b c : Rune} {rs : List Rune} (hb : b.value = '\\') (hc : c.value ≠ '\n') (h : StringBody rs) :
      StringBody (b :: c :: rs)
  | plain {c : Rune} {rs : List Rune} (hb : c.value ≠ '\\') (hq : c.value ≠ '"') (h : StringBody rs) :
    StringBody (c :: rs)

/-- The first token of a text is a string, and these bytes follow it. -/
def BeginsString (text token rest : Bytes) : Prop :=
  ∃ first body last following, runes text = first :: body ++ last :: following ∧ first.value = '"' ∧
    StringBody body ∧ last.value = '"' ∧ token = (first :: body ++ [last]).flatMap Rune.raw ∧
      rest = following.flatMap Rune.raw

/-- The characters up to the closing quote, that one with them, and those after it. -/
def stringEnd : List Rune → Option (List Rune × List Rune)
  | [] => none
  | c :: rs =>
    if c.value = '"' then some ([c], rs)
    else if c.value = '\\' then
      match rs with
      | [] => none
      | d :: rs => if d.value = '\n' then none else (stringEnd rs).map (fun p ↦ (c :: d :: p.1, p.2))
    else (stringEnd rs).map (fun p ↦ (c :: p.1, p.2))

def readString (text : Bytes) : Option (Bytes × Bytes) :=
  match runes text with
  | [] => none
  | c :: rs =>
    if c.value = '"' then (stringEnd rs).map (fun p ↦ ((c :: p.1).flatMap Rune.raw, p.2.flatMap Rune.raw))
      else none

theorem StringBody.append_plain {cs rs : List Rune} (hcs : ∀ c ∈ cs, c.value ≠ '\\' ∧ c.value ≠ '"')
    (h : StringBody rs) :
    StringBody (cs ++ rs) := by
  induction cs with
  | nil => exact h
  | cons c cs ih =>
    obtain ⟨hb, hq⟩ := hcs c List.mem_cons_self
    exact .plain hb hq (ih (fun d hd ↦ hcs d (List.mem_cons_of_mem c hd)))

theorem StringBody.stringEnd_eq {body : List Rune} (h : StringBody body) {last : Rune} (hl : last.value = '"')
    (following : List Rune) : stringEnd (body ++ last :: following) = some (body ++ [last], following) := by
  induction h with
  | nil =>
    rw [List.nil_append, stringEnd.eq_def]
    exact if_pos hl
  | @escape b c rs hb hc h ih =>
    have hq : b.value ≠ '"' := by
      rw [hb]
      decide
    simp only [List.cons_append, stringEnd, if_neg hq, if_pos hb, if_neg hc, ih, Option.map_some]
  | @plain c rs hb hq h ih =>
    rw [List.cons_append, stringEnd.eq_def]
    simp only [if_neg hq, if_neg hb, ih, Option.map_some, List.cons_append]

theorem stringEnd_eq_some {rs found following : List Rune} (h : stringEnd rs = some (found, following)) :
    ∃ body last, StringBody body ∧ last.value = '"' ∧ found = body ++ [last] ∧ rs = body ++
      last :: following := by
  induction hn : rs.length using Nat.strong_induction_on generalizing rs found with
  | _ n ih =>
    rcases rs with _ | ⟨c, rs⟩
    · cases h
    rw [stringEnd.eq_def] at h
    dsimp only at h
    split_ifs at h with hq hb
    · cases h
      exact ⟨[], c, .nil, hq, rfl, rfl⟩
    · rcases rs with _ | ⟨d, rs⟩
      · cases h
      dsimp only at h
      split_ifs at h with hd
      obtain ⟨⟨found', following'⟩, hrs, he⟩ := Option.map_eq_some_iff.mp h
      cases he
      obtain ⟨body, last, hbody, hl, hf, hr⟩ :=
        ih rs.length (by simp only [← hn, List.length_cons]; omega) hrs rfl
      exact ⟨c :: d :: body, last, .escape hb hd hbody, hl, by rw [hf]; rfl, by rw [hr]; rfl⟩
    · obtain ⟨⟨found', following'⟩, hrs, he⟩ := Option.map_eq_some_iff.mp h
      cases he
      obtain ⟨body, last, hbody, hl, hf, hr⟩ := ih rs.length (by simp [← hn]) hrs rfl
      exact ⟨c :: body, last, .plain hb hq hbody, hl, by rw [hf]; rfl, by rw [hr]; rfl⟩

/-- The token is found wherever there is one, so a text begins with one string at most. -/
theorem readString_eq_some_iff {text token rest : Bytes} :
    readString text = some (token, rest) ↔ BeginsString text token rest := by
  constructor
  · intro h
    rw [readString] at h
    rcases hr : runes text with _ | ⟨first, rs⟩
    · rw [hr] at h
      cases h
    rw [hr] at h
    dsimp only at h
    split_ifs at h with hq
    obtain ⟨⟨found, following⟩, hrs, he⟩ := Option.map_eq_some_iff.mp h
    cases he
    obtain ⟨body, last, hbody, hl, rfl, rfl⟩ := stringEnd_eq_some hrs
    exact ⟨first, body, last, following, hr, hq, hbody, hl, rfl, rfl⟩
  · rintro ⟨first, body, last, following, hr, hq, hbody, hl, rfl, rfl⟩
    rw [readString, hr, List.cons_append]
    dsimp only
    rw [if_pos hq, hbody.stringEnd_eq hl, Option.map_some, List.cons_append]

end Token

section List

def isBlank (b : UInt8) : Bool := b = 0x09 || b = 0x0A || b = 0x0C || b = 0x0D || b = 0x20

def readPunct (p : UInt8) (text : Bytes) : Option Bytes :=
  match text.dropWhile isBlank with
  | [] => none
  | b :: rest => if b = p then some rest else none

def readValue (text : Bytes) : Option (Bytes × Bytes) :=
  (readString (text.dropWhile isBlank)).bind (fun p ↦ (unquote p.1).map (·, p.2))

def readValues : ℕ → Bytes → Option (List Bytes × Bytes)
  | 0, _ => none
  | n + 1, text =>
    match readPunct 0x5D text with
    | some rest => some ([], rest)
    | none => (readPunct 0x2C text).bind (fun text ↦ (readValue text).bind (fun p ↦
        (readValues n p.2).map (fun q ↦ (p.1 :: q.1, q.2))))

def readList (text : Bytes) : Option (List Bytes × Bytes) :=
  (readPunct 0x5B text).bind (fun text ↦
    match readPunct 0x5D text with
    | some rest => some ([], rest)
    | none => (readValue text).bind (fun p ↦ (readValues p.2.length p.2).map (fun q ↦ (p.1 :: q.1, q.2))))

/-- A text that is read as one string, whatever follows it. -/
structure LiteralOf (value text : Bytes) : Prop where
  quoted : text.head? = some 0x22
  read (rest : Bytes) : readValue (text ++ rest) = some (value, rest)

theorem readPunct_self {p : UInt8} (hp : isBlank p = false) (rest : Bytes) :
    readPunct p (p :: rest) = some rest := by
  simp [readPunct, hp]

theorem readPunct_ne {p b : UInt8} (hb : isBlank b = false) (hne : b ≠ p) (rest : Bytes) :
    readPunct p (b :: rest) = none := by
  simp [readPunct, hb, hne]

theorem LiteralOf.readPunct_eq_none {value text : Bytes} (h : LiteralOf value text)
    {p : UInt8} (hp : 0x22 ≠ p) (rest : Bytes) : readPunct p (text ++ rest) = none := by
  obtain ⟨tail, rfl⟩ := List.head?_eq_some_iff.mp h.quoted
  exact readPunct_ne (by decide) hp (tail ++ rest)

theorem readValue_blank {b : UInt8} (hb : isBlank b = true) (text : Bytes) :
    readValue (b :: text) = readValue text := by
  rw [readValue, List.dropWhile_cons_of_pos hb, readValue]

variable {write : Bytes → Bytes} {values : List Bytes}

theorem readValues_literals (h : ∀ v ∈ values, LiteralOf v (write v)) {n : ℕ} (hn : values.length < n)
    (rest : Bytes) :
    readValues n (values.flatMap (fun v ↦ ofString ", " ++ write v) ++ 0x5D :: rest) =
      some (values, rest) := by
  induction values generalizing n with
  | nil =>
    obtain ⟨n, rfl⟩ := Nat.exists_eq_add_one.mpr hn
    rw [readValues, List.flatMap_nil, List.nil_append, readPunct_self (by decide)]
  | cons v values ih =>
    obtain ⟨n, rfl⟩ := Nat.exists_eq_add_one.mpr (Nat.zero_lt_of_lt hn)
    have hv := h v List.mem_cons_self
    have hvs := ih (fun x hx ↦ h x (List.mem_cons_of_mem v hx)) (Nat.succ_lt_succ_iff.mp hn)
    have htext : (v :: values).flatMap (fun v ↦ ofString ", " ++ write v) ++ 0x5D :: rest =
        0x2C :: 0x20 :: (write v ++ (values.flatMap (fun v ↦ ofString ", " ++ write v) ++ 0x5D :: rest)) := by
      rw [List.flatMap_cons, List.append_assoc, List.append_assoc]
      rfl
    rw [htext, readValues, readPunct_ne (by decide) (by decide), readPunct_self (by decide)]
    simp only [Option.bind_some, readValue_blank (show isBlank 0x20 = true by decide), hv.read, hvs,
      Option.map_some]

theorem join_cons (sep x : Bytes) (xs : List Bytes) : join sep (x :: xs) = x ++ xs.flatMap (sep ++ ·) := by
  induction xs generalizing x with
  | nil => simp [join]
  | cons y xs ih =>
    rw [join, List.intercalate_cons_cons, ← join, ih, List.flatMap_cons, List.append_assoc, List.append_assoc]

/-- Literals joined by commas are read as their values. -/
theorem readList_literals (h : ∀ v ∈ values, LiteralOf v (write v)) (rest : Bytes) :
    readList (0x5B :: join (ofString ", ") (values.map write) ++ 0x5D :: rest) = some (values, rest) := by
  rw [readList, List.cons_append, readPunct_self (by decide), Option.bind_some]
  cases values with
  | nil =>
    have hend : readPunct 0x5D (join (ofString ", ") ([].map write) ++ 0x5D :: rest) = some rest :=
      readPunct_self (by decide) rest
    rw [hend]
  | cons v values =>
    have hv := h v List.mem_cons_self
    have hvs : ∀ x ∈ values, LiteralOf x (write x) := fun x hx ↦ h x (List.mem_cons_of_mem v hx)
    have hfuel : values.length ≤ (values.flatMap (fun v ↦ ofString ", " ++ write v)).length :=
      length_le_length_flatMap (fun x _ ↦ List.cons_ne_nil 0x2C (0x20 :: write x))
    rw [List.map_cons, join_cons, List.flatMap_map, List.append_assoc, hv.readPunct_eq_none (by decide)]
    dsimp only
    rw [hv.read, Option.bind_some, readValues_literals hvs]
    · rfl
    · simp only [List.length_append, List.length_cons]
      omega

end List

end OtlpCollectorOidc.Ottl

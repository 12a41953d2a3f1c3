import OtlpCollectorOidc.Lib.Json
import OtlpCollectorOidc.Lib.Numerals

namespace OtlpCollectorOidc.Yaml

open Text

def isBreak (c : Char) : Bool :=
  c.toNat = 0x0A || c.toNat = 0x0D || c.toNat = 0x85 || c.toNat = 0x2028 || c.toNat = 0x2029

/-- The rest of a double-quoted scalar: its content and what follows the closing
quote. An unescaped line break is folded to a space. -/
def scalarBody (admits : Char → Bool) : List Char → Option (List Char × List Char)
  | [] => none
  | '"' :: rest => some ([], rest)
  | '\\' :: 'u' :: a :: b :: c :: d :: rest => do
    let n ← [a, b, c, d].foldlM (fun n h ↦ (Json.hexDigit h).map (16 * n + ·)) 0
    let (cs, rest) ← scalarBody admits rest
    if Json.isSurrogate n then none else some (Char.ofNat n :: cs, rest)
  | '\\' :: c :: rest => do
    let e ← Json.escape c
    let (cs, rest) ← scalarBody admits rest
    some (e :: cs, rest)
  | c :: rest =>
    if isBreak c then (scalarBody admits rest).map (fun p ↦ (' ' :: p.1, p.2))
    else if admits c then (scalarBody admits rest).map (fun p ↦ (c :: p.1, p.2))
    else none

def readScalar (admits : Char → Bool) : List Char → Option (List Char × List Char)
  | '"' :: rest => scalarBody admits rest
  | _ => none

theorem scalarBody_raw (admits : Char → Bool) {c : Char} (hq : c ≠ '"') (hb : c ≠ '\\') (rest : List Char) :
    scalarBody admits (c :: rest) =
      if isBreak c then (scalarBody admits rest).map (fun p ↦ (' ' :: p.1, p.2))
      else if admits c then (scalarBody admits rest).map (fun p ↦ (c :: p.1, p.2))
      else none := by
  rw [scalarBody] <;> simp [hq, hb]

theorem scalarBody_unicode (admits : Char → Bool) {c : Char} {x y z w : ℕ} (hx : x < 16)
    (hy : y < 16) (hz : z < 16)
  (hw : w < 16) (hc : c.toNat = ((x * 16 + y) * 16 + z) * 16 + w) (rest : List Char) :
    scalarBody admits ('\\' :: 'u' :: Json.hex x :: Json.hex y :: Json.hex z :: Json.hex w :: rest) =
      (scalarBody admits rest).map (fun p ↦ (c :: p.1, p.2)) := by
  rw [scalarBody]
  have hn : (16 * (16 * (16 * (16 * 0 + x) + y) + z) + w) = c.toNat := by omega
  have hs : Json.isSurrogate c.toNat = false := by
    have := toNat_valid c
    simp [Json.isSurrogate]; omega
  simp only [List.foldlM_cons, List.foldlM_nil, Json.hexDigit_hex _ hx, Json.hexDigit_hex _ hy,
    Json.hexDigit_hex _ hz, Json.hexDigit_hex _ hw, Option.map_some, Option.bind_eq_bind, Option.bind_some,
      Option.pure_def, hn, hs, Char.ofNat_toNat]
  cases scalarBody admits rest <;> rfl

theorem scalarBody_escapeOf (admits : Char → Bool) {c : Char} {e : List Char} (h : Json.escapeOf c = some e)
    (rest : List Char) :
    scalarBody admits (e ++ rest) = (scalarBody admits rest).map (fun p ↦ (c :: p.1, p.2)) := by
  have hshort : ∀ {x : Char}, Json.escape x = some c → x ≠ 'u' → scalarBody admits ('\\' :: x :: rest) =
      (scalarBody admits rest).map (fun p ↦ (c :: p.1, p.2)) := by
    intro x hx hu
    rw [scalarBody, hx]
    · cases scalarBody admits rest <;> rfl
    · simp [hu]
  have hofNat : ∀ {n : ℕ}, c.toNat = n → Char.ofNat n = c := fun hn ↦ hn ▸ Char.ofNat_toNat c
  unfold Json.escapeOf at h
  split_ifs at h with h₁ h₂ h₃ h₄ h₅ h₆ h₇ h₈ <;> cases h
  · simp only [Bool.or_eq_true, decide_eq_true_eq] at h₁
    obtain rfl | rfl := h₁
    · exact hshort rfl (by decide)
    · exact hshort rfl (by decide)
  · exact hshort (congrArg some (hofNat h₂)) (by decide)
  · exact hshort (congrArg some (hofNat h₃)) (by decide)
  · exact hshort (congrArg some h₄.symm) (by decide)
  · exact hshort (congrArg some h₅.symm) (by decide)
  · exact hshort (congrArg some h₆.symm) (by decide)
  · exact scalarBody_unicode admits (x := 0) (y := 0) (by omega) (by omega) (by omega)
      (by omega) (by omega) rest
  · simp only [Bool.or_eq_true, decide_eq_true_eq] at h₈
    exact scalarBody_unicode admits (x := 2) (y := 0) (z := 2) (by omega) (by omega) (by omega)
      (by omega) (by omega) rest

/-- A key as it is written, a quoted one with its quotes. -/
inductive Key where
  | plain (text : Bytes)
  | quoted (text : Bytes)
  deriving DecidableEq

/-- A document, its scalars as they are written. -/
inductive Node where
  | scalar (text : Bytes)
  | seq (items : List Node)
  | map (entries : List (Key × Node))

def Node.member (key : Bytes) : Node → Option Node
  | .map entries => (entries.find? (fun e ↦ e.1 = .plain key)).map Prod.snd
  | _ => none

def Node.item (i : ℕ) : Node → Option Node
  | .seq items => items[i]?
  | _ => none

/-- The whole number the reader takes a plain scalar for: an integer with the base its prefix says, or
else a float. -/
def Node.integer : Node → Option ℤ
  | .scalar text =>
    let plain := text.filter (· ≠ 0x5F)
    (Strconv.parseIntBaseZero 64 plain).or (Strconv.parseWholeFloat plain)
  | _ => none

/-- Where a colon makes a key of what stands before it: on the same line, and no more than 1024
characters on. -/
def isKey (written : List Char) : Bool := !written.any isBreak && written.length ≤ 1024

/-- A key as the reader takes it. The plain ones are short words of one line. -/
def Key.read (admits : Char → Bool) : Key → Option (List Char)
  | .plain text => some (chars text)
  | .quoted text => if isKey (chars text) then (readScalar admits (chars text)).map Prod.fst else none

def Key.Readable (admits : Char → Bool) (key : Key) : Prop := (key.read admits).isSome = true

/-- The reader takes both for the same key, and refuses a mapping that has both. -/
def Repeats (admits : Char → Bool) (a b : Key) : Prop :=
  ∃ key, a.read admits = some key ∧ b.read admits = some key

/-- Every key is read as one, and only once in its mapping. -/
inductive WellKeyed (admits : Char → Bool) : Node → Prop where
  | scalar (text : Bytes) : WellKeyed admits (.scalar text)
  | seq {items : List Node} : (∀ x ∈ items, WellKeyed admits x) → WellKeyed admits (.seq items)
  | map {entries : List (Key × Node)} : (∀ e ∈ entries, e.1.Readable admits) →
      entries.Pairwise (fun a b ↦ ¬ Repeats admits a.1 b.1) →
      (∀ e ∈ entries, WellKeyed admits e.2) → WellKeyed admits (.map entries)

section WellKeyed

variable {admits : Char → Bool}

@[simp] theorem wellKeyed_scalar (text : Bytes) : WellKeyed admits (.scalar text) := .scalar text

@[simp] theorem wellKeyed_seq {items : List Node} :
    WellKeyed admits (.seq items) ↔ ∀ x ∈ items, WellKeyed admits x :=
  ⟨fun h ↦ by cases h; assumption, .seq⟩

@[simp] theorem wellKeyed_map {entries : List (Key × Node)} :
    WellKeyed admits (.map entries) ↔ (∀ e ∈ entries, e.1.Readable admits) ∧
      entries.Pairwise (fun a b ↦ ¬ Repeats admits a.1 b.1) ∧ ∀ e ∈ entries, WellKeyed admits e.2 :=
  ⟨fun h ↦ by cases h; exact ⟨‹_›, ‹_›, ‹_›⟩, fun h ↦ .map h.1 h.2.1 h.2.2⟩

@[simp] theorem readable_plain (text : Bytes) : (Key.plain text).Readable admits := rfl

@[simp] theorem repeats_plain {a b : Bytes} : Repeats admits (.plain a) (.plain b) ↔ chars a = chars b := by
  simp [Repeats, Key.read, eq_comm]

end WellKeyed

mutual

/-- Rewrites the entries of a document that `f` has a new value for. -/
def Node.edit (f : Key → Node → Option Node) : Node → Node
  | .scalar text => .scalar text
  | .seq items => .seq (editItems f items)
  | .map entries => .map (editEntries f entries)

def editItems (f : Key → Node → Option Node) : List Node → List Node
  | [] => []
  | x :: xs => x.edit f :: editItems f xs

def editEntries (f : Key → Node → Option Node) : List (Key × Node) → List (Key × Node)
  | [] => []
  | e :: es => editEntry f e :: editEntries f es

def editEntry (f : Key → Node → Option Node) : Key × Node → Key × Node
  | (key, x) => (key, (f key x).getD (x.edit f))

end

section Edit

variable (f : Key → Node → Option Node)

theorem editItems_eq (xs : List Node) : editItems f xs = xs.map (Node.edit f) := by
  induction xs with
  | nil => rfl
  | cons x xs ih => rw [editItems, ih, List.map_cons]

theorem editEntries_eq (es : List (Key × Node)) : editEntries f es = es.map (editEntry f) := by
  induction es with
  | nil => rfl
  | cons e es ih => rw [editEntries, ih, List.map_cons]

@[simp] theorem edit_scalar (text : Bytes) : (Node.scalar text).edit f = .scalar text := by rw [Node.edit]

@[simp] theorem edit_seq (items : List Node) : (Node.seq items).edit f = .seq (items.map (Node.edit f)) := by
  rw [Node.edit, editItems_eq]

@[simp] theorem edit_map (entries : List (Key × Node)) :
    (Node.map entries).edit f = .map (entries.map (editEntry f)) := by
  rw [Node.edit, editEntries_eq]

end Edit

end OtlpCollectorOidc.Yaml

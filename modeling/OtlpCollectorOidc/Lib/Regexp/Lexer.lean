import Mathlib.Order.Monotone.Basic

namespace OtlpCollectorOidc.Regexp

/-- The Unicode tables of a regular expression: the characters of each `\p` name, and the characters a
character equals when case is folded. -/
structure Unicode where
  table : List Char → Option (Char → Bool)
  orbit : Char → List Char

abbrev Ranges := List (ℕ × ℕ)

/-- An entry of a character class; a negated one is negated after its case is folded. -/
inductive ClassItem where
  | ranges (neg : Bool) (rs : Ranges)
  | table (neg : Bool) (set : Char → Bool)

structure CharClass where
  neg : Bool
  items : List ClassItem

inductive Flag where
  | foldCase
  | multiLine
  | dotNewline
  | nonGreedy

inductive Token where
  | literal (rune : ℕ)
  | quoted (cs : List Char) (closed : Bool)
  | charClass (cls : CharClass)
  | dot
  | caret
  | dollar
  | beginText
  | endText
  | wordBoundary
  | noWordBoundary
  | bar
  | close
  | capture (name : List Char)
  | flags (on off : List Flag) (group : Bool)
  | times (min : ℕ) (max : Option ℕ) (lazy : Bool)

section Characters

def isDigit (c : Char) : Bool := '0' ≤ c && c ≤ '9'

def isOctal (c : Char) : Bool := '0' ≤ c && c ≤ '7'

def isAlnum (c : Char) : Bool := isDigit c || ('A' ≤ c && c ≤ 'Z') || ('a' ≤ c && c ≤ 'z')

def unhex (c : Char) : Option ℕ :=
  if isDigit c then some (c.toNat - 0x30)
  else if 'a' ≤ c && c ≤ 'f' then some (c.toNat - 0x61 + 10)
  else if 'A' ≤ c && c ≤ 'F' then some (c.toNat - 0x41 + 10)
  else none

def digitRange : ℕ × ℕ := (0x30, 0x39)

def upperRange : ℕ × ℕ := (0x41, 0x5A)

def lowerRange : ℕ × ℕ := (0x61, 0x7A)

def wordRanges : Ranges := [digitRange, upperRange, (0x5F, 0x5F), lowerRange]

def perlClass (c : Char) : Option ClassItem :=
  if c = 'd' then some (.ranges false [digitRange])
  else if c = 'D' then some (.ranges true [digitRange])
  else if c = 's' then some (.ranges false [(0x09, 0x0A), (0x0C, 0x0D), (0x20, 0x20)])
  else if c = 'S' then some (.ranges true [(0x09, 0x0A), (0x0C, 0x0D), (0x20, 0x20)])
  else if c = 'w' then some (.ranges false wordRanges)
  else if c = 'W' then some (.ranges true wordRanges)
  else none

def posixRanges : List (String × Ranges) :=
  [("alnum", [digitRange, upperRange, lowerRange]), ("alpha", [upperRange, lowerRange]),
    ("ascii", [(0x00, 0x7F)]), ("blank", [(0x09, 0x09), (0x20, 0x20)]),
      ("cntrl", [(0x00, 0x1F), (0x7F, 0x7F)]), ("digit", [digitRange]),
    ("graph", [(0x21, 0x7E)]), ("lower", [lowerRange]), ("print", [(0x20, 0x7E)]),
    ("punct", [(0x21, 0x2F), (0x3A, 0x40), (0x5B, 0x60), (0x7B, 0x7E)]),
      ("space", [(0x09, 0x0D), (0x20, 0x20)]),
    ("upper", [upperRange]), ("word", wordRanges), ("xdigit", [digitRange, (0x41, 0x46), (0x61, 0x66)])]

/-- The class of the name in `[:name:]` or `[:^name:]`. -/
def posixClass (name : List Char) : Option ClassItem :=
  let (neg, name) := match name with
    | '^' :: name => (true, name)
    | name => (false, name)
  (posixRanges.find? (fun p ↦ p.1.toList = name)).map (fun p ↦ .ranges neg p.2)

end Characters

section Readers

variable {α : Type}

/-- Reads characters off the front of a pattern: what they mean, and the rest. -/
abbrev Reader (α : Type) := List Char → Option (α × List Char)

/-- Whatever is read takes up at least one character. -/
def Consumes (f : Reader α) : Prop := ∀ x a rest, f x = some (a, rest) → rest.length < x.length

def expect (c : Char) : List Char → Option (List Char)
  | [] => none
  | d :: t => if d = c then some t else none

def cutAt (sep : Char) : Reader (List Char)
  | [] => none
  | c :: t => if c = sep then some ([], t) else (cutAt sep t).map (fun p ↦ (c :: p.1, p.2))

/-- The text before the first two such characters in a row, and the text after them. -/
def cutPair (a b : Char) : Reader (List Char)
  | [] => none
  | [_] => none
  | c :: d :: t =>
    if c = a && d = b then some ([], t) else (cutPair a b (d :: t)).map (fun p ↦ (c :: p.1, p.2))

def readDigits (n : ℕ) : List Char → ℕ × List Char
  | [] => (n, [])
  | c :: t => if isDigit c then readDigits (n * 10 + (c.toNat - 0x30)) t else (n, c :: t)

def readInt : Reader ℕ
  | [] => none
  | c :: t =>
    if !isDigit c || (c = '0' && t.head?.any isDigit) then none else some (readDigits (c.toNat - 0x30) t)

def readMax (min : ℕ) (t : List Char) : Option ((ℕ × Option ℕ) × List Char) :=
  match expect '}' t with
  | some t => some ((min, some min), t)
  | none =>
    (expect ',' t).bind (fun t ↦
      match expect '}' t with
      | some t => some ((min, none), t)
      | none => (readInt t).bind (fun p ↦ (expect '}' p.2).map (fun t ↦ ((min, some p.1), t))))

def readBounds : Reader (ℕ × Option ℕ) := fun t ↦ (readInt t).bind (fun p ↦ readMax p.1 p.2)

def readOctal (r : ℕ) : ℕ → List Char → ℕ × List Char
  | n + 1, c :: t => if isOctal c then readOctal (r * 8 + (c.toNat - 0x30)) n t else (r, c :: t)
  | _, t => (r, t)

def readHex (r : ℕ) (seen : Bool) : Reader ℕ
  | [] => none
  | c :: t =>
    if c = '}' then if seen then some (r, t) else none
    else (unhex c).bind (fun v ↦ if 0x10FFFF < r * 16 + v then none else readHex (r * 16 + v) true t)

/-- What follows `\x`: two digits, or any number of them in braces. -/
def readHexEscape : Reader ℕ
  | [] => none
  | c :: t =>
    if c = '{' then readHex 0 false t
    else match t with
      | [] => none
      | d :: t => (unhex c).bind (fun x ↦ (unhex d).map (fun y ↦ (x * 16 + y, t)))

def escaped (c : Char) : Option ℕ :=
  if c = 'a' then some 0x07
  else if c = 'f' then some 0x0C
  else if c = 'n' then some 0x0A
  else if c = 'r' then some 0x0D
  else if c = 't' then some 0x09
  else if c = 'v' then some 0x0B
  else if c.toNat < 0x80 && !isAlnum c then some c.toNat
  else none

/-- What follows a backslash that stands for one character. A single non-zero digit would be a back
reference. -/
def readEscape : Reader ℕ
  | [] => none
  | c :: t =>
    if c = '0' || ('1' ≤ c && c ≤ '7' && t.head?.any isOctal) then some (readOctal (c.toNat - 0x30) 2 t)
    else if c = 'x' then readHexEscape t
    else (escaped c).map (·, t)

theorem expect_eq_some {c : Char} {x rest : List Char} : expect c x = some rest ↔ x = c :: rest := by
  cases x with
  | nil => simp [expect]
  | cons d t =>
    rw [expect, List.cons.injEq]
    split_ifs with h <;> simp [h]

theorem consumes_cutAt (sep : Char) : Consumes (cutAt sep) := by
  intro x
  induction x with
  | nil => simp [cutAt]
  | cons c t ih =>
    intro a rest h
    rw [cutAt] at h
    split_ifs at h
    · cases h
      simp
    · obtain ⟨p, hp, he⟩ := Option.map_eq_some_iff.mp h
      cases he
      exact (ih p.1 p.2 hp).trans (Nat.lt_succ_self _)

theorem consumes_cutPair (a b : Char) : Consumes (cutPair a b) := by
  intro x
  induction x with
  | nil => simp [cutPair]
  | cons c t ih =>
    intro y rest h
    cases t with
    | nil => simp [cutPair] at h
    | cons d t =>
      rw [cutPair] at h
      split_ifs at h
      · cases h
        simp only [List.length_cons]
        omega
      · obtain ⟨p, hp, he⟩ := Option.map_eq_some_iff.mp h
        cases he
        exact (ih p.1 p.2 hp).trans (Nat.lt_succ_self _)

theorem readDigits_length (n : ℕ) (x : List Char) : (readDigits n x).2.length ≤ x.length := by
  induction x generalizing n with
  | nil => simp [readDigits]
  | cons c t ih =>
    rw [readDigits]
    split_ifs
    · exact (ih _).trans (Nat.le_succ _)
    · exact le_rfl

theorem consumes_readInt : Consumes readInt := by
  intro x a rest h
  cases x with
  | nil => simp [readInt] at h
  | cons c t =>
    rw [readInt] at h
    split_ifs at h
    have hrest : (readDigits (c.toNat - 0x30) t).2 = rest := congrArg Prod.snd (Option.some.inj h)
    rw [← hrest]
    exact Nat.lt_succ_of_le (readDigits_length _ t)

theorem readMax_length {min : ℕ} {x rest : List Char} {a : ℕ × Option ℕ}
    (h : readMax min x = some (a, rest)) :
    rest.length < x.length := by
  rw [readMax] at h
  split at h
  · next t he =>
    cases h
    rw [expect_eq_some.mp he]
    exact Nat.lt_succ_self _
  · obtain ⟨t, ht, h⟩ := Option.bind_eq_some_iff.mp h
    rw [expect_eq_some.mp ht]
    split at h
    · next t' he =>
      cases h
      rw [expect_eq_some.mp he]
      simp only [List.length_cons]
      omega
    · obtain ⟨p, hp, h⟩ := Option.bind_eq_some_iff.mp h
      obtain ⟨t', he, h⟩ := Option.map_eq_some_iff.mp h
      cases h
      have hint := consumes_readInt t p.1 p.2 hp
      rw [expect_eq_some.mp he] at hint
      simp only [List.length_cons] at hint ⊢
      omega

theorem consumes_readBounds : Consumes readBounds := by
  intro x a rest h
  obtain ⟨p, hp, h⟩ := Option.bind_eq_some_iff.mp h
  exact (readMax_length h).trans (consumes_readInt x p.1 p.2 hp)

theorem readOctal_length (r n : ℕ) (x : List Char) : (readOctal r n x).2.length ≤ x.length := by
  induction n generalizing r x with
  | zero => simp [readOctal]
  | succ n ih =>
    cases x with
    | nil => simp [readOctal]
    | cons c t =>
      rw [readOctal]
      split_ifs
      · exact (ih _ t).trans (Nat.le_succ _)
      · exact le_rfl

theorem consumes_readHex (r : ℕ) (seen : Bool) : Consumes (readHex r seen) := by
  intro x
  induction x generalizing r seen with
  | nil => simp [readHex]
  | cons c t ih =>
    intro a rest h
    rw [readHex] at h
    split_ifs at h
    · cases h
      simp
    · obtain ⟨v, _, h⟩ := Option.bind_eq_some_iff.mp h
      split_ifs at h
      exact (ih _ _ a rest h).trans (Nat.lt_succ_self _)

theorem consumes_readHexEscape : Consumes readHexEscape := by
  intro x a rest h
  cases x with
  | nil => simp [readHexEscape] at h
  | cons c t =>
    simp only [readHexEscape] at h
    split_ifs at h
    · exact (consumes_readHex _ _ t a rest h).trans (Nat.lt_succ_self _)
    · cases t with
      | nil => simp at h
      | cons d t =>
        obtain ⟨y, _, h⟩ := Option.bind_eq_some_iff.mp h
        obtain ⟨z, _, h⟩ := Option.map_eq_some_iff.mp h
        cases h
        simp only [List.length_cons]
        omega

theorem consumes_readEscape : Consumes readEscape := by
  intro x a rest h
  cases x with
  | nil => simp [readEscape] at h
  | cons c t =>
    simp only [readEscape] at h
    split_ifs at h
    · have hrest : (readOctal (c.toNat - 0x30) 2 t).2 = rest := congrArg Prod.snd (Option.some.inj h)
      rw [← hrest]
      exact Nat.lt_succ_of_le (readOctal_length _ _ t)
    · exact (consumes_readHexEscape t a rest h).trans (Nat.lt_succ_self _)
    · obtain ⟨r, _, h⟩ := Option.map_eq_some_iff.mp h
      cases h
      exact Nat.lt_succ_self _

section Class

variable (u : Unicode)

def unicodeClass (neg : Bool) (name : List Char) : Option ClassItem :=
  match expect '^' name with
  | some name => (u.table name).map (.table !neg)
  | none => (u.table name).map (.table neg)

def readUnicode (neg : Bool) : Reader ClassItem
  | [] => none
  | c :: t =>
    if c = '{' then (cutAt '}' t).bind (fun p ↦ (unicodeClass u neg p.1).map (·, p.2))
    else (unicodeClass u neg [c]).map (·, t)

def readClassChar : Reader ℕ
  | [] => none
  | c :: t => if c = '\\' then readEscape t else some (c.toNat, t)

/-- The upper end of a range, where a minus stands for one and not for itself before the bracket. -/
def readUpper (lo : ℕ) (t : List Char) : Option (ClassItem × List Char) :=
  match expect '-' t with
  | none | some [] => some (.ranges false [(lo, lo)], t)
  | some (c :: t') =>
    if c = ']' then some (.ranges false [(lo, lo)], t)
    else (readClassChar (c :: t')).bind (fun p ↦ if p.1 < lo then none
      else some (.ranges false [(lo, p.1)], p.2))

def readRange : Reader ClassItem := fun t ↦ (readClassChar t).bind (fun p ↦ readUpper p.1 p.2)

/-- A class escape; `\p` is committed to. -/
def readClassEscape (c : Char) (t : List Char) : Option (Option (ClassItem × List Char)) :=
  if c = 'p' then some (readUnicode u false t)
  else if c = 'P' then some (readUnicode u true t)
  else (perlClass c).map (fun item ↦ some (item, t))

def readItem : Reader ClassItem
  | c :: d :: t =>
    if c = '[' && d = ':' then
      match cutPair ':' ']' t with
      | some (name, rest) => (posixClass name).map (·, rest)
      | none => readRange (c :: d :: t)
    else if c = '\\' then
      match readClassEscape u d t with
      | some r => r
      | none => readRange (c :: d :: t)
    else readRange (c :: d :: t)
  | t => readRange t

theorem consumes_readUnicode (neg : Bool) : Consumes (readUnicode u neg) := by
  intro x a rest h
  cases x with
  | nil => simp [readUnicode] at h
  | cons c t =>
    rw [readUnicode] at h
    split_ifs at h
    · obtain ⟨p, hp, h⟩ := Option.bind_eq_some_iff.mp h
      obtain ⟨item, _, h⟩ := Option.map_eq_some_iff.mp h
      cases h
      exact (consumes_cutAt _ t p.1 p.2 hp).trans (Nat.lt_succ_self _)
    · obtain ⟨item, _, h⟩ := Option.map_eq_some_iff.mp h
      cases h
      exact Nat.lt_succ_self _

theorem consumes_readClassChar : Consumes readClassChar := by
  intro x a rest h
  cases x with
  | nil => simp [readClassChar] at h
  | cons c t =>
    rw [readClassChar] at h
    split_ifs at h
    · exact (consumes_readEscape t a rest h).trans (Nat.lt_succ_self _)
    · cases h
      exact Nat.lt_succ_self _

theorem readUpper_length {lo : ℕ} {x rest : List Char} {a : ClassItem} (h : readUpper lo x = some (a, rest)) :
    rest.length ≤ x.length := by
  rw [readUpper] at h
  split at h
  · cases h
    exact le_rfl
  · cases h
    exact le_rfl
  · next c t he =>
    split_ifs at h
    · cases h
      exact le_rfl
    · obtain ⟨p, hp, h⟩ := Option.bind_eq_some_iff.mp h
      split_ifs at h
      cases h
      have hchar := consumes_readClassChar _ p.1 p.2 hp
      rw [expect_eq_some.mp he]
      simp only [List.length_cons] at hchar ⊢
      omega

theorem consumes_readRange : Consumes readRange := by
  intro x a rest h
  obtain ⟨p, hp, h⟩ := Option.bind_eq_some_iff.mp h
  exact (readUpper_length h).trans_lt (consumes_readClassChar x p.1 p.2 hp)

theorem readClassEscape_length {c : Char} {x rest : List Char} {a : ClassItem}
    (h : readClassEscape u c x = some (some (a, rest))) : rest.length ≤ x.length := by
  rw [readClassEscape] at h
  split_ifs at h
  · exact (consumes_readUnicode u _ x a rest (Option.some.inj h)).le
  · exact (consumes_readUnicode u _ x a rest (Option.some.inj h)).le
  · obtain ⟨item, _, h⟩ := Option.map_eq_some_iff.mp h
    cases h
    exact le_rfl

theorem consumes_readItem : Consumes (readItem u) := by
  intro x a rest h
  match x with
  | [] => exact consumes_readRange _ a rest h
  | [c] => exact consumes_readRange _ a rest h
  | c :: d :: t =>
    rw [readItem] at h
    split_ifs at h
    · split at h
      · next name rest' hcut =>
        obtain ⟨item, _, h⟩ := Option.map_eq_some_iff.mp h
        cases h
        have hcut' := consumes_cutPair _ _ t name rest hcut
        simp only [List.length_cons]
        omega
      · exact consumes_readRange _ a rest h
    · split at h
      · next r hr =>
        have hle := readClassEscape_length u (hr.trans (congrArg some h))
        simp only [List.length_cons]
        omega
      · exact consumes_readRange _ a rest h
    · exact consumes_readRange _ a rest h

/-- The items of a class up to its bracket, which may be the first of them. -/
def readItems (first : Bool) (x : List Char) : Option (List ClassItem × List Char) :=
  if x.head? = some ']' && !first then some ([], x.tail)
  else match _h : readItem u x with
    | none => none
    | some (item, rest) => (readItems false rest).map (fun p ↦ (item :: p.1, p.2))
termination_by x.length
decreasing_by exact consumes_readItem u x item rest _h

def readClass : Reader CharClass := fun t ↦
  match expect '^' t with
  | some t => (readItems u true t).map (fun p ↦ (⟨true, p.1⟩, p.2))
  | none => (readItems u true t).map (fun p ↦ (⟨false, p.1⟩, p.2))

theorem consumes_readItems (first : Bool) : Consumes (readItems u first) := by
  intro x a rest h
  rw [readItems] at h
  split_ifs at h with hend
  · cases h
    obtain ⟨hhead, -⟩ := Bool.and_eq_true_iff.mp hend
    cases x with
    | nil => simp at hhead
    | cons c t => exact Nat.lt_succ_self _
  · split at h
    · cases h
    · next item rest' hitem =>
      obtain ⟨p, hp, h⟩ := Option.map_eq_some_iff.mp h
      cases h
      have hlt := consumes_readItem u x item rest' hitem
      exact (consumes_readItems false rest' p.1 p.2 hp).trans hlt
termination_by x => x.length

theorem consumes_readClass : Consumes (readClass u) := by
  intro x a rest h
  rw [readClass] at h
  split at h
  · next t he =>
    obtain ⟨p, hp, h⟩ := Option.map_eq_some_iff.mp h
    cases h
    rw [expect_eq_some.mp he]
    exact (consumes_readItems u true t p.1 p.2 hp).trans (Nat.lt_succ_self _)
  · obtain ⟨p, hp, h⟩ := Option.map_eq_some_iff.mp h
    cases h
    exact consumes_readItems u true x p.1 p.2 hp

end Class

def flagOf (c : Char) : Option Flag :=
  if c = 'i' then some .foldCase
  else if c = 'm' then some .multiLine
  else if c = 's' then some .dotNewline
  else if c = 'U' then some .nonGreedy
  else none

/-- The letters of `(?flags)` and `(?flags:`; those after a minus, of which there is at least one, are
switched off. -/
def readFlags (on off : List Flag) (neg seen : Bool) : Reader Token
  | [] => none
  | c :: t =>
    match flagOf c with
    | some f => readFlags (if neg then on else on ++ [f]) (if neg then off ++ [f] else off) neg true t
    | none =>
      if c = '-' && !neg then readFlags on off true false t
      else if (c = ':' || c = ')') && (!neg || seen) then some (.flags on off (c = ':'), t)
      else none

def readName : Reader Token := fun t ↦
  (cutAt '>' t).bind (fun p ↦
    if p.1 ≠ [] && p.1.all (fun c ↦ c = '_' || isAlnum c) then some (.capture p.1, p.2) else none)

def readOpen (t : List Char) : Option (Token × List Char) :=
  match expect '?' t with
  | none => some (.capture [], t)
  | some t =>
    match expect '<' t with
    | some t => readName t
    | none =>
      match (expect 'P' t).bind (expect '<') with
      | some t => readName t
      | none => readFlags [] [] false false t

/-- A repetition, with the question mark that makes it lazy. -/
def readTimes (min : ℕ) (max : Option ℕ) (t : List Char) : Token × List Char :=
  match expect '?' t with
  | some t => (.times min max true, t)
  | none => (.times min max false, t)

/-- What follows a brace, which stands for itself where no repetition follows. -/
def readBrace (t : List Char) : Option (Token × List Char) :=
  match readBounds t with
  | none => some (.literal 0x7B, t)
  | some ((min, max), t) =>
    if 1000 < min || max.any (fun m ↦ 1000 < m || m < min) then none else some (readTimes min max t)

/-- What follows `\Q`: to `\E`, or to the end of the pattern where there is none. -/
def readQuoted (t : List Char) : Token × List Char :=
  match cutPair '\\' 'E' t with
  | some (cs, t) => (.quoted cs true, t)
  | none => (.quoted t false, [])

section Lexer

variable (u : Unicode)

def assertion (c : Char) : Option Token :=
  if c = 'A' then some .beginText
  else if c = 'b' then some .wordBoundary
  else if c = 'B' then some .noWordBoundary
  else if c = 'z' then some .endText
  else none

/-- What follows a backslash. A single byte, `\C`, is not supported. -/
def readBackslash : Reader Token
  | [] => none
  | c :: t =>
    match assertion c with
    | some tok => some (tok, t)
    | none =>
      if c = 'C' then none
      else if c = 'Q' then some (readQuoted t)
      else match readClassEscape u c t with
        | some r => r.map (fun p ↦ (.charClass ⟨false, [p.1]⟩, p.2))
        | none => (readEscape (c :: t)).map (fun p ↦ (.literal p.1, p.2))

def operator (c : Char) : Option Token :=
  if c = '|' then some .bar
  else if c = ')' then some .close
  else if c = '^' then some .caret
  else if c = '$' then some .dollar
  else if c = '.' then some .dot
  else none

def repetition (c : Char) : Option (ℕ × Option ℕ) :=
  if c = '*' then some (0, none)
  else if c = '+' then some (1, none)
  else if c = '?' then some (0, some 1)
  else none

def lex : Reader Token
  | [] => none
  | c :: t =>
    match operator c with
    | some tok => some (tok, t)
    | none =>
      match repetition c with
      | some (min, max) => some (readTimes min max t)
      | none =>
        if c = '(' then readOpen t
        else if c = '[' then (readClass u t).map (fun p ↦ (.charClass p.1, p.2))
        else if c = '{' then readBrace t
        else if c = '\\' then readBackslash u t
        else some (.literal c.toNat, t)

theorem consumes_readFlags (on off : List Flag) (neg seen : Bool) : Consumes (readFlags on off neg seen) := by
  intro x
  induction x generalizing on off neg seen with
  | nil => simp [readFlags]
  | cons c t ih =>
    intro a rest h
    rw [readFlags] at h
    split at h
    · exact (ih _ _ _ _ a rest h).trans (Nat.lt_succ_self _)
    · split_ifs at h
      · exact (ih _ _ _ _ a rest h).trans (Nat.lt_succ_self _)
      · cases h
        exact Nat.lt_succ_self _

theorem consumes_readName : Consumes readName := by
  intro x a rest h
  obtain ⟨p, hp, h⟩ := Option.bind_eq_some_iff.mp h
  split_ifs at h
  cases h
  exact consumes_cutAt _ x p.1 p.2 hp

theorem readOpen_length {x rest : List Char} {a : Token} (h : readOpen x = some (a, rest)) :
    rest.length ≤ x.length := by
  rw [readOpen] at h
  split at h
  · cases h
    exact le_rfl
  · next t ht =>
    rw [expect_eq_some.mp ht]
    split at h
    · next t' ht' =>
      have hlt := consumes_readName t' a rest h
      rw [expect_eq_some.mp ht']
      simp only [List.length_cons]
      omega
    · split at h
      · next t' ht' =>
        obtain ⟨t'', hP, hlt⟩ := Option.bind_eq_some_iff.mp ht'
        have hname := consumes_readName t' a rest h
        rw [expect_eq_some.mp hP, expect_eq_some.mp hlt]
        simp only [List.length_cons]
        omega
      · exact ((consumes_readFlags _ _ _ _ t a rest h).trans (Nat.lt_succ_self _)).le

theorem readTimes_length (min : ℕ) (max : Option ℕ) (x : List Char) :
    (readTimes min max x).2.length ≤ x.length := by
  rw [readTimes]
  split
  · next t ht =>
    rw [expect_eq_some.mp ht]
    exact Nat.le_succ _
  · exact le_rfl

theorem readBrace_length {x rest : List Char} {a : Token} (h : readBrace x = some (a, rest)) :
    rest.length ≤ x.length := by
  rw [readBrace] at h
  split at h
  · cases h
    exact le_rfl
  · next min max t hb =>
    split_ifs at h
    have hrest : (readTimes min max t).2 = rest := congrArg Prod.snd (Option.some.inj h)
    rw [← hrest]
    exact (readTimes_length min max t).trans (consumes_readBounds x _ t hb).le

theorem readQuoted_length (x : List Char) : (readQuoted x).2.length ≤ x.length := by
  rw [readQuoted]
  split
  · next cs t hcut => exact (consumes_cutPair _ _ x cs t hcut).le
  · exact Nat.zero_le _

theorem consumes_readBackslash : Consumes (readBackslash u) := by
  intro x a rest h
  cases x with
  | nil => simp [readBackslash] at h
  | cons c t =>
    simp only [readBackslash] at h
    split at h
    · cases h
      exact Nat.lt_succ_self _
    · split_ifs at h
      · have hrest : (readQuoted t).2 = rest := congrArg Prod.snd (Option.some.inj h)
        rw [← hrest]
        exact Nat.lt_succ_of_le (readQuoted_length t)
      · split at h
        · next r hr =>
          obtain ⟨p, hp, h⟩ := Option.map_eq_some_iff.mp h
          cases h
          exact Nat.lt_succ_of_le (readClassEscape_length u (hr.trans (congrArg some hp)))
        · obtain ⟨p, hp, h⟩ := Option.map_eq_some_iff.mp h
          cases h
          exact consumes_readEscape _ p.1 p.2 hp

theorem consumes_lex : Consumes (lex u) := by
  intro x a rest h
  cases x with
  | nil => simp [lex] at h
  | cons c t =>
    simp only [lex] at h
    split at h
    · cases h
      exact Nat.lt_succ_self _
    · split at h
      · next min max _ =>
        have hrest : (readTimes min max t).2 = rest := congrArg Prod.snd (Option.some.inj h)
        rw [← hrest]
        exact Nat.lt_succ_of_le (readTimes_length min max t)
      · split_ifs at h
        · exact Nat.lt_succ_of_le (readOpen_length h)
        · obtain ⟨p, hp, h⟩ := Option.map_eq_some_iff.mp h
          cases h
          exact (consumes_readClass u t p.1 p.2 hp).trans (Nat.lt_succ_self _)
        · exact Nat.lt_succ_of_le (readBrace_length h)
        · exact (consumes_readBackslash u t a rest h).trans (Nat.lt_succ_self _)
        · cases h
          exact Nat.lt_succ_self _

def lexAll (x : List Char) : Option (List Token) :=
  if x = [] then some []
  else match _h : lex u x with
    | none => none
    | some (tok, rest) => (lexAll rest).map (tok :: ·)
termination_by x.length
decreasing_by exact consumes_lex u x tok rest _h

end Lexer

end Readers

end OtlpCollectorOidc.Regexp

import Mathlib.Data.Finset.Lattice.Fold
import Mathlib.Data.List.Sort
import OtlpCollectorOidc.Lib.Numerals

namespace OtlpCollectorOidc.Shell

open Text Strconv

section Arithmetic

/-- The number at the head of a text in base zero, and what follows it. -/
def literal : Bytes → ℕ × Bytes
  | 0x30 :: x :: d :: rest =>
    if (x = 0x78 || x = 0x58) && (digitOf d).any (· < 16) then readDigits 16 0 (d :: rest)
    else readDigits 8 0 (x :: d :: rest)
  | 0x30 :: rest => readDigits 8 0 rest
  | bs => readDigits 10 0 bs

/-- `strtoimax` in base zero, which gives the largest number for any above it. -/
def strtoimax (bs : Bytes) : ℕ × Bytes := (min (literal bs).1 (2 ^ 63 - 1), (literal bs).2)

/-- `$((bs + 1))` in dash, of a text that is one number: the sum wraps, and digits left over stop the
shell. -/
def addOne (bs : Bytes) : Option ℤ :=
  match strtoimax bs with
  | (n, []) => some (Int.bmod (n + 1) (2 ^ 64))
  | _ => none

/-- `[ a -ne b ]`; none where one of them is no number of 64 bits, which is an error's status. -/
def testNe (a b : Bytes) : Option Bool := do
  let x ← parseInt 64 a
  let y ← parseInt 64 b
  some (decide (x ≠ y))

theorem literal_decimal (n : ℕ) : literal (decimal n) = (n, []) := by
  have hcanonical := canonical_decimal n
  have hvalue : valueFrom 0 (decimal n) = n := digitsValue_decimal n
  by_cases hzero : (decimal n).head? = some 0x30
  · obtain rfl : n = 0 := decimal_injective (hcanonical.leading hzero)
    rfl
  · unfold literal
    split
    · rename_i h
      rw [h] at hzero
      exact absurd rfl hzero
    · rename_i h
      rw [h] at hzero
      exact absurd rfl hzero
    · rw [readDigits_ten hcanonical.digits, hvalue]

theorem strtoimax_decimal (n : ℕ) : strtoimax (decimal n) = (min n (2 ^ 63 - 1), []) := by
  rw [strtoimax, literal_decimal]

theorem addOne_decimal_of_lt {n : ℕ} (h : n < 2 ^ 63 - 1) : addOne (decimal n) = some ((n + 1 : ℕ) : ℤ) := by
  rw [addOne, strtoimax_decimal, min_eq_left h.le]
  exact congrArg some (Int.bmod_eq_of_le (by omega) (by omega))

/-- One more than the largest number is the least. -/
theorem addOne_decimal_of_ge {n : ℕ} (h : 2 ^ 63 - 1 ≤ n) : addOne (decimal n) = some (-2 ^ 63) := by
  rw [addOne, strtoimax_decimal, min_eq_right h]
  rfl

theorem parseInt_decimal (n : ℕ) : parseInt 64 (decimal n) = if n < 2 ^ 63 then some (n : ℤ) else none := by
  have hcanonical := canonical_decimal n
  have hsign : signOf (decimal n) = (false, decimal n) := by
    obtain ⟨c, cs, hcons, hc⟩ := exists_digit n
    rw [hcons]
    exact signOf_digit hc cs
  have huint : parseUint 64 (decimal n) = if n < 2 ^ 64 then some n else none := by
    rw [parseUint, digitsValue_decimal]
    simp [hcanonical.nonempty, hcanonical.digits]
  rw [parseInt_signOf, hsign]
  dsimp only
  rw [huint]
  by_cases hn : n < 2 ^ 64
  · rw [if_pos hn]
    rfl
  · rw [if_neg hn, if_neg (by omega)]

end Arithmetic

section Sorting

/-- Where a text's next byte stands in a version sort. -/
def order : Bytes → ℤ
  | [] => -1
  | c :: _ =>
    if isDigit c then 0
    else if (0x61 ≤ c && c ≤ 0x7A) || (0x41 ≤ c && c ≤ 0x5A) then c.toNat
    else if c = 0x7E then -2
    else c.toNat + 256

def otherNext (bs : Bytes) : Bool := bs.head?.any (fun c ↦ !isDigit c)

/-- The order of two versions: other bytes one by one, runs of digits as numbers. Each step takes a byte
at least. -/
def verrevcmp : ℕ → Bytes → Bytes → Ordering
  | 0, _, _ => .eq
  | n + 1, a, b =>
    if a = [] && b = [] then .eq
    else if otherNext a || otherNext b then (compare (order a) (order b)).then (verrevcmp n a.tail b.tail)
    else
      (compare (digitsValue (a.takeWhile isDigit)) (digitsValue (b.takeWhile isDigit))).then
        (verrevcmp n (a.dropWhile isDigit) (b.dropWhile isDigit))

/-- A part after a dot that a version sort takes for a file's suffix. -/
def isSuffixPart : Bytes → Bool
  | [] => false
  | c :: cs =>
    let letter := fun c : UInt8 ↦ (0x61 ≤ c && c ≤ 0x7A) || (0x41 ≤ c && c ≤ 0x5A) || c = 0x7E
    letter c && cs.all (fun c ↦ letter c || isDigit c)

def cutSuffixes (bs : Bytes) : Bytes :=
  match bs.splitOn 0x2E with
  | [] => []
  | first :: parts => List.intercalate [0x2E] (first :: parts.rdropWhile isSuffixPart)

/-- `filevercmp`, of texts that begin with a digit. -/
def filevercmp (a b : Bytes) : Ordering :=
  let a' := cutSuffixes a
  let b' := cutSuffixes b
  (verrevcmp (a'.length + b'.length) a' b').then (verrevcmp (a.length + b.length) a b)

/-- Lines in the order of a key, and of their bytes where the keys are equal. -/
def lineLE (key : Bytes → Bytes → Ordering) (a b : Bytes) : Bool :=
  match key a b with
  | .lt => true
  | .gt => false
  | .eq => compareLE a b

/-- `sort -V`. -/
def sortVersions (lines : List Bytes) : List Bytes :=
  lines.insertionSort (fun a b ↦ lineLE filevercmp a b = true)

/-- The number `sort -n` reads at the head of a line without a point in it. -/
def leadingNumber : Bytes → ℤ
  | 0x2D :: rest => -digitsValue (rest.takeWhile isDigit)
  | bs => digitsValue (bs.takeWhile isDigit)

/-- `sort -n`. -/
def sortNumbers (lines : List Bytes) : List Bytes :=
  lines.insertionSort (fun a b ↦ lineLE (fun a b ↦ compare (leadingNumber a) (leadingNumber b)) a b = true)

/-- `cut -d.` of one field, counted from zero; a line without a dot is its own field. -/
def cutField (i : ℕ) (line : Bytes) : Bytes :=
  match line.splitOn 0x2E with
  | [_] => line
  | parts => parts.getD i []

section Numbers

variable {n : ℕ} {a b : Bytes}

theorem span_decimal (m : ℕ) (ha : otherNext a = true ∨ a = []) :
    (decimal m ++ a).takeWhile isDigit = decimal m ∧ (decimal m ++ a).dropWhile isDigit = a := by
  have hdigits : ∀ c ∈ decimal m, isDigit c = true := List.all_eq_true.mp (canonical_decimal m).digits
  rw [List.takeWhile_append_of_pos hdigits, List.dropWhile_append_of_pos hdigits]
  cases a with
  | nil => simp
  | cons c a =>
    have hc : isDigit c = false := by simpa [otherNext] using ha
    simp [hc]

theorem otherNext_decimal (m : ℕ) (a : Bytes) : otherNext (decimal m ++ a) = false := by
  obtain ⟨c, cs, hcons, hc⟩ := exists_digit m
  simp [otherNext, hcons, hc]

theorem verrevcmp_decimal (m k : ℕ) (ha : otherNext a = true ∨ a = []) (hb : otherNext b = true ∨ b = []) :
    verrevcmp (n + 1) (decimal m ++ a) (decimal k ++ b) = (compare m k).then (verrevcmp n a b) := by
  have hne : decimal m ≠ [] := (canonical_decimal m).nonempty
  obtain ⟨htake, hdrop⟩ := span_decimal m ha
  obtain ⟨htake', hdrop'⟩ := span_decimal k hb
  rw [verrevcmp, if_neg (by simp [hne]), if_neg (by simp [otherNext_decimal]), htake, htake', hdrop, hdrop',
    digitsValue_decimal, digitsValue_decimal]

theorem verrevcmp_dot (n : ℕ) (a b : Bytes) :
    verrevcmp (n + 1) (0x2E :: a) (0x2E :: b) = verrevcmp n a b := by
  rw [verrevcmp, if_neg (by simp), if_pos (by rfl)]
  rfl

theorem leadingNumber_decimal (m : ℕ) : leadingNumber (decimal m) = m := by
  have hspan := (span_decimal m (Or.inr rfl)).1
  rw [List.append_nil] at hspan
  have hnext := otherNext_decimal m []
  rw [List.append_nil] at hnext
  unfold leadingNumber
  split
  · rename_i h
    rw [h] at hnext
    cases hnext
  · rw [hspan, digitsValue_decimal]

end Numbers

/-- The last of the sorted members is the greatest. -/
theorem getLast_insertionSort {α : Type*} [LinearOrder α] [OrderBot α] (xs : List α) :
    ((xs.insertionSort (· ≤ ·)).getLast?).getD ⊥ = xs.toFinset.sup id := by
  have hmem : ∀ x, x ∈ xs.insertionSort (· ≤ ·) ↔ x ∈ xs := fun x ↦ List.mem_insertionSort _
  rcases List.eq_nil_or_concat (xs.insertionSort (· ≤ ·)) with hnil | ⟨init, x, hx⟩
  · have hxs : xs = [] :=
      List.eq_nil_iff_forall_not_mem.mpr (fun x hx ↦ by simpa [hnil] using (hmem x).mpr hx)
    rw [hnil, hxs]
    rfl
  · have hsorted := List.pairwise_insertionSort (· ≤ ·) xs
    rw [hx] at hsorted hmem ⊢
    rw [List.concat_eq_append, List.pairwise_append] at hsorted
    rw [List.concat_eq_append, List.getLast?_concat, Option.getD_some]
    refine le_antisymm (Finset.le_sup (f := id) (List.mem_toFinset.mpr ((hmem x).mp (by simp)))) ?_
    refine Finset.sup_le (fun y hy ↦ ?_)
    have hy := (hmem y).mpr (List.mem_toFinset.mp hy)
    rw [List.concat_eq_append, List.mem_append, List.mem_singleton] at hy
    rcases hy with hy | rfl
    · exact hsorted.2.2 y hy x List.mem_cons_self
    · exact le_rfl

end Sorting

inductive Glob where
  | byte (c : UInt8)
  | digit
  | star

def globMatch : List Glob → Bytes → Bool
  | [], bs => bs.isEmpty
  | .star :: p, bs => bs.tails.any (globMatch p)
  | .byte c :: p, bs => match bs with
    | [] => false
    | b :: rest => b = c && globMatch p rest
  | .digit :: p, bs => match bs with
    | [] => false
    | b :: rest => isDigit b && globMatch p rest

end OtlpCollectorOidc.Shell

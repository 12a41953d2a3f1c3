import Mathlib.Data.List.Infix
import Mathlib.Data.Prod.Lex
import Mathlib.Data.Set.List
import Mathlib.Order.Lattice.Nat
import OtlpCollectorOidc.Lib.Shell

namespace OtlpCollectorOidc.Release

open Text Strconv Shell

/-- What git says of the commit checked out. -/
structure Checkout where
  /-- The tags reachable from it. -/
  merged : List Bytes
  /-- The tags on the commit itself. -/
  pointsAt : List Bytes
  /-- The commit a tag of the repository names. -/
  commitOf : Bytes → Option Bytes
  head : Bytes
  sha : Bytes
  dirty : Bool

inductive Failure where
  | unset (name : Bytes)
  | usage
  | arithmetic (expression : Bytes)
  | message (text : Bytes)
  deriving DecidableEq

/-- `v[0-9]*.[0-9]*.[0-9]*` -/
def pattern : List Glob :=
  [.byte 0x76, .digit, .star, .byte 0x2E, .digit, .star, .byte 0x2E, .digit, .star]

def bareVersion : Bytes → Bytes
  | 0x76 :: rest => rest
  | tag => tag

def releases (tags : List Bytes) : List Bytes :=
  sortVersions ((tags.filter (globMatch pattern)).map bareVersion)

/-- `tail -n 1`. -/
def tail (lines : List Bytes) : Bytes := lines.getLast?.getD []

/-- `${value:-default}` -/
def orDefault (default value : Bytes) : Bytes := if value = [] then default else value

/-- `$((value + 1))` -/
def increment (value : Bytes) : Except Failure Bytes :=
  match addOne value with
  | none => .error (.arithmetic (value ++ ofString " + 1"))
  | some n => .ok (formatInt n)

namespace Checkout

variable (c : Checkout)

def last : Bytes := orDefault "0.0.0" (tail (releases c.merged))

def lastIteration : Bytes := orDefault "0" (tail (sortNumbers ((releases c.merged).map (cutField 1))))

def version : Except Failure Bytes := do
  let dirty := if c.dirty then ofString ".dirty" else []
  let exact := if c.dirty then [] else tail (releases c.pointsAt)
  if exact ≠ [] then return exact
  let major := cutField 0 c.last
  let next ← increment c.lastIteration
  return major ++ ofString "." ++ next ++ ofString ".0-dev+" ++ c.sha ++ dirty

/-- scripts/version.sh with its argument. -/
def versionSh (argument : Bytes) : Except Failure Bytes :=
  if argument = ofString "--last" then .ok c.last
  else if argument = ofString "--last-iteration" then .ok c.lastIteration
  else if argument = [] then c.version
  else .error .usage

end Checkout

@[ext]
structure Version where
  major : ℕ
  minor : ℕ
  patch : ℕ

namespace Version

def text (v : Version) : Bytes := decimal v.major ++ 0x2E :: (decimal v.minor ++ 0x2E :: decimal v.patch)

def tag (v : Version) : Bytes := 0x76 :: v.text

def key (v : Version) : ℕ ×ₗ ℕ ×ₗ ℕ := toLex (v.major, toLex (v.minor, v.patch))

theorem key_injective : Function.Injective key := by
  intro v w h
  simp only [key, toLex_inj, Prod.mk.injEq] at h
  exact Version.ext h.1 h.2.1 h.2.2

instance : LinearOrder Version := LinearOrder.lift' key key_injective

theorem le_iff {v w : Version} : v ≤ w ↔
    v.major < w.major ∨ v.major = w.major ∧ (v.minor < w.minor ∨ v.minor = w.minor ∧ v.patch ≤ w.patch) := by
  change v.key ≤ w.key ↔ _
  rw [key, key, Prod.Lex.toLex_le_toLex, Prod.Lex.toLex_le_toLex]

instance : OrderBot Version where
  bot := ⟨0, 0, 0⟩
  bot_le v := by
    rw [le_iff]
    dsimp only
    omega

theorem lt_iff {v w : Version} : v < w ↔
    v.major < w.major ∨ v.major = w.major ∧ (v.minor < w.minor ∨ v.minor = w.minor ∧ v.patch < w.patch) := by
  rw [lt_iff_not_ge, le_iff]
  omega

theorem text_splitOn (v : Version) :
    v.text.splitOn 0x2E = [decimal v.major, decimal v.minor, decimal v.patch] := by
  have hnot (n : ℕ) : ∀ x ∈ decimal n, (x == 0x2E) = false :=
    fun x hx ↦ beq_false_of_ne (ne_of_mem_decimal hx rfl)
  rw [text, List.splitOn, List.splitOnP_append_cons _ _ (by rfl), List.splitOnP_append_cons _ _ (by rfl),
    List.splitOnP_eq_singleton (hnot _), List.splitOnP_eq_singleton (hnot _),
      List.splitOnP_eq_singleton (hnot _)]
  rfl

theorem cutField_text (v : Version) :
    cutField 0 v.text = decimal v.major ∧ cutField 1 v.text = decimal v.minor := by
  unfold cutField
  rw [text_splitOn]
  exact ⟨rfl, rfl⟩

theorem cutSuffixes_text (v : Version) : cutSuffixes v.text = v.text := by
  have hlast : ¬ isSuffixPart (decimal v.patch) = true := by
    obtain ⟨c, cs, hcons, hc⟩ := exists_digit v.patch
    have hbound := isDigit_bound hc
    intro h
    simp only [hcons, isSuffixPart, Bool.and_eq_true, Bool.or_eq_true, decide_eq_true_eq,
      UInt8.le_iff_toNat_le, ← UInt8.toNat_inj, UInt8.reduceToNat] at h
    omega
  unfold cutSuffixes
  rw [text_splitOn]
  change List.intercalate [0x2E] (_ :: ([decimal v.minor] ++ [decimal v.patch]).rdropWhile isSuffixPart) = _
  rw [List.rdropWhile_concat_neg isSuffixPart _ _ hlast]
  simp [text, List.intercalate]

theorem verrevcmp_text (n : ℕ) (v w : Version) : verrevcmp (n + 5) v.text w.text =
    (compare v.major w.major).then
      ((compare v.minor w.minor).then ((compare v.patch w.patch).then (verrevcmp n [] []))) := by
  have hdot (bs : Bytes) : otherNext (0x2E :: bs) = true ∨ 0x2E :: bs = [] := Or.inl rfl
  have hpatch := verrevcmp_decimal (n := n) v.patch w.patch (Or.inr rfl) (Or.inr rfl)
  rw [List.append_nil, List.append_nil] at hpatch
  rw [text, text, verrevcmp_decimal _ _ (hdot _) (hdot _), verrevcmp_dot,
    verrevcmp_decimal _ _ (hdot _) (hdot _), verrevcmp_dot, hpatch]

theorem filevercmp_text (v w : Version) : filevercmp v.text w.text =
    (compare v.major w.major).then ((compare v.minor w.minor).then (compare v.patch w.patch)) := by
  have hlength (v : Version) : 5 ≤ v.text.length := by
    have hpos (n : ℕ) : 0 < (decimal n).length := List.length_pos_iff.mpr (canonical_decimal n).nonempty
    have hmajor := hpos v.major
    have hminor := hpos v.minor
    have hpatch := hpos v.patch
    simp only [text, List.length_append, List.length_cons]
    omega
  obtain ⟨n, hn⟩ : ∃ n, v.text.length + w.text.length = n + 5 :=
    ⟨v.text.length + w.text.length - 5, by have := hlength v; omega⟩
  have hnil : verrevcmp n [] [] = .eq := by cases n <;> rfl
  rw [filevercmp, cutSuffixes_text, cutSuffixes_text, hn, verrevcmp_text, hnil]
  cases compare v.major w.major <;> cases compare v.minor w.minor <;> cases compare v.patch w.patch <;> rfl

theorem lineLE_text (v w : Version) : lineLE filevercmp v.text w.text = true ↔ v ≤ w := by
  rw [lineLE, filevercmp_text, le_iff]
  rcases lt_trichotomy v.major w.major with h | h | h
  · simp [compare_lt_iff_lt.mpr h, h]
  · rw [compare_eq_iff_eq.mpr h]
    rcases lt_trichotomy v.minor w.minor with h' | h' | h'
    · simp [compare_lt_iff_lt.mpr h', h, h']
    · rw [compare_eq_iff_eq.mpr h']
      rcases lt_trichotomy v.patch w.patch with h'' | h'' | h''
      · simp [compare_lt_iff_lt.mpr h'', h, h', h''.le]
      · have hvw : v = w := Version.ext h h' h''
        simp [hvw, compareLE_refl]
      · simp [compare_gt_iff_gt.mpr h'', h, h', h'']
    · simp [compare_gt_iff_gt.mpr h', h, h'.not_gt, h'.ne']
  · simp [compare_gt_iff_gt.mpr h, h.not_gt, h.ne']

theorem tag_matches (v : Version) : globMatch pattern v.tag = true := by
  have hstar {p : List Glob} {xs bs : Bytes} (h : globMatch p bs = true) :
      globMatch (.star :: p) (xs ++ bs) = true := by
    rw [globMatch, List.any_eq_true]
    exact ⟨bs, (List.mem_tails bs _).mpr (List.suffix_append xs bs), h⟩
  obtain ⟨x, xs, hmajor, hx⟩ := exists_digit v.major
  obtain ⟨y, ys, hminor, hy⟩ := exists_digit v.minor
  obtain ⟨z, zs, hpatch, hz⟩ := exists_digit v.patch
  have hlast : globMatch [.byte 0x2E, .digit, .star] (0x2E :: z :: zs) = true := by
    have hend : globMatch [.star] (zs ++ []) = true := hstar rfl
    rw [List.append_nil] at hend
    simp [globMatch, hz] at hend ⊢
  have hmiddle : globMatch [.byte 0x2E, .digit, .star, .byte 0x2E, .digit, .star]
      (0x2E :: y :: (ys ++ 0x2E :: z :: zs)) = true := by
    rw [globMatch, globMatch]
    simp only [hy, hstar hlast, decide_true, Bool.and_true]
  rw [tag, text, hmajor, hminor, hpatch, pattern, globMatch, List.cons_append, globMatch]
  simp only [hx, List.cons_append, hstar hmiddle, decide_true, Bool.and_true]

theorem tag_injective : Function.Injective tag := by
  intro v w h
  have htext : v.text = w.text := (List.cons_inj_right _).mp h
  have hsplit := congrArg (List.splitOn 0x2E) htext
  rw [text_splitOn, text_splitOn] at hsplit
  simp only [List.cons.injEq, decimal_injective.eq_iff, and_true] at hsplit
  exact Version.ext hsplit.1 hsplit.2.1 hsplit.2.2

end Version

/-- The release tags reachable from a commit are those of the versions. -/
structure Reachable (c : Checkout) (vs : Finset Version) : Prop where
  mem : ∀ v : Version, v.tag ∈ c.merged ↔ v ∈ vs
  only : ∀ t ∈ c.merged, globMatch pattern t = true → ∃ v : Version, t = v.tag

def highest (vs : Finset Version) : Version := vs.sup id

def highestMinor (vs : Finset Version) : ℕ := vs.sup Version.minor

namespace Reachable

variable {c : Checkout} {vs : Finset Version}

theorem exists_list (h : Reachable c vs) :
    ∃ l : List Version, c.merged.filter (globMatch pattern) = l.map Version.tag ∧ l.toFinset = vs := by
  have hrange : c.merged.filter (globMatch pattern) ∈ Set.range (List.map Version.tag) := by
    rw [Set.range_list_map]
    intro t ht
    obtain ⟨ht, hmatch⟩ := List.mem_filter.mp ht
    obtain ⟨v, rfl⟩ := h.only t ht hmatch
    exact ⟨v, rfl⟩
  obtain ⟨l, hl⟩ := hrange
  refine ⟨l, hl.symm, ?_⟩
  ext v
  rw [List.mem_toFinset, ← h.mem, ← List.mem_map_of_injective Version.tag_injective, hl, List.mem_filter]
  exact and_iff_left v.tag_matches

/-- The release tags without their letter, from the lowest version to the highest. -/
theorem releases_map (l : List Version) (h : c.merged.filter (globMatch pattern) = l.map Version.tag) :
    releases c.merged = (l.insertionSort (· ≤ ·)).map Version.text := by
  rw [releases, h, List.map_map, sortVersions,
    List.map_insertionSort (· ≤ ·) (fun a b ↦ lineLE filevercmp a b = true)]
  · rfl
  · intro v _ w _
    exact (Version.lineLE_text v w).symm

theorem last (h : Reachable c vs) : c.last = (highest vs).text := by
  obtain ⟨l, hl, rfl⟩ := h.exists_list
  have hne (v : Version) : v.text ≠ [] := by simp [Version.text]
  rw [highest, ← getLast_insertionSort, Checkout.last, releases_map l hl, tail, List.getLast?_map]
  cases (l.insertionSort (· ≤ ·)).getLast? with
  | none => rfl
  | some v => exact if_neg (hne v)

theorem lastIteration (h : Reachable c vs) : c.lastIteration = decimal (highestMinor vs) := by
  obtain ⟨l, hl, rfl⟩ := h.exists_list
  have hline (m n : ℕ) : m ≤ n ↔
      lineLE (fun a b ↦ compare (leadingNumber a) (leadingNumber b)) (decimal m) (decimal n) = true := by
    rw [lineLE, leadingNumber_decimal, leadingNumber_decimal]
    rcases lt_trichotomy m n with hlt | rfl | hlt
    · simp [compare_lt_iff_lt.mpr (Int.ofNat_lt.mpr hlt), hlt.le]
    · simp [compareLE_refl]
    · simp [compare_gt_iff_gt.mpr (Int.ofNat_lt.mpr hlt), hlt]
  have hcut : ((l.insertionSort (· ≤ ·)).map Version.text).map (cutField 1) =
      ((l.insertionSort (· ≤ ·)).map Version.minor).map decimal := by
    rw [List.map_map, List.map_map]
    exact List.map_congr_left (fun v _ ↦ v.cutField_text.2)
  have hsup : highestMinor l.toFinset = ((l.insertionSort (· ≤ ·)).map Version.minor).toFinset.sup id := by
    have himage : ((l.insertionSort (· ≤ ·)).map Version.minor).toFinset =
        l.toFinset.image Version.minor := by
      ext n
      simp
    rw [himage, Finset.sup_image]
    rfl
  rw [hsup, ← getLast_insertionSort, Checkout.lastIteration, releases_map l hl, hcut, sortNumbers,
    ← List.map_insertionSort (· ≤ ·) _ _ _ (fun m _ n _ ↦ hline m n), tail, List.getLast?_map]
  cases (((l.insertionSort (· ≤ ·)).map Version.minor).insertionSort (· ≤ ·)).getLast? with
  | none => rfl
  | some n => exact if_neg (canonical_decimal n).nonempty

end Reachable

end OtlpCollectorOidc.Release

import OtlpCollectorOidc.Release.Version

namespace OtlpCollectorOidc.Release

open Text Strconv Shell

/-- The name of a pull request's branch, empty where there is none. git keeps control characters out of it. -/
structure Branch where
  name : String
  printable : ∀ c ∈ ofString name, 0x20 ≤ c

structure Env where
  image : Bytes
  ref : Bytes
  branch : Branch

structure Plan where
  version : Bytes
  tag : Bytes
  tags : Bytes
  deriving DecidableEq

/-- The digits `sed` takes from a branch that names an iteration. -/
def iterationOf (branch : Bytes) : Bytes :=
  match (ofString "feat/iteration-").isPrefixOf? branch with
  | none => []
  | some rest =>
    let (digits, after) := rest.span isDigit
    if digits ≠ [] && after.head? = some 0x2D then digits else []

def stable (version : Bytes) : Bool := !((ofString "0.").isPrefixOf version || version.contains 0x2D)

def fail {α : Type} (text : Bytes) : Except Failure α := .error (.message (ofString "release-plan: " ++ text))

def withLatest (image version tags : Bytes) : Bytes :=
  if stable version then tags ++ ofString "," ++ image ++ ofString ":latest" else tags

def Checkout.iterationPlan (c : Checkout) (image iteration : Bytes) : Except Failure Plan := do
  let last ← c.versionSh "--last"
  let major := last.takeWhile (· ≠ 0x2E)
  let lastIteration ← c.versionSh "--last-iteration"
  let next ← increment lastIteration
  let version := major ++ ofString "." ++ iteration ++ ofString ".0"
  let tag := ofString "v" ++ version
  let existing := (c.commitOf tag).getD []
  let tags := withLatest image version (image ++ ofString ":edge," ++ image ++ ofString ":" ++ version)
  if existing ≠ [] then
    -- A rerun of a release that already tagged this commit.
    if existing = c.head then return ⟨version, [], tags⟩
    else fail (tag ++ ofString " already tags another commit")
  else if testNe iteration next = some true then
    fail (ofString "branch says iteration " ++ iteration ++ ofString ", but the next iteration is " ++ next ++
      ofString " (last release " ++ last ++ ofString ")")
  else return ⟨version, tag, tags⟩

/-- scripts/release-plan.sh. -/
def releasePlan (c : Checkout) (env : Env) : Except Failure Plan :=
  if env.image = [] then .error (.unset "IMAGE")
  else if env.ref = [] then .error (.unset "REF")
  else if env.ref = ofString "main" then
    let iteration := iterationOf (ofString env.branch.name)
    if iteration = [] then do
      let version ← c.versionSh []
      return ⟨version, [], env.image ++ ofString ":edge"⟩
    else c.iterationPlan env.image iteration
  else if env.ref.head? = some 0x76 then do
    let version ← c.versionSh []
    if ofString "v" ++ version = env.ref then
      return ⟨version, [], withLatest env.image version (env.image ++ ofString ":" ++ version)⟩
    else fail (ofString "tag " ++ env.ref ++ ofString " does not match the checked-out version " ++ version)
  else fail (ofString "not a release ref: " ++ env.ref)

def nextVersion (vs : Finset Version) : Version := ⟨(highest vs).major, highestMinor vs + 1, 0⟩

/-- A later commit, not tagged itself, from which the new tag is reachable too. -/
structure Later (c : Checkout) (tag : Bytes) (later : Checkout) : Prop where
  merged : ∀ t, t ∈ later.merged ↔ t ∈ c.merged ∨ t = tag
  untagged : later.pointsAt = []

def Checkout.devVersion (c : Checkout) (v : Version) : Bytes :=
  v.text ++ ofString "-dev+" ++ c.sha ++ (if c.dirty then ofString ".dirty" else [])

/-- The scripts succeed on a commit, and take `v` for the version an iteration releases next. -/
structure Expects (c : Checkout) (v : Version) : Prop where
  version : c.versionSh [] = .ok (c.devVersion v)
  edge : ∀ env : Env, env.image ≠ [] → env.ref = ofString "main" →
    iterationOf (ofString env.branch.name) = [] →
      releasePlan c env = .ok ⟨c.devVersion v, [], env.image ++ ofString ":edge"⟩
  taken : ∀ env : Env, env.image ≠ [] → env.ref = ofString "main" →
    iterationOf (ofString env.branch.name) = decimal v.minor → c.commitOf v.tag = none →
    ∃ tags, releasePlan c env = .ok ⟨v.text, v.tag, tags⟩
  refused : ∀ (env : Env) (n : ℕ), env.image ≠ [] → env.ref = ofString "main" →
    iterationOf (ofString env.branch.name) = decimal n → n < 2 ^ 63 → n ≠ v.minor →
    c.commitOf (Version.tag ⟨v.major, n, 0⟩) = none →
    releasePlan c env = fail (ofString "branch says iteration " ++ decimal n ++
      ofString ", but the next iteration is " ++ decimal v.minor ++ ofString " (last release " ++
        c.last ++ ofString ")")

/-- A tag is that of the next version, above every release, and the number after it is expected once it
is added. -/
structure Releases (c : Checkout) (vs : Finset Version) (tag : Bytes) : Prop where
  next : tag = (nextVersion vs).tag
  higher : ∀ v ∈ vs, v < nextVersion vs
  expected : ∀ later, Later c tag later → Expects later ⟨(highest vs).major, highestMinor vs + 2, 0⟩

/-- A branch whose iteration is a number as it is printed, with one more still in 64 bits. -/
def Numbered (branch : Branch) : Prop :=
  ∃ n rest, n < 2 ^ 63 - 1 ∧ ofString branch.name = ofString "feat/iteration-" ++ decimal n ++ 0x2D :: rest

section Reading

theorem iterationOf_decimal (n : ℕ) (rest : Bytes) :
    iterationOf (ofString "feat/iteration-" ++ decimal n ++ 0x2D :: rest) = decimal n := by
  have hstrip : (ofString "feat/iteration-").isPrefixOf? (ofString "feat/iteration-" ++
    decimal n ++ 0x2D :: rest) =
      some (decimal n ++ 0x2D :: rest) := by
    rw [List.isPrefixOf?_eq_some_iff_append_eq, List.append_assoc]
  obtain ⟨htake, hdrop⟩ := span_decimal n (a := 0x2D :: rest) (Or.inl rfl)
  rw [iterationOf, hstrip]
  dsimp only
  rw [List.span_eq_takeWhile_dropWhile, htake, hdrop]
  exact if_pos (by simp [(canonical_decimal n).nonempty])

theorem eq_of_iterationOf {branch : Bytes} (h : iterationOf branch ≠ []) :
    ∃ rest, branch = ofString "feat/iteration-" ++ iterationOf branch ++ 0x2D :: rest := by
  unfold iterationOf at h ⊢
  split at h
  · exact absurd rfl h
  · rename_i rest hrest
    rw [List.isPrefixOf?_eq_some_iff_append_eq] at hrest
    dsimp only at h ⊢
    rw [List.span_eq_takeWhile_dropWhile] at h ⊢
    dsimp only at h ⊢
    split_ifs at h ⊢ with hdigits
    · simp only [Bool.and_eq_true, decide_eq_true_eq] at hdigits
      obtain ⟨after, hafter⟩ := List.head?_eq_some_iff.mp hdigits.2
      refine ⟨after, ?_⟩
      rw [← hafter, List.append_assoc, List.takeWhile_append_dropWhile, hrest]
    · exact absurd rfl h

theorem numbered_iff {branch : Branch} :
    Numbered branch ↔ ∃ n < 2 ^ 63 - 1, iterationOf (ofString branch.name) = decimal n := by
  constructor
  · rintro ⟨n, rest, hn, hname⟩
    exact ⟨n, hn, by rw [hname, iterationOf_decimal]⟩
  · rintro ⟨n, hn, hiteration⟩
    have hne : iterationOf (ofString branch.name) ≠ [] := by
      rw [hiteration]
      exact (canonical_decimal n).nonempty
    obtain ⟨rest, hrest⟩ := eq_of_iterationOf hne
    rw [hiteration] at hrest
    exact ⟨n, rest, hn, hrest⟩

end Reading

theorem Version.takeWhile_text (v : Version) : v.text.takeWhile (· ≠ 0x2E) = decimal v.major := by
  have hnot : ∀ x ∈ decimal v.major, decide (x ≠ 0x2E) = true :=
    fun x hx ↦ decide_eq_true (ne_of_mem_decimal hx rfl)
  rw [Version.text, List.takeWhile_append_of_pos hnot]
  simp

def versionText (vs : Finset Version) (iteration : Bytes) : Bytes :=
  decimal (highest vs).major ++ ofString "." ++ iteration ++ ofString ".0"

theorem versionText_decimal (vs : Finset Version) (n : ℕ) :
    versionText vs (decimal n) = Version.text ⟨(highest vs).major, n, 0⟩ := by
  simp [versionText, Version.text]
  rfl

theorem versionText_injective (vs : Finset Version) : Function.Injective (versionText vs) := by
  intro a b h
  exact List.append_cancel_left (List.append_cancel_right h)

namespace Reachable

variable {c : Checkout} {vs : Finset Version}

theorem iterationPlan (h : Reachable c vs) {z : ℤ} (hz : addOne (decimal (highestMinor vs)) = some z)
    (image iteration : Bytes) : c.iterationPlan image iteration =
      let version := versionText vs iteration
      let existing := (c.commitOf (0x76 :: version)).getD []
      let tags := withLatest image version (image ++ ofString ":edge," ++ image ++ ofString ":" ++ version)
      if existing ≠ [] then
        if existing = c.head then .ok ⟨version, [], tags⟩
        else fail (0x76 :: version ++ ofString " already tags another commit")
      else if testNe iteration (formatInt z) = some true then
        fail (ofString "branch says iteration " ++ iteration ++ ofString ", but the next iteration is " ++
          formatInt z ++ ofString " (last release " ++ c.last ++ ofString ")")
      else .ok ⟨version, 0x76 :: version, tags⟩ := by
  have hlast : c.versionSh "--last" = .ok c.last := rfl
  have hiteration : c.versionSh "--last-iteration" = .ok (decimal (highestMinor vs)) := by
    rw [← h.lastIteration]
    rfl
  have hnext : increment (decimal (highestMinor vs)) = .ok (formatInt z) := by rw [increment, hz]
  have hmajor : c.last.takeWhile (· ≠ 0x2E) = decimal (highest vs).major := by
    rw [h.last, Version.takeWhile_text]
  unfold Checkout.iterationPlan
  rw [hlast, hiteration]
  change (increment (decimal (highestMinor vs))).bind _ = _
  rw [hnext]
  change (let version := c.last.takeWhile (· ≠ 0x2E) ++ ofString "." ++ iteration ++ ofString ".0"; _) = _
  rw [hmajor]
  rfl

theorem version (h : Reachable c vs) {z : ℤ} (hz : addOne (decimal (highestMinor vs)) = some z)
    (huntagged : c.pointsAt = []) :
    c.versionSh [] = .ok (versionText vs (formatInt z) ++ ofString "-dev+" ++ c.sha ++
      (if c.dirty then ofString ".dirty" else [])) := by
  have hexact : (if c.dirty then [] else tail (releases c.pointsAt)) = [] := by
    rw [huntagged]
    exact ite_self _
  have hmajor : cutField 0 c.last = decimal (highest vs).major := by rw [h.last, (highest vs).cutField_text.1]
  have hnext : increment c.lastIteration = .ok (formatInt z) := by rw [h.lastIteration, increment, hz]
  change c.version = _
  unfold Checkout.version
  rw [hexact, hmajor, hnext]
  change Except.ok (decimal (highest vs).major ++ ofString "." ++ formatInt z ++
    ofString ".0-dev+" ++ c.sha ++ _) = _
  have hsplit : ofString ".0-dev+" = ofString ".0" ++ ofString "-dev+" := rfl
  rw [hsplit, versionText]
  simp only [List.append_assoc]

end Reachable

theorem releasePlan_main {c : Checkout} {env : Env} (himage : env.image ≠ [])
    (href : env.ref = ofString "main") :
    releasePlan c env = if iterationOf (ofString env.branch.name) = [] then
      (c.versionSh []).map (fun version ↦ ⟨version, [], env.image ++ ofString ":edge"⟩)
      else c.iterationPlan env.image (iterationOf (ofString env.branch.name)) := by
  have hmain : env.ref ≠ [] := by
    rw [href]
    decide
  rw [releasePlan, if_neg himage, if_neg hmain, if_pos href]
  rfl

theorem releasePlan_iteration {c : Checkout} {env : Env} (himage : env.image ≠ [])
    (href : env.ref = ofString "main") (h : iterationOf (ofString env.branch.name) ≠ []) :
    releasePlan c env = c.iterationPlan env.image (iterationOf (ofString env.branch.name)) := by
  rw [releasePlan_main himage href, if_neg h]

theorem releasePlan_edge {c : Checkout} {env : Env} (himage : env.image ≠ [])
    (href : env.ref = ofString "main") (h : iterationOf (ofString env.branch.name) = []) :
    releasePlan c env = (c.versionSh []).map
      (fun version ↦ ⟨version, [], env.image ++ ofString ":edge"⟩) := by
  rw [releasePlan_main himage href, if_pos h]

theorem testNe_decimal {m n : ℕ} (hm : m < 2 ^ 63) (hn : n < 2 ^ 63) :
    testNe (decimal m) (decimal n) = some (decide (m ≠ n)) := by
  rw [testNe, parseInt_decimal, parseInt_decimal, if_pos hm, if_pos hn]
  change some (decide ((m : ℤ) ≠ n)) = _
  simp

/-- As long as the next number is one of 64 bits, the scripts succeed and expect it. -/
theorem Reachable.expects {c : Checkout} {vs : Finset Version} (h : Reachable c vs)
    (huntagged : c.pointsAt = []) (hsmall : highestMinor vs < 2 ^ 63 - 1) : Expects c (nextVersion vs) := by
  have hz := addOne_decimal_of_lt hsmall
  have hformat : formatInt ((highestMinor vs + 1 : ℕ) : ℤ) = decimal (highestMinor vs + 1) := rfl
  have hversion : c.versionSh [] = .ok (c.devVersion (nextVersion vs)) := by
    rw [h.version hz huntagged, hformat, versionText_decimal]
    rfl
  have hplan (env : Env) {n : ℕ} (himage : env.image ≠ []) (href : env.ref = ofString "main")
      (hiteration : iterationOf (ofString env.branch.name) = decimal n) :
      releasePlan c env = c.iterationPlan env.image (decimal n) := by
    rw [releasePlan_iteration himage href (by rw [hiteration]; exact (canonical_decimal n).nonempty),
      hiteration]
  refine ⟨hversion, ?_, ?_, ?_⟩
  · intro env himage href hnone
    rw [releasePlan_edge himage href hnone, hversion]
    rfl
  · intro env himage href hiteration hfree
    have hiteration : iterationOf (ofString env.branch.name) = decimal (highestMinor vs + 1) := hiteration
    have hfree : c.commitOf (0x76 :: Version.text ⟨(highest vs).major, highestMinor vs + 1, 0⟩) = none :=
      hfree
    have hsame : testNe (decimal (highestMinor vs + 1)) (decimal (highestMinor vs + 1)) = some false := by
      rw [testNe_decimal (by omega) (by omega)]
      simp
    rw [hplan env himage href hiteration, h.iterationPlan hz, hformat]
    dsimp only
    rw [versionText_decimal, hfree, hsame]
    exact ⟨_, rfl⟩
  · intro env n himage href hiteration hn hne hfree
    have hfree : c.commitOf (0x76 :: Version.text ⟨(highest vs).major, n, 0⟩) = none := hfree
    have hother : testNe (decimal n) (decimal (highestMinor vs + 1)) = some true := by
      rw [testNe_decimal hn (by omega)]
      exact congrArg some (decide_eq_true hne)
    rw [hplan env himage href hiteration, h.iterationPlan hz, hformat]
    dsimp only
    rw [versionText_decimal, hfree, hother]
    rfl

theorem lt_nextVersion {vs : Finset Version} {v : Version} (hv : v ∈ vs) : v < nextVersion vs := by
  have hle : v ≤ highest vs := Finset.le_sup (f := id) hv
  have hminor : v.minor ≤ highestMinor vs := Finset.le_sup hv
  rw [Version.le_iff] at hle
  rw [Version.lt_iff]
  dsimp only [nextVersion]
  omega

/-- Releasing the next version makes it the highest, with the highest minor. -/
theorem nextVersion_insert (vs : Finset Version) :
    highest (insert (nextVersion vs) vs) = nextVersion vs ∧
      highestMinor (insert (nextVersion vs) vs) = highestMinor vs + 1 := by
  constructor
  · rw [highest, Finset.sup_insert, id_eq, sup_eq_left]
    exact Finset.sup_le (fun v hv ↦ (lt_nextVersion hv).le)
  · rw [highestMinor, Finset.sup_insert]
    exact sup_eq_left.mpr (Nat.le_succ _)

theorem Reachable.later {c later : Checkout} {vs : Finset Version} {v : Version} (h : Reachable c vs)
    (hlater : Later c v.tag later) : Reachable later (insert v vs) := by
  constructor
  · intro w
    rw [hlater.merged, h.mem, Version.tag_injective.eq_iff, Finset.mem_insert, or_comm]
  · intro t ht hmatch
    rcases (hlater.merged t).mp ht with ht | rfl
    · exact h.only t ht hmatch
    · exact ⟨v, rfl⟩

/-- What it takes for a run to create a tag: the branch's number is the next one, or no number of 64 bits. -/
theorem Reachable.created {c : Checkout} {vs : Finset Version} (h : Reachable c vs) {env : Env}
    (href : env.ref = ofString "main") {plan : Plan} (hplan : releasePlan c env = .ok plan)
    (htag : plan.tag ≠ []) {z : ℤ} (hz : addOne (decimal (highestMinor vs)) = some z) :
    plan.tag = 0x76 :: versionText vs (iterationOf (ofString env.branch.name)) ∧
      testNe (iterationOf (ofString env.branch.name)) (formatInt z) ≠ some true := by
  have himage : env.image ≠ [] := by
    intro himage
    rw [releasePlan, if_pos himage] at hplan
    cases hplan
  by_cases hnone : iterationOf (ofString env.branch.name) = []
  · rw [releasePlan_edge himage href hnone] at hplan
    cases hversion : c.versionSh [] with
    | error e =>
      rw [hversion] at hplan
      cases hplan
    | ok version =>
      rw [hversion] at hplan
      cases hplan
      exact absurd rfl htag
  · rw [releasePlan_iteration himage href hnone, h.iterationPlan hz] at hplan
    dsimp only at hplan
    split_ifs at hplan with hexisting hhead hne
    · cases hplan
      exact absurd rfl htag
    · cases hplan
    · cases hplan
    · cases hplan
      exact ⟨rfl, hne⟩

theorem nextVersion_after (vs : Finset Version) :
    nextVersion (insert (nextVersion vs) vs) = ⟨(highest vs).major, highestMinor vs + 2, 0⟩ := by
  obtain ⟨hhighest, hminor⟩ := nextVersion_insert vs
  rw [nextVersion, hhighest, hminor]
  rfl

/-- A branch whose number is the last of 64 bits but one, or less, creates only the next version's tag. -/
theorem Reachable.eq_next {c : Checkout} {vs : Finset Version} (h : Reachable c vs) {env : Env}
    (href : env.ref = ofString "main") {plan : Plan} (hplan : releasePlan c env = .ok plan)
    (htag : plan.tag ≠ []) {n : ℕ} (hn : n < 2 ^ 63 - 1)
    (hiteration : iterationOf (ofString env.branch.name) = decimal n) :
    n = highestMinor vs + 1 ∧ plan.tag = (nextVersion vs).tag := by
  obtain hsmall | hlarge := Nat.lt_or_ge (highestMinor vs) (2 ^ 63 - 1)
  · obtain ⟨htext, hne⟩ := h.created href hplan htag (addOne_decimal_of_lt hsmall)
    have hformat : formatInt ((highestMinor vs + 1 : ℕ) : ℤ) = decimal (highestMinor vs + 1) := rfl
    rw [hiteration, hformat, testNe_decimal (by omega) (by omega)] at hne
    have hnext : n = highestMinor vs + 1 := by simpa using hne
    rw [htext, hiteration, hnext, versionText_decimal]
    exact ⟨rfl, rfl⟩
  · obtain ⟨_, hne⟩ := h.created href hplan htag (addOne_decimal_of_ge hlarge)
    have hleast : parseInt 64 (formatInt (-2 ^ 63)) = some (-2 ^ 63) := by decide +kernel
    rw [hiteration, testNe, parseInt_decimal, if_pos (by omega), hleast] at hne
    exact absurd (congrArg some (decide_eq_true (show (n : ℤ) ≠ -2 ^ 63 by omega))) hne

/-- With the last number of 64 bits released, a later run does not expect the one after it. -/
theorem Reachable.not_expects {c : Checkout} {vs : Finset Version} (h : Reachable c vs)
    (huntagged : c.pointsAt = []) (hlarge : 2 ^ 63 - 1 ≤ highestMinor vs) : ¬ Expects c (nextVersion vs) := by
  intro hexpects
  have hversion := hexpects.version
  rw [h.version (addOne_decimal_of_ge hlarge) huntagged] at hversion
  have htext : versionText vs (formatInt (-2 ^ 63)) = versionText vs (decimal (highestMinor vs + 1)) := by
    rw [versionText_decimal]
    have happend := Except.ok.inj hversion
    rw [Checkout.devVersion] at happend
    exact List.append_cancel_right (List.append_cancel_right (List.append_cancel_right happend))
  have hleast := eq_of_formatInt_eq_decimal (versionText_injective vs htext)
  omega

/-- The tag an iteration's merge creates is that of the next version, and the number after it is
expected next, exactly when the branch has its number as it is printed and one more is still a number of
64 bits. -/
theorem iteration_release_iff {c : Checkout} {vs : Finset Version} (hreach : Reachable c vs) {env : Env}
    (href : env.ref = ofString "main") {plan : Plan} (hplan : releasePlan c env = .ok plan)
    (htag : plan.tag ≠ []) :
    Releases c vs plan.tag ↔ Numbered env.branch := by
  rw [numbered_iff]
  obtain ⟨hhighest, hminor⟩ := nextVersion_insert vs
  constructor
  · intro h
    have hiteration : iterationOf (ofString env.branch.name) = decimal (highestMinor vs + 1) := by
      obtain ⟨z, hz⟩ : ∃ z, addOne (decimal (highestMinor vs)) = some z := by
        obtain hsmall | hlarge := Nat.lt_or_ge (highestMinor vs) (2 ^ 63 - 1)
        · exact ⟨_, addOne_decimal_of_lt hsmall⟩
        · exact ⟨_, addOne_decimal_of_ge hlarge⟩
      have htext := (hreach.created href hplan htag hz).1
      rw [h.next, Version.tag, List.cons_inj_right, nextVersion, ← versionText_decimal] at htext
      exact (versionText_injective vs htext).symm
    refine ⟨highestMinor vs + 1, ?_, hiteration⟩
    -- Were it larger, the run on a later commit would expect another number.
    by_contra hlarge
    let later : Checkout := { c with merged := plan.tag :: c.merged, pointsAt := [] }
    have hlater : Later c plan.tag later := ⟨fun t ↦ List.mem_cons.trans or_comm, rfl⟩
    have hexpects := h.expected later hlater
    rw [← nextVersion_after] at hexpects
    rw [h.next] at hlater
    exact (hreach.later hlater).not_expects rfl (by omega) hexpects
  · rintro ⟨n, hn, hiteration⟩
    obtain ⟨hnext, htext⟩ := hreach.eq_next href hplan htag hn hiteration
    refine ⟨htext, fun v ↦ lt_nextVersion, ?_⟩
    intro later hlater
    rw [htext] at hlater
    rw [← nextVersion_after]
    exact (hreach.later hlater).expects hlater.untagged (by omega)

/-- A clean commit after the tags, none of them taken elsewhere. -/
def mergeCommit (tags : List Bytes) : Checkout where
  merged := tags
  pointsAt := []
  commitOf := fun _ ↦ none
  head := "c0ffee"
  sha := "c0ffee"
  dirty := false

def mergeOf (name : String) (h : (ofString name).all (0x20 ≤ ·) = true) : Env where
  image := "img"
  ref := "main"
  branch := ⟨name, fun c hc ↦ of_decide_eq_true (List.all_eq_true.mp h c hc)⟩

theorem reachable_mergeCommit (v : Version) : Reachable (mergeCommit [v.tag]) {v} := by
  constructor
  · intro w
    rw [mergeCommit, List.mem_singleton, Version.tag_injective.eq_iff, Finset.mem_singleton]
  · intro t ht _
    exact ⟨v, List.mem_singleton.mp ht⟩

theorem second_iteration_released : Releases (mergeCommit ["v0.1.0"]) {⟨0, 1, 0⟩} "v0.2.0" := by
  have hplan : releasePlan (mergeCommit ["v0.1.0"]) (mergeOf "feat/iteration-2-auth" (by decide)) =
      .ok ⟨"0.2.0", "v0.2.0", "img:edge,img:0.2.0"⟩ := by decide +kernel
  exact (iteration_release_iff (reachable_mergeCommit ⟨0, 1, 0⟩) rfl hplan (by decide)).mpr
    ⟨2, "auth", by decide, by decide +kernel⟩

/-- A leading zero stays in the tag and stops every later run; a number above 64 bits is not compared at
all. -/
theorem unnumbered_iterations_released :
    (releasePlan (mergeCommit ["v0.7.0"]) (mergeOf "feat/iteration-08-x" (by decide)) =
        .ok ⟨"0.08.0", "v0.08.0", "img:edge,img:0.08.0"⟩ ∧
      (mergeCommit ["v0.7.0", "v0.08.0"]).versionSh [] = .error (.arithmetic "08 + 1") ∧
      releasePlan (mergeCommit ["v0.7.0", "v0.08.0"]) (mergeOf "feat/iteration-9-y" (by decide)) =
        .error (.arithmetic "08 + 1")) ∧
    releasePlan (mergeCommit ["v0.7.0"]) (mergeOf "feat/iteration-9223372036854775808-x" (by decide)) =
      .ok ⟨"0.9223372036854775808.0", "v0.9223372036854775808.0", "img:edge,img:0.9223372036854775808.0"⟩ :=
  ⟨⟨by decide +kernel, by decide +kernel, by decide +kernel⟩, by decide +kernel⟩

end OtlpCollectorOidc.Release

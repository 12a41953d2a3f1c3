import Mathlib.Logic.Function.Basic
import OtlpCollectorOidc.Lib.Transition
import OtlpCollectorOidc.Release.Plan

namespace OtlpCollectorOidc.Release

open Text Strconv Shell Transition

/-- A run of the release workflow past its plan. -/
structure Job where
  commit : ℕ
  plan : Plan
  tagged : Bool

/-- The commits of main, each with the branch it was merged from, the tags and the commits they name,
the runs under way, at most one for each ref, and the commits images were published of. -/
structure Repository where
  commits : List Branch
  tags : List (Bytes × ℕ)
  jobs : Bytes → Option Job
  published : List (ℕ × Plan)

structure Naming where
  hash : ℕ → Bytes
  injective : Function.Injective hash
  nonempty : ∀ i, hash i ≠ []

/-- A branch is merged, a tag is pushed by hand, or the release workflow goes on: it plans a commit CI
passed, pushes the tag of the iteration, publishes the image, or ends before that. -/
inductive Event where
  | merge (branch : Branch)
  | push (tag : Bytes) (i : ℕ)
  | plan (ref : Bytes) (i : ℕ)
  | tagIteration (ref : Bytes)
  | publish (ref : Bytes)
  | stop (ref : Bytes)

def noBranch : Branch := ⟨"", by simp [ofString]⟩

namespace Repository

variable (git : Naming) (image : Bytes) (r : Repository)

def tagged (tag : Bytes) : Prop := tag ∈ r.tags.map Prod.fst

instance (tag : Bytes) : Decidable (r.tagged tag) := inferInstanceAs (Decidable (_ ∈ _))

/-- What git says of a commit checked out with the whole history. -/
def checkout (i : ℕ) : Checkout where
  merged := (r.tags.filter (fun t ↦ t.2 ≤ i)).map Prod.fst
  pointsAt := (r.tags.filter (fun t ↦ t.2 = i)).map Prod.fst
  commitOf tag := (r.tags.find? (fun t ↦ t.1 = tag)).map (fun t ↦ git.hash t.2)
  head := git.hash i
  sha := (git.hash i).take 12
  dirty := false

/-- The branch of the pull request a run asks for, where CI ran on the ref at the commit. -/
def branchOf (ref : Bytes) (i : ℕ) : Option Branch :=
  if ref = ofString "main" then r.commits[i]?
  else if ref.head? = some 0x76 ∧ (ref, i) ∈ r.tags then some noBranch
  else none

def setJob (ref : Bytes) (job : Option Job) : Repository := { r with jobs := Function.update r.jobs ref job }

/-- The steps of .github/workflows/release.yml: a run works on the tags it fetched, and git takes no
second tag of a name. -/
def step (r : Repository) : Event → Option Repository
  | .merge branch => some { r with commits := r.commits ++ [branch] }
  | .push tag i =>
    if i < r.commits.length ∧ ¬ r.tagged tag then some { r with tags := (tag, i) :: r.tags } else none
  | .plan ref i =>
    if r.jobs ref = none then (r.branchOf ref i).map (fun branch ↦
      match releasePlan (r.checkout git i) ⟨image, ref, branch⟩ with
      | .error _ => r
      | .ok plan => r.setJob ref (some ⟨i, plan, false⟩))
    else none
  | .tagIteration ref => (r.jobs ref).bind (fun job ↦
      if job.plan.tag = [] ∨ job.tagged = true then none
      else if r.tagged job.plan.tag then some (r.setJob ref none)
      else some ({ r with tags := (job.plan.tag, job.commit) :: r.tags }.setJob ref
        (some { job with tagged := true })))
  | .publish ref => (r.jobs ref).bind (fun job ↦
      if job.plan.tag = [] ∨ job.tagged = true then
        some ({ r with published := (job.commit, job.plan) :: r.published }.setJob ref none)
      else none)
  | .stop ref => (r.jobs ref).map (fun _ ↦ r.setJob ref none)

theorem jobs_setJob (ref ref' : Bytes) (job : Option Job) :
    (r.setJob ref job).jobs ref' = if ref' = ref then job else r.jobs ref' := Function.update_apply _ _ _ _

end Repository

def emptyRepository : Repository := ⟨[], [], fun _ ↦ none, []⟩

def imageName (image word : Bytes) : Bytes := image ++ ofString ":" ++ word

def Plan.names (p : Plan) : List Bytes := p.tags.splitOn 0x2C

def Job.owed (job : Job) : List (Bytes × ℕ) :=
  if job.plan.tag = [] ∨ job.tagged = true then [] else [(job.plan.tag, job.commit)]

/-- Every name of a plan's image but `edge` is the version's or `latest`, and the version's tag is on
the commit. -/
def Backed (image : Bytes) (tags : List (Bytes × ℕ)) (i : ℕ) (p : Plan) : Prop :=
  ∀ name ∈ p.names, name = imageName image (ofString "edge") ∨
    (name = imageName image (ofString "latest") ∧ stable p.version = true ∨
      name = imageName image p.version) ∧ (0x76 :: p.version, i) ∈ tags

theorem Backed.mono {image : Bytes} {tags tags' : List (Bytes × ℕ)} {i : ℕ} {p : Plan}
    (h : Backed image tags i p) (hsub : tags ⊆ tags') : Backed image tags' i p :=
  fun name hname ↦ (h name hname).imp_right (And.imp_right (fun hmem ↦ hsub hmem))

section Names

variable {image : Bytes}

def releaseWords (version : Bytes) : List Bytes :=
  version :: if stable version = true then [ofString "latest"] else []

theorem withLatest_eq (version : Bytes) : withLatest image version (image ++ ofString ":" ++ version) =
    [0x2C].intercalate ((releaseWords version).map (imageName image)) := by
  have hcomma : ofString "," = [0x2C] := rfl
  have hlatest : ofString ":latest" = ofString ":" ++ ofString "latest" := rfl
  rw [withLatest, releaseWords]
  split_ifs <;> simp [imageName, hcomma, hlatest]

theorem withLatest_edge_eq (version : Bytes) :
    withLatest image version (image ++ ofString ":edge," ++ image ++ ofString ":" ++ version) =
      [0x2C].intercalate ((ofString "edge" :: releaseWords version).map (imageName image)) := by
  have hcomma : ofString "," = [0x2C] := rfl
  have hlatest : ofString ":latest" = ofString ":" ++ ofString "latest" := rfl
  have hedge : ofString ":edge," = ofString ":" ++ ofString "edge" ++ [0x2C] := rfl
  rw [withLatest, releaseWords]
  split_ifs <;> simp [imageName, hcomma, hlatest, hedge]

theorem Plan.names_eq {p : Plan} {words : List Bytes} (himage : 0x2C ∉ image) (hne : words ≠ [])
    (hwords : ∀ w ∈ words, 0x2C ∉ w) (h : p.tags = [0x2C].intercalate (words.map (imageName image))) :
    p.names = words.map (imageName image) := by
  have hcolon : (0x2C : UInt8) ∉ ofString ":" := by decide
  rw [Plan.names, h, List.splitOn_intercalate]
  · intro name hname
    obtain ⟨w, hw, rfl⟩ := List.mem_map.mp hname
    simp [imageName, himage, hwords w hw, hcolon]
  · simpa using hne

theorem backed_release {tags : List (Bytes × ℕ)} {i : ℕ} {p : Plan} {words : List Bytes}
    (himage : 0x2C ∉ image) (hversion : 0x2C ∉ p.version)
    (hwords : words = releaseWords p.version ∨ words = ofString "edge" :: releaseWords p.version)
    (h : p.tags = [0x2C].intercalate (words.map (imageName image))) (htag : (0x76 :: p.version, i) ∈ tags) :
    Backed image tags i p := by
  have hword : ∀ w ∈ words, w = ofString "edge" ∨ w = ofString "latest" ∧ stable p.version = true ∨
      w = p.version := by
    intro w hw
    have hrelease : w ∈ releaseWords p.version → w = ofString "latest" ∧ stable p.version = true ∨
        w = p.version := by
      intro hw
      rw [releaseWords] at hw
      split_ifs at hw with hstable
      · simp only [List.mem_cons, List.not_mem_nil, or_false] at hw
        exact hw.symm.imp_left (fun h ↦ ⟨h, hstable⟩)
      · exact Or.inr (List.mem_singleton.mp hw)
    obtain rfl | rfl := hwords
    · exact Or.inr (hrelease hw)
    · exact (List.mem_cons.mp hw).imp_right hrelease
  have hcomma : ∀ w ∈ words, 0x2C ∉ w := by
    intro w hw
    obtain rfl | ⟨rfl, -⟩ | rfl := hword w hw
    · decide
    · decide
    · exact hversion
  have hne : words ≠ [] := by
    obtain rfl | rfl := hwords <;> simp [releaseWords]
  intro name hname
  rw [Plan.names_eq himage hne hcomma h] at hname
  obtain ⟨w, hw, rfl⟩ := List.mem_map.mp hname
  obtain rfl | hw := hword w hw
  · exact Or.inl rfl
  · refine Or.inr ⟨?_, htag⟩
    exact hw.imp (fun h ↦ ⟨congrArg (imageName image) h.1, h.2⟩) (congrArg (imageName image))

theorem backed_edge {tags : List (Bytes × ℕ)} {i : ℕ} {p : Plan} (himage : 0x2C ∉ image)
    (h : p.tags = image ++ ofString ":edge") : Backed image tags i p := by
  have hedge : ofString ":edge" = ofString ":" ++ ofString "edge" := rfl
  have hnames : p.names = [ofString "edge"].map (imageName image) := by
    refine Plan.names_eq himage (by simp) ?_ ?_
    · intro w hw
      rw [List.mem_singleton.mp hw]
      decide
    · simp [h, imageName, hedge]
  intro name hname
  rw [hnames] at hname
  exact Or.inl (List.mem_singleton.mp hname)

end Names

section Plans

theorem isDigit_of_mem_iterationOf {branch : Bytes} {c : UInt8} (hc : c ∈ iterationOf branch) :
    isDigit c = true := by
  unfold iterationOf at hc
  split at hc
  · cases hc
  · rw [List.span_eq_takeWhile_dropWhile] at hc
    dsimp only at hc
    split_ifs at hc
    · exact List.mem_takeWhile_imp hc
    · cases hc

theorem mem_releases {tags : List Bytes} {version : Bytes} (h : version ∈ releases tags) :
    ∃ tag ∈ tags, version = bareVersion tag := by
  rw [releases, sortVersions, List.mem_insertionSort] at h
  obtain ⟨tag, htag, rfl⟩ := List.mem_map.mp h
  exact ⟨tag, List.mem_of_mem_filter htag, rfl⟩

theorem bareVersion_subset (tag : Bytes) : bareVersion tag ⊆ tag := by
  unfold bareVersion
  split
  · exact List.subset_cons_self _ _
  · exact List.Subset.refl _

theorem Checkout.comma_notMem_last {c : Checkout} (h : ∀ tag ∈ c.merged, 0x2C ∉ tag) : 0x2C ∉ c.last := by
  rw [Checkout.last, orDefault]
  split_ifs with hnone
  · decide
  · cases hlast : (releases c.merged).getLast? with
    | none => exact absurd (by rw [tail, hlast]; rfl) hnone
    | some version =>
      obtain ⟨tag, htag, rfl⟩ := mem_releases (List.mem_of_getLast? hlast)
      rw [tail, hlast]
      exact fun hc ↦ h tag htag (bareVersion_subset tag hc)

/-- What an iteration's run plans: the tag is already on the commit, or is not taken. -/
theorem Checkout.iterationPlan_cases {c : Checkout} {image iteration : Bytes} {p : Plan}
    (h : c.iterationPlan image iteration = .ok p) :
    p.version = c.last.takeWhile (· ≠ 0x2E) ++ ofString "." ++ iteration ++ ofString ".0" ∧
      p.tags = withLatest image p.version (image ++ ofString ":edge," ++ image ++ ofString ":" ++ p.version) ∧
      (p.tag = [] ∧ (c.commitOf (0x76 :: p.version)).getD [] = c.head ∨
        p.tag = 0x76 :: p.version ∧ (c.commitOf (0x76 :: p.version)).getD [] = []) := by
  have hlast : c.versionSh "--last" = .ok c.last := rfl
  have hiteration : c.versionSh "--last-iteration" = .ok c.lastIteration := rfl
  have hv : ofString "v" = [0x76] := rfl
  unfold Checkout.iterationPlan at h
  rw [hlast, hiteration] at h
  change (increment c.lastIteration).bind _ = _ at h
  cases hnext : increment c.lastIteration with
  | error e =>
    rw [hnext] at h
    cases h
  | ok next =>
    rw [hnext] at h
    simp only [Except.bind, hv, List.singleton_append] at h
    split_ifs at h with hexisting hhead hne
    · cases h
      exact ⟨rfl, rfl, Or.inl ⟨rfl, hhead⟩⟩
    · cases h
    · cases h
    · cases h
      exact ⟨rfl, rfl, Or.inr ⟨rfl, not_not.mp hexisting⟩⟩

/-- What the script plans: only `edge`, an iteration, or the version of the tag it runs on. -/
theorem releasePlan_cases {c : Checkout} {env : Env} {p : Plan} (h : releasePlan c env = .ok p) :
    (env.ref = ofString "main" ∧ iterationOf (ofString env.branch.name) = [] ∧ p.tag = [] ∧
        p.tags = env.image ++ ofString ":edge") ∨
      (env.ref = ofString "main" ∧ iterationOf (ofString env.branch.name) ≠ [] ∧
        c.iterationPlan env.image (iterationOf (ofString env.branch.name)) = .ok p) ∨
      (env.ref ≠ ofString "main" ∧ env.ref = 0x76 :: p.version ∧ p.tag = [] ∧
        p.tags = withLatest env.image p.version (env.image ++ ofString ":" ++ p.version)) := by
  have himage : env.image ≠ [] := by
    intro himage
    rw [releasePlan, if_pos himage] at h
    cases h
  by_cases hmain : env.ref = ofString "main"
  · rw [releasePlan_main himage hmain] at h
    split_ifs at h with hnone
    · cases hversion : c.versionSh [] with
      | error e =>
        rw [hversion] at h
        cases h
      | ok version =>
        rw [hversion] at h
        cases h
        exact Or.inl ⟨hmain, hnone, rfl, rfl⟩
    · exact Or.inr (Or.inl ⟨hmain, hnone, h⟩)
  · rw [releasePlan, if_neg himage, if_neg hmain] at h
    by_cases htag : env.ref.head? = some 0x76
    · rw [if_pos htag] at h
      cases hversion : c.versionSh [] with
      | error e =>
        rw [hversion] at h
        split_ifs at h
        cases h
      | ok version =>
        rw [hversion] at h
        split_ifs at h
        change (if ofString "v" ++ version = env.ref then _ else _) = _ at h
        split_ifs at h with href
        · cases h
          exact Or.inr (Or.inr ⟨hmain, href.symm, rfl, rfl⟩)
        · cases h
    · rw [if_neg htag] at h
      split_ifs at h
      cases h

end Plans

section Runs

variable {git : Naming} {image : Bytes} {r : Repository} {i : ℕ}

theorem not_tagged_of_commitOf {tag : Bytes} (h : ((r.checkout git i).commitOf tag).getD [] = []) :
    ¬ r.tagged tag := by
  intro hmem
  obtain ⟨t, ht, rfl⟩ := List.mem_map.mp hmem
  cases hfind : r.tags.find? (fun t' ↦ t'.1 = t.1) with
  | none => exact absurd (List.find?_eq_none.mp hfind t ht) (by simp)
  | some t' =>
    simp only [Repository.checkout, hfind, Option.map_some, Option.getD_some] at h
    exact git.nonempty t'.2 h

theorem mem_tags_of_commitOf {tag : Bytes} (h : ((r.checkout git i).commitOf tag).getD [] = git.hash i) :
    (tag, i) ∈ r.tags := by
  simp only [Repository.checkout] at h
  cases hfind : r.tags.find? (fun t ↦ t.1 = tag) with
  | none =>
    rw [hfind] at h
    exact absurd h.symm (git.nonempty i)
  | some t =>
    rw [hfind] at h
    obtain rfl := git.injective h
    obtain rfl : t.1 = tag := by simpa using List.find?_some hfind
    exact List.mem_of_find?_eq_some hfind

/-- A run creates a tag only for an iteration, and only where it is not taken. -/
theorem created_of_releasePlan {ref : Bytes} {branch : Branch} {p : Plan}
    (h : releasePlan (r.checkout git i) ⟨image, ref, branch⟩ = .ok p) (htag : p.tag ≠ []) :
    ref = ofString "main" ∧ iterationOf (ofString branch.name) ≠ [] ∧ ¬ r.tagged p.tag := by
  obtain ⟨_, _, hnone, _⟩ | ⟨hmain, hbranch, hiteration⟩ | ⟨_, _, hnone, _⟩ := releasePlan_cases h
  · exact absurd hnone htag
  · obtain ⟨_, _, ⟨hnone, _⟩ | ⟨heq, hnone⟩⟩ := Checkout.iterationPlan_cases hiteration
    · exact absurd hnone htag
    · rw [heq]
      exact ⟨hmain, hbranch, not_tagged_of_commitOf hnone⟩
  · exact absurd hnone htag

/-- A run starts with a plan that its commit's tags back once its own tag is pushed. -/
theorem backed_of_releasePlan {ref : Bytes} {branch : Branch} {p : Plan} (himage : 0x2C ∉ image)
    (htags : ∀ t ∈ r.tags, 0x2C ∉ t.1) (hbranch : r.branchOf ref i = some branch)
    (h : releasePlan (r.checkout git i) ⟨image, ref, branch⟩ = .ok p) :
    (∀ t ∈ (Job.mk i p false).owed, 0x2C ∉ t.1) ∧ Backed image ((Job.mk i p false).owed ++ r.tags) i p := by
  obtain ⟨_, _, htag, hedge⟩ | ⟨_, _, hiteration⟩ | ⟨hmain, href, htag, hnames⟩ := releasePlan_cases h
  · have howed : (Job.mk i p false).owed = [] := if_pos (Or.inl htag)
    rw [howed]
    exact ⟨by simp, backed_edge himage hedge⟩
  · obtain ⟨hversion, hnames, hcases⟩ := Checkout.iterationPlan_cases hiteration
    have hcomma : 0x2C ∉ p.version := by
      have hlast : 0x2C ∉ (r.checkout git i).last := by
        apply Checkout.comma_notMem_last
        intro tag htag
        obtain ⟨t, ht, rfl⟩ := List.mem_map.mp htag
        exact htags t (List.mem_of_mem_filter ht)
      have hdigits : 0x2C ∉ iterationOf (ofString branch.name) := fun hc ↦
        absurd (isDigit_of_mem_iterationOf hc) (by decide)
      have hdot : (0x2C : UInt8) ∉ ofString "." := by decide
      have hzero : (0x2C : UInt8) ∉ ofString ".0" := by decide
      rw [hversion]
      simp only [List.mem_append, not_or]
      exact ⟨⟨⟨fun hc ↦ hlast (List.takeWhile_subset _ hc), hdot⟩, hdigits⟩, hzero⟩
    rw [withLatest_edge_eq] at hnames
    obtain ⟨htag, hhead⟩ | ⟨htag, _⟩ := hcases
    · have howed : (Job.mk i p false).owed = [] := if_pos (Or.inl htag)
      rw [howed]
      exact ⟨by simp, backed_release himage hcomma (Or.inr rfl) hnames (mem_tags_of_commitOf hhead)⟩
    · have howed : (Job.mk i p false).owed = [(0x76 :: p.version, i)] := by simp [Job.owed, htag]
      rw [howed]
      refine ⟨?_, backed_release himage hcomma (Or.inr rfl) hnames List.mem_cons_self⟩
      intro t ht
      rw [List.mem_singleton.mp ht]
      simpa using hcomma
  · dsimp only at href hmain hnames
    have hmem : (ref, i) ∈ r.tags := by
      unfold Repository.branchOf at hbranch
      rw [if_neg hmain] at hbranch
      split_ifs at hbranch with hat
      exact hat.2
    have hcomma : 0x2C ∉ p.version := by
      have h := htags _ hmem
      rw [href] at h
      exact fun hc ↦ h (List.mem_cons_of_mem _ hc)
    have howed : (Job.mk i p false).owed = [] := if_pos (Or.inl htag)
    rw [howed]
    rw [withLatest_eq] at hnames
    exact ⟨by simp, backed_release himage hcomma (Or.inl rfl) hnames (href ▸ hmem)⟩

/-- What each step does, with what it takes. -/
inductive Takes (git : Naming) (image : Bytes) (r : Repository) : Event → Repository → Prop
  | merge (branch : Branch) : Takes git image r (.merge branch) { r with commits := r.commits ++ [branch] }
  | push {tag : Bytes} {i : ℕ} (hfree : ¬ r.tagged tag) :
      Takes git image r (.push tag i) { r with tags := (tag, i) :: r.tags }
  | failed (ref : Bytes) (i : ℕ) : Takes git image r (.plan ref i) r
  | planned {ref : Bytes} {i : ℕ} {branch : Branch} {p : Plan} (hidle : r.jobs ref = none)
      (hbranch : r.branchOf ref i = some branch)
        (hplan : releasePlan (r.checkout git i) ⟨image, ref, branch⟩ = .ok p) :
      Takes git image r (.plan ref i) (r.setJob ref (some ⟨i, p, false⟩))
  | tagged {ref : Bytes} {job : Job} (hjob : r.jobs ref = some job)
    (howed : job.owed = [(job.plan.tag, job.commit)])
      (hfree : ¬ r.tagged job.plan.tag) : Takes git image r (.tagIteration ref)
        ({ r with tags := (job.plan.tag, job.commit) :: r.tags }.setJob ref
          (some { job with tagged := true }))
  | published {ref : Bytes} {job : Job} (hjob : r.jobs ref = some job)
    (howed : job.owed = []) : Takes git image r
      (.publish ref) ({ r with published := (job.commit, job.plan) :: r.published }.setJob ref none)
  | ended (ref : Bytes) (a : Event) (ha : a = .tagIteration ref ∨ a = .stop ref) : Takes git image r a
    (r.setJob ref none)

theorem takes_of_step {a : Event} {t : Repository} (h : Repository.step git image r a = some t) :
    Takes git image r a t := by
  cases a with
  | merge branch =>
    cases h
    exact .merge branch
  | push tag i =>
    rw [Repository.step] at h
    split_ifs at h with hpush
    cases h
    exact .push hpush.2
  | plan ref i =>
    rw [Repository.step] at h
    split_ifs at h with hidle
    obtain ⟨branch, hbranch, rfl⟩ := Option.map_eq_some_iff.mp h
    split
    · exact .failed ref i
    · rename_i p hplan
      exact .planned hidle hbranch hplan
  | tagIteration ref =>
    obtain ⟨job, hjob, h⟩ := Option.bind_eq_some_iff.mp h
    split_ifs at h with howed htaken
    · cases h
      exact .ended ref _ (Or.inl rfl)
    · cases h
      exact .tagged hjob (if_neg howed) htaken
  | publish ref =>
    obtain ⟨job, hjob, h⟩ := Option.bind_eq_some_iff.mp h
    split_ifs at h with howed
    cases h
    exact .published hjob (if_pos howed)
  | stop ref =>
    obtain ⟨job, _, rfl⟩ := Option.map_eq_some_iff.mp h
    exact .ended ref _ (Or.inr rfl)

end Runs

section Versions

variable {git : Naming} {image : Bytes} {r : Repository}

/-- A run's plan is backed once what it still owes is pushed. -/
structure Job.Sound (image : Bytes) (tags : List (Bytes × ℕ)) (job : Job) : Prop where
  plain : ∀ t ∈ job.owed, 0x2C ∉ t.1
  backed : Backed image (job.owed ++ tags) job.commit job.plan

structure Traced (image : Bytes) (r : Repository) : Prop where
  nodup : (r.tags.map Prod.fst).Nodup
  plain : ∀ t ∈ r.tags, 0x2C ∉ t.1
  published : ∀ x ∈ r.published, Backed image r.tags x.1 x.2
  jobs : ∀ ref job, r.jobs ref = some job → job.Sound image r.tags

namespace Traced

theorem setJob (h : Traced image r) (ref : Bytes) {job : Option Job}
    (hjob : ∀ j, job = some j → j.Sound image r.tags) :
    Traced image (r.setJob ref job) := by
  refine ⟨h.nodup, h.plain, h.published, ?_⟩
  intro ref' j hj
  rw [Repository.jobs_setJob] at hj
  split_ifs at hj
  · exact hjob j hj
  · exact h.jobs ref' j hj

theorem addTag (h : Traced image r) {tag : Bytes} (i : ℕ) (hfree : ¬ r.tagged tag) (hplain : 0x2C ∉ tag) :
    Traced image { r with tags := (tag, i) :: r.tags } := by
  refine ⟨List.nodup_cons.mpr ⟨hfree, h.nodup⟩, List.forall_mem_cons.mpr ⟨hplain, h.plain⟩, ?_, ?_⟩
  · exact fun x hx ↦ (h.published x hx).mono (List.subset_cons_self _ _)
  · intro ref job hjob
    obtain ⟨howed, hbacked⟩ := h.jobs ref job hjob
    exact ⟨howed, hbacked.mono ((List.sublist_cons_self _ _).append_left _).subset⟩

theorem step (himage : 0x2C ∉ image) (h : Traced image r) {a : Event}
    (hplain : ∀ tag i, a = .push tag i → 0x2C ∉ tag) {t : Repository}
    (hstep : Repository.step git image r a = some t) : Traced image t := by
  cases takes_of_step hstep with
  | merge branch => exact ⟨h.nodup, h.plain, h.published, h.jobs⟩
  | push hfree => exact h.addTag _ hfree (hplain _ _ rfl)
  | failed ref i => exact h
  | planned hidle hbranch hplan =>
    obtain ⟨howed, hbacked⟩ := backed_of_releasePlan himage h.plain hbranch hplan
    refine h.setJob _ ?_
    rintro _ ⟨⟩
    exact ⟨howed, hbacked⟩
  | tagged hjob howed hfree =>
    obtain ⟨hcomma, hbacked⟩ := h.jobs _ _ hjob
    rw [howed] at hcomma hbacked
    refine (h.addTag _ hfree (hcomma _ (List.mem_singleton_self _))).setJob _ ?_
    rintro _ ⟨⟩
    refine ⟨?_, hbacked.mono (List.subset_append_right _ _)⟩
    simp [Job.owed]
  | @published ref job hjob howed =>
    have hbacked := (h.jobs ref job hjob).backed
    rw [howed, List.nil_append] at hbacked
    have hpublished : Traced image { r with published := (job.commit, job.plan) :: r.published } :=
      ⟨h.nodup, h.plain, List.forall_mem_cons.mpr ⟨hbacked, h.published⟩, h.jobs⟩
    exact hpublished.setJob ref (by simp)
  | ended ref _ ha => exact h.setJob ref (by simp)

end Traced

theorem traced_empty (image : Bytes) : Traced image emptyRepository :=
  ⟨List.nodup_nil, by simp [emptyRepository], by simp [emptyRepository], by simp [emptyRepository]⟩

theorem imageName_injective (image : Bytes) : Function.Injective (imageName image) :=
  fun _ _ h ↦ List.append_cancel_left h

/-- However merges, tags pushed by hand and runs of the workflow interleave, an image is published under
a version only of the commit with the version's tag, so that a version is never published of two
commits. A comma in a tag or in the image's name would make several names of one. -/
theorem version_published_of_its_commit (git : Naming) {image : Bytes} (himage : 0x2C ∉ image)
    {as : List Event} (hplain : ∀ tag i, .push tag i ∈ as → 0x2C ∉ tag) {r : Repository}
    (hr : run (Repository.step git image) emptyRepository as = some r) :
    (∀ x ∈ r.published, Backed image r.tags x.1 x.2) ∧
      ∀ x ∈ r.published, ∀ y ∈ r.published, ∀ name ∈ x.2.names, name ∈ y.2.names →
        name ≠ imageName image (ofString "edge") → name ≠ imageName image (ofString "latest") →
        x.1 = y.1 ∧ x.2.version = y.2.version := by
  have hcond : Along (Repository.step git image) (fun _ a ↦ ∀ tag i, a = .push tag i →
      0x2C ∉ tag) emptyRepository as := by
    refine Along.of_mem ?_ _
    rintro a ha tag i rfl
    exact hplain tag i ha
  have htraced : Traced image r :=
    invariant_along (fun _ _ _ h hc ht ↦ h.step himage hc ht) (traced_empty image) hcond hr
  refine ⟨htraced.published, ?_⟩
  intro x hx y hy name hnx hny hedge hlatest
  have htag {z : ℕ × Plan} (hz : z ∈ r.published) (hname : name ∈ z.2.names) :
      name = imageName image z.2.version ∧ (0x76 :: z.2.version, z.1) ∈ r.tags := by
    obtain h | ⟨⟨h, -⟩ | h, hmem⟩ := htraced.published z hz name hname
    · exact absurd h hedge
    · exact absurd h hlatest
    · exact ⟨h, hmem⟩
  obtain ⟨hxname, hxtag⟩ := htag hx hnx
  obtain ⟨hyname, hytag⟩ := htag hy hny
  have hversion : x.2.version = y.2.version := imageName_injective image (hxname.symm.trans hyname)
  rw [hversion] at hxtag
  have hsame := List.inj_on_of_nodup_map htraced.nodup hxtag hytag rfl
  exact ⟨congrArg Prod.snd hsame, hversion⟩

def countedCommits : Naming := ⟨decimal, decimal_injective, fun i ↦ (canonical_decimal i).nonempty⟩

def iterationBranch (name : String) (h : (ofString name).all (0x20 ≤ ·) = true) : Branch :=
  (mergeOf name h).branch

/-- The first iteration is released, and tagged 1.0.0 by hand while its run is still to publish. -/
def firstReleases : List Event :=
  [.merge (iterationBranch "feat/iteration-1-auth" (by decide)), .plan "main" 0, .tagIteration "main",
    .push "v1.0.0" 0, .plan "v1.0.0" 0, .publish "v1.0.0", .publish "main"]

theorem first_releases_of_one_commit :
    ∃ r, run (Repository.step countedCommits "img") emptyRepository firstReleases = some r ∧
      r.published.map (fun x ↦ x.2.tags) = [ofString "img:edge,img:0.1.0", ofString "img:1.0.0,img:latest"] ∧
    ∀ x ∈ r.published, Backed "img" r.tags x.1 x.2 := by
  have hplain : ∀ tag i, .push tag i ∈ firstReleases → 0x2C ∉ tag := by
    intro tag i h
    simp only [firstReleases, List.mem_cons, reduceCtorEq, Event.push.injEq, List.not_mem_nil,
      or_false, false_or] at h
    rw [h.1]
    decide
  have htags : (run (Repository.step countedCommits "img") emptyRepository firstReleases).map
      (fun r ↦ r.published.map (fun x ↦ x.2.tags)) =
          some [ofString "img:edge,img:0.1.0", ofString "img:1.0.0,img:latest"] := by
    decide +kernel
  obtain ⟨r, hr, htags⟩ := Option.map_eq_some_iff.mp htags
  exact ⟨r, hr, htags, (version_published_of_its_commit countedCommits (by decide) hplain hr).1⟩

end Versions

section Iterations

variable {git : Naming} {image : Bytes} {r : Repository}

def Repository.releaseTags (r : Repository) : List (Bytes × ℕ) :=
  r.tags.filter (fun t ↦ globMatch pattern t.1)

/-- The tags of the first iterations from the last on: each is on a later commit than those before it,
the merge of the branch with its number. -/
inductive Iterations (commits : List Branch) : List (Bytes × ℕ) → ℕ → Prop
  | none : Iterations commits [] 0
  | next {tags : List (Bytes × ℕ)} {n i : ℕ} {branch : Branch} (h : Iterations commits tags n)
    (hlater : ∀ t ∈ tags, t.2 < i)
      (hbranch : commits[i]? = some branch)
      (hiteration : iterationOf (ofString branch.name) = decimal (n + 1)) :
      Iterations commits ((Version.tag ⟨0, n + 1, 0⟩, i) :: tags) (n + 1)

def iterationVersions (n : ℕ) : Finset Version := (Finset.range n).image (fun k ↦ ⟨0, k + 1, 0⟩)

theorem iterationVersions_succ (n : ℕ) :
    iterationVersions (n + 1) = insert ⟨0, n + 1, 0⟩ (iterationVersions n) := by
  rw [iterationVersions, Finset.range_add_one, Finset.image_insert, iterationVersions]

theorem nextVersion_iterationVersions (n : ℕ) : nextVersion (iterationVersions n) = ⟨0, n + 1, 0⟩ := by
  induction n with
  | zero => rfl
  | succ n ih =>
    have hmajor : (highest (iterationVersions n)).major = 0 := congrArg Version.major ih
    have hminor : highestMinor (iterationVersions n) + 1 = n + 1 := congrArg Version.minor ih
    rw [iterationVersions_succ, ← ih, nextVersion_after, hmajor,
      show highestMinor (iterationVersions n) + 2 = n + 1 + 1 by omega]

namespace Iterations

variable {commits : List Branch} {tags : List (Bytes × ℕ)} {n : ℕ}

theorem merge (h : Iterations commits tags n) (branch : Branch) :
    Iterations (commits ++ [branch]) tags n := by
  induction h with
  | none => exact .none
  | next h hlater hbranch hiteration ih =>
    refine .next ih hlater ?_ hiteration
    rw [List.getElem?_append_left (List.getElem?_eq_some_iff.mp hbranch).1, hbranch]

theorem tagged_iff (h : Iterations commits tags n) (tag : Bytes) :
    tag ∈ tags.map Prod.fst ↔ ∃ v ∈ iterationVersions n, tag = v.tag := by
  induction h with
  | none => simp [iterationVersions]
  | next h hlater hbranch hiteration ih =>
    rw [List.map_cons, List.mem_cons, ih, iterationVersions_succ]
    simp

theorem branch_of_mem (h : Iterations commits tags n) {t : Bytes × ℕ} (ht : t ∈ tags) :
    ∃ k < n, ∃ branch, commits[t.2]? = some branch ∧
      iterationOf (ofString branch.name) = decimal (k + 1) := by
  induction h with
  | none => cases ht
  | @next tags n i branch h hlater hbranch hiteration ih =>
    obtain rfl | ht := List.mem_cons.mp ht
    · exact ⟨n, Nat.lt_succ_self n, branch, hbranch, hiteration⟩
    · obtain ⟨k, hk, hbranch⟩ := ih ht
      exact ⟨k, Nat.lt_succ_of_lt hk, hbranch⟩

/-- A commit reaches the first of them. -/
theorem reached (h : Iterations commits tags n) (i : ℕ) :
    ∃ m ≤ n, Iterations commits (tags.filter (fun t ↦ t.2 ≤ i)) m ∧ (m = n → ∀ t ∈ tags, t.2 ≤ i) := by
  induction h with
  | none => exact ⟨0, le_rfl, .none, by simp⟩
  | @next tags n j branch h hlater hbranch hiteration ih =>
    by_cases hj : j ≤ i
    · have hall : ∀ t ∈ (Version.tag ⟨0, n + 1, 0⟩, j) :: tags, t.2 ≤ i :=
        List.forall_mem_cons.mpr ⟨hj, fun t ht ↦ (hlater t ht).le.trans hj⟩
      refine ⟨n + 1, le_rfl, ?_, fun _ ↦ hall⟩
      rw [List.filter_eq_self.mpr (fun t ht ↦ decide_eq_true (hall t ht))]
      exact .next h hlater hbranch hiteration
    · obtain ⟨m, hm, hreached, _⟩ := ih
      refine ⟨m, Nat.le_succ_of_le hm, ?_, fun hmn ↦ ?_⟩
      · rw [List.filter_cons_of_neg (by simpa using hj)]
        exact hreached
      · omega

end Iterations

/-- The scripts see the iterations whose tags a commit reaches. -/
theorem reachable_checkout {i m : ℕ} (h : Iterations r.commits (r.releaseTags.filter (fun t ↦ t.2 ≤ i)) m) :
    Reachable (r.checkout git i) (iterationVersions m) := by
  have hmerged (tag : Bytes) (hmatch : globMatch pattern tag = true) :
      tag ∈ (r.checkout git i).merged ↔ ∃ v ∈ iterationVersions m, tag = v.tag := by
    rw [← h.tagged_iff, Repository.releaseTags, Repository.checkout]
    simp only [List.mem_map, List.mem_filter, decide_eq_true_eq]
    constructor
    · rintro ⟨t, ⟨ht, hle⟩, rfl⟩
      exact ⟨t, ⟨⟨ht, hmatch⟩, hle⟩, rfl⟩
    · rintro ⟨t, ⟨⟨ht, _⟩, hle⟩, rfl⟩
      exact ⟨t, ⟨ht, hle⟩, rfl⟩
  constructor
  · intro v
    rw [hmerged v.tag v.tag_matches]
    simp [Version.tag_injective.eq_iff]
  · intro tag htag hmatch
    obtain ⟨v, _, hv⟩ := (hmerged tag hmatch).mp htag
    exact ⟨v, hv⟩

/-- A run for main that is to push a tag is to push that of the next iteration, on a commit after all
the others. -/
theorem Iterations.planned {n i : ℕ} (h : Iterations r.commits r.releaseTags n) {branch : Branch}
    (hbranch : r.commits[i]? = some branch)
    (hnumbered : iterationOf (ofString branch.name) = [] ∨ Numbered branch) {p : Plan}
    (hplan : releasePlan (r.checkout git i) ⟨image, ofString "main", branch⟩ = .ok p) (htag : p.tag ≠ []) :
    Iterations r.commits ((p.tag, i) :: r.releaseTags) (n + 1) := by
  obtain ⟨_, hne, hfree⟩ := created_of_releasePlan hplan htag
  obtain ⟨k, hk, hdecimal⟩ := numbered_iff.mp (hnumbered.resolve_left hne)
  obtain ⟨m, hm, hreached, hall⟩ := h.reached i
  have hnext := nextVersion_iterationVersions m
  have hminor : highestMinor (iterationVersions m) + 1 = m + 1 := congrArg Version.minor hnext
  obtain ⟨hkm, heq⟩ := (reachable_checkout hreached).eq_next rfl hplan htag hk hdecimal
  rw [hminor] at hkm
  rw [hnext] at heq
  -- Were one of the iterations after the commit, the tag would be taken.
  obtain rfl : m = n := by
    refine hm.antisymm (not_lt.mp fun hlt ↦ hfree ?_)
    have hmem : p.tag ∈ r.releaseTags.map Prod.fst :=
      (h.tagged_iff p.tag).mpr ⟨_, Finset.mem_image_of_mem _ (Finset.mem_range.mpr hlt), heq⟩
    obtain ⟨t, ht, hfst⟩ := List.mem_map.mp hmem
    exact List.mem_map.mpr ⟨t, List.mem_of_mem_filter ht, hfst⟩
  have hlater : ∀ t ∈ r.releaseTags, t.2 < i := by
    intro t ht
    refine lt_of_le_of_ne (hall rfl t ht) ?_
    rintro rfl
    obtain ⟨l, hl, branch', hbranch', hdecimal'⟩ := h.branch_of_mem ht
    obtain rfl : branch = branch' := Option.some.inj (hbranch.symm.trans hbranch')
    have hlk := decimal_injective (hdecimal.symm.trans hdecimal')
    omega
  rw [heq]
  exact .next h hlater hbranch (by rw [hdecimal, hkm])

/-- The iterations are tagged in order, and a run for main is to add the next one; no other run adds any. -/
structure InOrder (r : Repository) : Prop where
  branches : ∀ branch ∈ r.commits, iterationOf (ofString branch.name) = [] ∨ Numbered branch
  iterations : ∃ n, Iterations r.commits r.releaseTags n ∧ ∀ job, r.jobs (ofString "main") = some job →
    ∀ t ∈ job.owed, Iterations r.commits (t :: r.releaseTags) (n + 1)
  others : ∀ ref job, r.jobs ref = some job → ref ≠ ofString "main" → job.owed = []

theorem Repository.releaseTags_cons (t : Bytes × ℕ) : { r with tags := t :: r.tags }.releaseTags =
    if globMatch pattern t.1 = true then t :: r.releaseTags else r.releaseTags := List.filter_cons

theorem owed_of_tagged {job : Job} : { job with tagged := true }.owed = [] := if_pos (Or.inr rfl)

namespace InOrder

theorem setJob (h : InOrder r) {ref : Bytes} {job : Option Job}
    (hother : ref ≠ ofString "main" → ∀ j, job = some j → j.owed = [])
    (hmain : ref = ofString "main" → ∀ j, job = some j → ∀ n, Iterations r.commits r.releaseTags n →
      ∀ t ∈ j.owed, Iterations r.commits (t :: r.releaseTags) (n + 1)) : InOrder (r.setJob ref job) := by
  obtain ⟨n, hn, hjob⟩ := h.iterations
  refine ⟨h.branches, ⟨n, hn, ?_⟩, ?_⟩
  · intro j hj
    rw [Repository.jobs_setJob] at hj
    split_ifs at hj with href
    · exact hmain href.symm j hj n hn
    · exact hjob j hj
  · intro ref' j hj href'
    rw [Repository.jobs_setJob] at hj
    split_ifs at hj with href
    · exact hother (href ▸ href') j hj
    · exact h.others ref' j hj href'

theorem endJob (h : InOrder r) (ref : Bytes) : InOrder (r.setJob ref none) :=
  h.setJob (by simp) (by simp)

/-- Only a run for main has a tag to push, and the runs for main are one at a time. -/
theorem tag (h : InOrder r) {ref : Bytes} {job : Job} (hjob : r.jobs ref = some job)
    (howed : job.owed = [(job.plan.tag, job.commit)]) : InOrder
      ({ r with tags := (job.plan.tag, job.commit) :: r.tags }.setJob ref
        (some { job with tagged := true })) := by
  obtain ⟨n, hn, hmain⟩ := h.iterations
  have href : ref = ofString "main" := by
    by_contra href
    rw [h.others ref job hjob href] at howed
    cases howed
  subst href
  have hnext := hmain job hjob _ (by rw [howed]; exact List.mem_singleton_self _)
  have htags : { r with tags := (job.plan.tag, job.commit) :: r.tags }.releaseTags =
      (job.plan.tag, job.commit) :: r.releaseTags := by
    obtain ⟨v, _, hv⟩ := (hnext.tagged_iff job.plan.tag).mp (List.mem_map_of_mem List.mem_cons_self)
    rw [Repository.releaseTags_cons, hv, if_pos v.tag_matches]
  rw [← htags] at hnext
  refine ⟨h.branches, ⟨n + 1, hnext, ?_⟩, ?_⟩
  · intro j hj t ht
    rw [Repository.jobs_setJob, if_pos rfl] at hj
    cases hj
    rw [owed_of_tagged] at ht
    cases ht
  · intro ref' j hj href'
    rw [Repository.jobs_setJob, if_neg href'] at hj
    exact h.others ref' j hj href'

theorem step (h : InOrder r) {a : Event} (hpush : ∀ tag i, a = .push tag i → globMatch pattern tag = false)
    (hmerge : ∀ branch, a = .merge branch → iterationOf (ofString branch.name) = [] ∨ Numbered branch)
    {t : Repository} (hstep : Repository.step git image r a = some t) : InOrder t := by
  cases takes_of_step hstep with
  | merge branch =>
    obtain ⟨n, hn, hjob⟩ := h.iterations
    refine ⟨?_, ⟨n, hn.merge branch, fun job hj t ht ↦ (hjob job hj t ht).merge branch⟩, h.others⟩
    intro branch' hmem
    obtain hmem | hmem := List.mem_append.mp hmem
    · exact h.branches branch' hmem
    · rw [List.mem_singleton.mp hmem]
      exact hmerge branch rfl
  | @push tag i hfree =>
    have htags : { r with tags := (tag, i) :: r.tags }.releaseTags = r.releaseTags := by
      rw [Repository.releaseTags_cons, if_neg (by simp [hpush tag i rfl])]
    refine ⟨h.branches, ?_, h.others⟩
    rw [htags]
    exact h.iterations
  | failed ref i => exact h
  | @planned ref i branch p hidle hbranch hplan =>
    have hcreated : (Job.mk i p false).owed ≠ [] → p.tag ≠ [] := by
      intro hne htag
      exact hne (if_pos (Or.inl htag))
    refine h.setJob ?_ ?_
    · rintro hother _ ⟨⟩
      by_contra hne
      exact hother (created_of_releasePlan hplan (hcreated hne)).1
    · rintro rfl _ ⟨⟩ n hn t ht
      have htag := hcreated (List.ne_nil_of_mem ht)
      have hcommit : r.commits[i]? = some branch := by simpa [Repository.branchOf] using hbranch
      have howed : (Job.mk i p false).owed = [(p.tag, i)] := by simp [Job.owed, htag]
      rw [howed, List.mem_singleton] at ht
      rw [ht]
      exact hn.planned hcommit (h.branches branch (List.mem_of_getElem? hcommit)) hplan htag
  | tagged hjob howed hfree => exact h.tag hjob howed
  | @published ref job hjob howed =>
    have hpublished : InOrder { r with published := (job.commit, job.plan) :: r.published } :=
      ⟨h.branches, h.iterations, h.others⟩
    exact hpublished.endJob ref
  | ended ref _ ha => exact h.endJob ref

end InOrder

/-- With no release tag pushed by hand and every iteration's branch numbered as it is printed, the
release tags are at all times v0.1.0, v0.2.0 and so on without a gap, each on the merge of its own
iteration and after those before it, in whatever order the runs of the workflow come and wherever they
stop. -/
theorem iterations_tagged_in_order (git : Naming) (image : Bytes) {as : List Event}
    (hpush : ∀ tag i, .push tag i ∈ as → globMatch pattern tag = false)
    (hmerge : ∀ branch, .merge branch ∈ as → iterationOf (ofString branch.name) = [] ∨ Numbered branch)
    {r : Repository} (hr : run (Repository.step git image) emptyRepository as = some r) :
    ∃ n, Iterations r.commits r.releaseTags n := by
  have hcond : Along (Repository.step git image)
    (fun _ a ↦ (∀ tag i, a = .push tag i → globMatch pattern tag = false) ∧
      ∀ branch, a = .merge branch → iterationOf (ofString branch.name) = [] ∨
          Numbered branch) emptyRepository as := by
    refine Along.of_mem ?_ _
    intro a ha
    constructor
    · rintro tag i rfl
      exact hpush tag i ha
    · rintro branch rfl
      exact hmerge branch ha
  have hempty : InOrder emptyRepository :=
    ⟨by simp [emptyRepository], ⟨0, .none, by simp [emptyRepository]⟩, by simp [emptyRepository]⟩
  have horder : InOrder r := invariant_along (fun _ _ _ h hc ht ↦ h.step hc.1 hc.2 ht) hempty hcond hr
  obtain ⟨n, hn, _⟩ := horder.iterations
  exact ⟨n, hn⟩

/-- The second iteration is merged twice, and its first run starts only after the other has tagged it. -/
def twoIterations : List Event :=
  [.merge (iterationBranch "feat/iteration-1-auth" (by decide)), .plan "main" 0, .tagIteration "main",
    .publish "main", .merge (iterationBranch "feat/iteration-2-tls" (by decide)),
      .merge (iterationBranch "feat/iteration-2-tls" (by decide)),
    .plan "main" 2, .tagIteration "main", .stop "main", .plan "main" 1, .plan "main" 2, .publish "main"]

theorem two_iterations_in_order :
    ∃ r, run (Repository.step countedCommits "img") emptyRepository twoIterations = some r ∧
      r.tags = [(ofString "v0.2.0", 2), (ofString "v0.1.0", 0)] ∧
        ∃ n, Iterations r.commits r.releaseTags n := by
  have htags : (run (Repository.step countedCommits "img") emptyRepository twoIterations).map
    Repository.tags =
      some [(ofString "v0.2.0", 2), (ofString "v0.1.0", 0)] := by decide +kernel
  obtain ⟨r, hr, htags⟩ := Option.map_eq_some_iff.mp htags
  refine ⟨r, hr, htags, iterations_tagged_in_order countedCommits "img" ?_ ?_ hr⟩
  · intro tag i h
    simp [twoIterations] at h
  · intro branch h
    simp only [twoIterations, List.mem_cons, reduceCtorEq, Event.merge.injEq, List.not_mem_nil,
      or_false, false_or] at h
    obtain rfl | rfl | rfl := h
    · exact Or.inr ⟨1, "auth", by decide, by decide +kernel⟩
    · exact Or.inr ⟨2, "tls", by decide, by decide +kernel⟩
    · exact Or.inr ⟨2, "tls", by decide, by decide +kernel⟩

end Iterations

end OtlpCollectorOidc.Release

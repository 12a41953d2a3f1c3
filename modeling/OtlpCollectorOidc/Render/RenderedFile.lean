import OtlpCollectorOidc.Lib.FileSystem
import OtlpCollectorOidc.Lib.Transition

namespace OtlpCollectorOidc.Render

open Text Transition FileSystem

/-- The error `writeExclusive` returns, by the call that failed. -/
inductive WriteError where
  | removing (e : Errno)
  | creating (e : Errno)
  | writing (e : Errno)
  | closing (e : Errno)

def WriteError.string (path : Bytes) : WriteError → Bytes
  | removing e => ofString "removing the previous file: remove " ++ path ++ ofString ": " ++ e.string
  | creating e => ofString "creating the file: open " ++ path ++ ofString ": " ++ e.string
  | writing e => ofString "writing the file: write " ++ path ++ ofString ": " ++ e.string
  | closing e => ofString "closing the file: close " ++ path ++ ofString ": " ++ e.string

/-- A call of `writeExclusive`, by the system call it makes next. `os.Remove` makes two. -/
inductive Writer where
  | unlinking
  | rmdiring (e : Errno)
  | creating
  | writing (i : ℕ) (rest : Bytes)
  | abandoning (i : ℕ) (e : Errno)
  | closing (i : ℕ)
  | returned (err : Option WriteError)

structure WriteState (υ : Type) where
  dir : Directory υ
  writer : Writer

/-- The call's next step, where it may fail for a reason of the system's and a write may take some of
the bytes, at least one; or a process of another user does something. -/
inductive WriteAct (υ : Type) where
  | own (fault : Option Errno) (n : ℕ)
  | other (u : υ) (a : Foreign)

section Steps

variable {υ : Type} [DecidableEq υ] (me : υ) (path data : Bytes)

def attempt {α : Type} (fault : Option Errno) (call : Except Errno α) : Except Errno α :=
  match fault with
  | some e => .error e
  | none => call

def ownStep (d : Directory υ) (fault : Option Errno) (n : ℕ) : Writer → Option (WriteState υ)
  | .unlinking =>
    match attempt fault (d.unlink me path) with
    | .ok d' => some ⟨d', .creating⟩
    | .error e => some ⟨d, .rmdiring e⟩
  | .rmdiring e =>
    match attempt fault (d.rmdir me path) with
    | .ok d' => some ⟨d', .creating⟩
    | .error e₁ =>
      let err := if e₁ = .notDirectory then e else e₁
      some ⟨d, if err = .noEntry then .creating else .returned (some (.removing err))⟩
  | .creating =>
    match attempt fault (d.create path ⟨me, false, false, .file []⟩) with
    | .ok d' => some ⟨d', .writing d.nodes.length data⟩
    | .error e => some ⟨d, .returned (some (.creating e))⟩
  | .writing i rest =>
    match fault with
    | some e => some ⟨d, .abandoning i e⟩
    | none => some ⟨d.append i (rest.take (n + 1)),
        if rest.drop (n + 1) = [] then .closing i else .writing i (rest.drop (n + 1))⟩
  | .abandoning _ e => some ⟨d, .returned (some (.writing e))⟩
  | .closing _ => some ⟨d, .returned (fault.map .closing)⟩
  | .returned _ => none

def writeStep (s : WriteState υ) : WriteAct υ → Option (WriteState υ)
  | .own fault n => ownStep me path data s.dir fault n s.writer
  | .other u a => if u = me then none else (s.dir.foreign u a).map (fun d ↦ { s with dir := d })

end Steps

theorem attempt_ok {α : Type} {fault : Option Errno} {call : Except Errno α} {x : α}
    (h : attempt fault call = .ok x) :
    call = .ok x := by
  cases fault with
  | none => exact h
  | some e => cases h

/-- The call has made no file, or has failed to. -/
def Writer.Early : Writer → Prop
  | .unlinking | .rmdiring _ | .creating | .returned (some _) => True
  | _ => False

/-- The first two steps take the name away, if anything, and do not look at the data. -/
theorem ownStep_early {υ : Type} [DecidableEq υ] {me : υ} {path data : Bytes} {d : Directory υ}
    {fault : Option Errno} {n : ℕ} {w : Writer} {t : WriteState υ}
    (hw : w = .unlinking ∨ ∃ e, w = .rmdiring e) (h : ownStep me path data d fault n w = some t) :
    (t.dir = d ∨ t.dir = d.drop path) ∧ t.writer.Early := by
  obtain rfl | ⟨e, rfl⟩ := hw
  · simp only [ownStep] at h
    split at h <;> cases h
    · obtain ⟨i, -, -, rfl⟩ := Directory.unlink_ok (attempt_ok ‹_›)
      exact ⟨Or.inr rfl, trivial⟩
    · exact ⟨Or.inl rfl, trivial⟩
  · simp only [ownStep] at h
    split at h <;> cases h
    · obtain ⟨i, -, -, rfl⟩ := Directory.rmdir_ok (attempt_ok ‹_›)
      exact ⟨Or.inr rfl, trivial⟩
    · refine ⟨Or.inl rfl, ?_⟩
      dsimp only
      split_ifs <;> trivial

section Written

variable {υ : Type} [DecidableEq υ] (me : υ) (path data : Bytes) (d₀ : Directory υ) (kept : Prop)

/-- The file this call made: not one that was there before, private, and with its name where that is kept. -/
structure InPlace (d : Directory υ) (i : ℕ) (bytes : Bytes) : Prop where
  new : d₀.nodes.length ≤ i
  file : d.HasFile me i bytes
  named : kept → d.entries path = some i

def Writes (d : Directory υ) : Writer → Prop
  | .writing i rest => ∃ done, done ++ rest = data ∧ InPlace me path d₀ kept d i done
  | .closing i => InPlace me path d₀ kept d i data
  | .returned none => ∃ i, InPlace me path d₀ kept d i data
  | _ => True

structure WriteInv (s : WriteState υ) : Prop where
  length : d₀.nodes.length ≤ s.dir.nodes.length
  owner : s.dir.owner = d₀.owner
  sticky : s.dir.sticky = d₀.sticky
  writes : Writes me path data d₀ kept s.dir s.writer

variable {me path data d₀ kept} {s t : WriteState υ}

omit [DecidableEq υ] in
theorem Writes.of_early {d : Directory υ} {w : Writer} (h : w.Early) : Writes me path data d₀ kept d w := by
  cases w with
  | unlinking | rmdiring | creating | abandoning => trivial
  | writing | closing => exact h.elim
  | returned err =>
    cases err with
    | none => exact h.elim
    | some e => trivial

theorem WriteInv.own {fault : Option Errno} {n : ℕ} (hs : WriteInv me path data d₀ kept s)
    (h : ownStep me path data s.dir fault n s.writer = some t) : WriteInv me path data d₀ kept t := by
  obtain ⟨hlength, howner, hsticky, hwrites⟩ := hs
  have hearly (hw : s.writer = .unlinking ∨ ∃ e, s.writer = .rmdiring e) :
      WriteInv me path data d₀ kept t := by
    obtain ⟨hd | hd, hearly⟩ := ownStep_early hw h
    · exact ⟨hd ▸ hlength, hd ▸ howner, hd ▸ hsticky, .of_early hearly⟩
    · exact ⟨hd ▸ hlength, hd ▸ howner, hd ▸ hsticky, .of_early hearly⟩
  have hquiet {w : Writer} (hw : Writes me path data d₀ kept s.dir w) :
      WriteInv me path data d₀ kept ⟨s.dir, w⟩ :=
    ⟨hlength, howner, hsticky, hw⟩
  generalize hwriter : s.writer = w at h hwrites
  cases w with
  | unlinking => exact hearly (Or.inl hwriter)
  | rmdiring e => exact hearly (Or.inr ⟨e, hwriter⟩)
  | creating =>
    simp only [ownStep] at h
    split at h <;> cases h
    · obtain ⟨-, rfl⟩ := Directory.create_ok (attempt_ok ‹_›)
      refine ⟨?_, howner, hsticky, [], rfl, hlength, ?_, fun _ ↦ Function.update_self ..⟩
      · rw [List.length_append]
        exact hlength.trans (Nat.le_add_right _ _)
      · exact List.getElem?_concat_length
    · exact hquiet trivial
  | writing i rest =>
    obtain ⟨done, hdone, hplace⟩ := hwrites
    simp only [ownStep] at h
    split at h <;> cases h
    · exact hquiet trivial
    · have hnext : InPlace me path d₀ kept (s.dir.append i (rest.take (n + 1))) i (done ++
          rest.take (n + 1)) :=
        ⟨hplace.new, hplace.file.append _, hplace.named⟩
      refine ⟨(Directory.length_append ..).symm ▸ hlength, howner, hsticky, ?_⟩
      have hsplit : done ++ rest.take (n + 1) ++ rest.drop (n + 1) = data := by
        rw [List.append_assoc, List.take_append_drop, hdone]
      dsimp only
      split_ifs with hrest
      · rw [hrest, List.append_nil] at hsplit
        exact hsplit ▸ hnext
      · exact ⟨_, hsplit, hnext⟩
  | abandoning i e =>
    cases h
    exact hquiet trivial
  | closing i =>
    cases h
    refine hquiet ?_
    cases fault with
    | none => exact ⟨i, hwrites⟩
    | some e => trivial
  | returned err => cases h

theorem InPlace.foreign {d e : Directory υ} {u : υ} {i : ℕ} {bytes : Bytes}
    (h : Directory.ForeignStep d u e) (hu : u ≠ me) (hkept : kept → d.sticky = true ∧ d.owner ≠ u)
    (hplace : InPlace me path d₀ kept d i bytes) :
    InPlace me path d₀ kept e i bytes where
  new := hplace.new
  file := h.hasFile hu hplace.file
  named hk := h.entries (hkept hk).1 (hkept hk).2 hu hplace.file (hplace.named hk)

theorem WriteInv.other {u : υ} {a : Foreign} {e : Directory υ}
    (hs : WriteInv me path data d₀ kept s) (hu : u ≠ me) (hkept : kept → d₀.sticky = true ∧ d₀.owner ≠ u)
    (h : s.dir.foreign u a = some e) :
    WriteInv me path data d₀ kept { s with dir := e } := by
  have hstep := Directory.foreign_inv h
  have hplace {i : ℕ} {bytes : Bytes} (hp : InPlace me path d₀ kept s.dir i bytes) :
      InPlace me path d₀ kept e i bytes :=
    hp.foreign hstep hu (by rw [hs.sticky, hs.owner]; exact hkept)
  refine ⟨hs.length.trans hstep.length_le, hstep.owner.1.trans hs.owner, hstep.owner.2.trans hs.sticky, ?_⟩
  have hwrites := hs.writes
  unfold Writes at hwrites ⊢
  dsimp only
  split at hwrites
  · obtain ⟨done, hdone, hp⟩ := hwrites
    exact ⟨done, hdone, hplace hp⟩
  · exact hplace hwrites
  · obtain ⟨i, hp⟩ := hwrites
    exact ⟨i, hplace hp⟩
  · trivial

end Written

section Runs

variable {υ : Type} [DecidableEq υ] {me : υ} {path data : Bytes} {d : Directory υ} {s : WriteState υ}
    {as : List (WriteAct υ)}

theorem writeStep_inv {t : WriteState υ} {b : WriteAct υ} (h : writeStep me path data s b = some t) :
    (∃ fault n, b = .own fault n ∧ ownStep me path data s.dir fault n s.writer = some t) ∨
    ∃ u a e, b = .other u a ∧ u ≠ me ∧ s.dir.foreign u a = some e ∧ t = { s with dir := e } := by
  cases b with
  | own fault n => exact Or.inl ⟨fault, n, rfl, h⟩
  | other u a =>
    simp only [writeStep] at h
    split_ifs at h with hu
    obtain ⟨e, he, rfl⟩ := Option.map_eq_some_iff.mp h
    exact Or.inr ⟨u, a, e, rfl, hu, he, rfl⟩

/-- Whatever other users do meanwhile and after, the file of a call that returned no error is one it
made itself, that they can neither read nor write, and it holds the data. In a sticky directory they do
not own, the name is still its own. -/
theorem written_file_is_own (hr : run (writeStep me path data) ⟨d, .unlinking⟩ as = some s)
    (hok : s.writer = .returned none) :
    ∃ i, d.nodes.length ≤ i ∧ s.dir.HasFile me i data ∧
      (d.sticky = true → (∀ u a, .other u a ∈ as → u ≠ d.owner) → s.dir.entries path = some i) := by
  let kept : Prop := d.sticky = true ∧ ∀ u a, .other u a ∈ as → u ≠ d.owner
  have hstart : WriteInv me path data d kept ⟨d, .unlinking⟩ := ⟨le_rfl, rfl, rfl, trivial⟩
  have hinv : WriteInv me path data d kept s := by
    refine invariant_along (C := fun _ b ↦ b ∈ as) ?_ hstart (Along.of_mem (fun _ hb ↦ hb) _) hr
    intro s b t hs hb hstep
    obtain ⟨fault, n, -, hown⟩ | ⟨u, a, e, rfl, hu, he, rfl⟩ := writeStep_inv hstep
    · exact hs.own hown
    · exact hs.other hu (fun hk ↦ ⟨hk.1, (hk.2 u a hb).symm⟩) he
  have hwrites := hinv.writes
  rw [hok] at hwrites
  obtain ⟨i, hplace⟩ := hwrites
  exact ⟨i, hplace.new, hplace.file, fun hsticky htrusted ↦ hplace.named ⟨hsticky, htrusted⟩⟩

def exampleDirectory : Directory ℕ where
  owner := 2
  sticky := true
  entries name := if name = ofString "p" then some 0 else none
  nodes := [⟨0, false, false, .file "old"⟩]

/-- The new file is written in two parts, between which a third user links the old one, and closed after
they have made a link to the new. -/
def exampleWrite : List (WriteAct ℕ) :=
  [.own none 0, .own none 0, .own none 0, .other 1 (.link "q" 0), .own none 9,
    .other 1 (.create "r" true true (.symlink "p")), .own none 0]

def exampleWritten (data : Bytes) : Option (WriteState ℕ) :=
  run (writeStep 0 "p" data) ⟨exampleDirectory, .unlinking⟩ exampleWrite

theorem rewritten_file_is_own : exampleDirectory.entries "p" = some 0 ∧ ∃ s, exampleWritten "ab" = some s ∧
    ∃ i, 1 ≤ i ∧ s.dir.HasFile 0 i "ab" ∧ s.dir.entries "p" = some i := by
  have hothers : ∀ u a, WriteAct.other u a ∈ exampleWrite → u ≠ exampleDirectory.owner := by
    intro u a h
    simp only [exampleWrite, List.mem_cons, reduceCtorEq, WriteAct.other.injEq, List.not_mem_nil,
      false_or, or_false] at h
    obtain ⟨rfl, -⟩ | ⟨rfl, -⟩ := h <;> decide
  have hr : exampleWritten "ab" = some ⟨_, .returned none⟩ := rfl
  obtain ⟨i, hi, hfile, hnamed⟩ := written_file_is_own hr rfl
  exact ⟨rfl, _, hr, i, hi, hfile, hnamed rfl hothers⟩

end Runs

section TwoRuns

variable {υ : Type} (me : υ) (n₀ : ℕ)

/-- Two calls at the same place in their code, with a file in hand and as much left to write. -/
inductive Paired (i : ℕ) : Writer → Writer → Prop where
  | writing {rest rest' : Bytes} : rest.length = rest'.length → Paired i (.writing i rest) (.writing i rest')
  | abandoning (e : Errno) : Paired i (.abandoning i e) (.abandoning i e)
  | closing : Paired i (.closing i) (.closing i)
  | returned (err : Option WriteError) : Paired i (.returned err) (.returned err)

/-- Two runs that differ in what the call's own file holds, and in nothing else. -/
inductive Twin : WriteState υ → WriteState υ → Prop where
  | same {d : Directory υ} {w : Writer} : n₀ ≤ d.nodes.length → w.Early → Twin ⟨d, w⟩ ⟨d, w⟩
  | made {d d' : Directory υ} {w w' : Writer} {i : ℕ} {bytes bytes' : Bytes} : n₀ ≤ i → d.HasFile me i bytes →
      d'.HasFile me i bytes' → d.hide i = d'.hide i → Paired i w w' → Twin ⟨d, w⟩ ⟨d', w'⟩

variable {me n₀} [DecidableEq υ] {path data data' : Bytes} {s s' t : WriteState υ}

theorem Twin.own {fault : Option Errno} {n : ℕ} (hlen : data.length = data'.length) (hs : Twin me n₀ s s')
    (h : ownStep me path data s.dir fault n s.writer = some t) :
    ∃ t', ownStep me path data' s'.dir fault n s'.writer = some t' ∧ Twin me n₀ t t' := by
  cases hs with
  | @same d w hn hw =>
    have hearly (hw : w = .unlinking ∨ ∃ e, w = .rmdiring e) : Twin me n₀ t t := by
      obtain ⟨hd | hd, hearly⟩ := ownStep_early hw h
      · exact .same (hd ▸ hn) hearly
      · exact .same (hd ▸ hn) hearly
    cases w with
    | unlinking => exact ⟨t, h, hearly (Or.inl rfl)⟩
    | rmdiring e => exact ⟨t, h, hearly (Or.inr ⟨e, rfl⟩)⟩
    | creating =>
      simp only [ownStep] at h ⊢
      split at h <;> cases h
      · obtain ⟨-, rfl⟩ := Directory.create_ok (attempt_ok ‹_›)
        exact ⟨_, rfl, .made hn List.getElem?_concat_length List.getElem?_concat_length rfl (.writing hlen)⟩
      · exact ⟨_, rfl, .same hn trivial⟩
    | returned err => cases h
    | writing | abandoning | closing => exact hw.elim
  | @made d d' w w' i bytes bytes' hi hfile hfile' hhide hpaired =>
    cases hpaired with
    | @writing rest rest' hrest =>
      simp only [ownStep] at h ⊢
      split at h <;> cases h
      · exact ⟨_, rfl, .made hi hfile hfile' hhide (.abandoning _)⟩
      · refine ⟨_, rfl, .made hi (hfile.append _) (hfile'.append _) ?_ ?_⟩
        · rw [Directory.append_hide, Directory.append_hide, hhide]
        · have hdrop : (rest.drop (n + 1)).length = (rest'.drop (n + 1)).length := by
            rw [List.length_drop, List.length_drop, hrest]
          have hnil : rest.drop (n + 1) = [] ↔ rest'.drop (n + 1) = [] := by
            rw [← List.length_eq_zero_iff, hdrop, List.length_eq_zero_iff]
          simp only [hnil]
          split_ifs
          · exact .closing
          · exact .writing hdrop
    | abandoning e =>
      cases h
      exact ⟨_, rfl, .made hi hfile hfile' hhide (.returned _)⟩
    | closing =>
      cases h
      exact ⟨_, rfl, .made hi hfile hfile' hhide (.returned _)⟩
    | returned err => cases h

theorem Twin.other {u : υ} {a : Foreign} {e : Directory υ} (hs : Twin me n₀ s s') (hu : u ≠ me)
    (h : s.dir.foreign u a = some e) :
    ∃ e', s'.dir.foreign u a = some e' ∧ Twin me n₀ { s with dir := e } { s' with dir := e' } := by
  have hstep := Directory.foreign_inv h
  cases hs with
  | same hn hw => exact ⟨e, h, .same (hn.trans hstep.length_le) hw⟩
  | @made d d' w w' i bytes bytes' hi hfile hfile' hhide hpaired =>
    have hmap := Directory.foreign_hide hfile' hu a
    rw [← hhide, Directory.foreign_hide hfile hu a] at hmap
    dsimp only at h
    rw [h, Option.map_some] at hmap
    obtain ⟨e', he', heq⟩ := Option.map_eq_some_iff.mp hmap.symm
    exact ⟨e', he', .made hi (hstep.hasFile hu hfile)
      ((Directory.foreign_inv he').hasFile hu hfile') heq.symm hpaired⟩

theorem Twin.run {as : List (WriteAct υ)} (hlen : data.length = data'.length) (hs : Twin me n₀ s s')
    (hr : Transition.run (writeStep me path data) s as = some t) :
    ∃ t', Transition.run (writeStep me path data') s' as = some t' ∧ Twin me n₀ t t' := by
  induction as generalizing s s' with
  | nil =>
    cases hr
    exact ⟨s', rfl, hs⟩
  | cons b as ih =>
    obtain ⟨u, hu, hrest⟩ := run_cons hr
    have hnext : ∃ u', writeStep me path data' s' b = some u' ∧ Twin me n₀ u u' := by
      obtain ⟨fault, n, rfl, hown⟩ | ⟨v, a, e, rfl, hv, he, rfl⟩ := writeStep_inv hu
      · exact hs.own hlen hown
      · obtain ⟨e', he', htwin⟩ := hs.other hv he
        exact ⟨_, by simp [writeStep, hv, he'], htwin⟩
    obtain ⟨u', hu', htwin⟩ := hnext
    obtain ⟨t', ht', htwin'⟩ := ih htwin hrest
    exact ⟨t', by rw [Transition.run, hu']; exact ht', htwin'⟩

/-- What is written reaches no file but the call's own, whether it fails or not: with other data of the
same length, everything others can see and do is the same, and so is what the call returns. -/
theorem data_stays_in_own_file {d : Directory υ} {as : List (WriteAct υ)} (hlen : data.length = data'.length)
    (hr : Transition.run (writeStep me path data) ⟨d, .unlinking⟩ as = some t) :
    ∃ t', Transition.run (writeStep me path data') ⟨d, .unlinking⟩ as = some t' ∧
      (∀ err, t.writer = .returned err → t'.writer = .returned err) ∧
      (t'.dir = t.dir ∨ ∃ i, d.nodes.length ≤ i ∧ (∃ bytes, t.dir.HasFile me i bytes) ∧
        t'.dir.hide i = t.dir.hide i) := by
  have hstart : Twin me d.nodes.length ⟨d, .unlinking⟩ ⟨d, .unlinking⟩ := .same le_rfl trivial
  obtain ⟨t', ht', htwin⟩ := hstart.run hlen hr
  refine ⟨t', ht', ?_⟩
  cases htwin with
  | same hn hw => exact ⟨fun _ h ↦ h, Or.inl rfl⟩
  | @made d d' w w' i bytes bytes' hi hfile hfile' hhide hpaired =>
    refine ⟨?_, Or.inr ⟨i, hi, ⟨bytes, hfile⟩, hhide.symm⟩⟩
    intro err herr
    cases hpaired with
    | returned err' => exact herr
    | writing | abandoning | closing => cases herr

theorem other_data_written_alike : ∃ t, exampleWritten "cd" = some t ∧ t.writer = .returned none := by
  have hr : exampleWritten "ab" = some ⟨_, .returned none⟩ := rfl
  have hlen : (ofString "ab").length = (ofString "cd").length := by decide
  obtain ⟨t, ht, hreturned, -⟩ := data_stays_in_own_file hlen hr
  exact ⟨t, ht, hreturned none rfl⟩

end TwoRuns

end OtlpCollectorOidc.Render

import Mathlib.Logic.Basic
import Mathlib.Data.List.Basic
import Mathlib.Order.Basic

namespace OtlpCollectorOidc.Transition

variable {σ α : Type} (step : σ → α → Option σ)

/-- The state a list of actions leads to; none when one of them is not enabled. -/
def run : σ → List α → Option σ
  | s, [] => some s
  | s, a :: as => (step s a).bind (fun t ↦ run t as)

/-- Every step of a run is taken in a state that meets the condition. -/
def Along (C : σ → α → Prop) : σ → List α → Prop
  | _, [] => True
  | s, a :: as => C s a ∧ ∀ t, step s a = some t → Along C t as

def count (p : σ → α → Bool) : σ → List α → ℕ
  | _, [] => 0
  | s, a :: as => (if p s a then 1 else 0) + ((step s a).map (fun t ↦ count p t as)).getD 0

/-- What the steps of a run give off, in order. -/
def emitted {β : Type} (e : σ → α → σ → Option β) : σ → List α → List β
  | _, [] => []
  | s, a :: as => ((step s a).map (fun t ↦ (e s a t).toList ++ emitted e t as)).getD []

variable {step}

theorem run_cons {s u : σ} {a : α} {as : List α} (h : run step s (a :: as) = some u) :
    ∃ t, step s a = some t ∧ run step t as = some u := Option.bind_eq_some_iff.mp h

theorem run_append (s : σ) (as bs : List α) :
    run step s (as ++ bs) = (run step s as).bind (fun t ↦ run step t bs) := by
  induction as generalizing s with
  | nil => rfl
  | cons a as ih =>
    simp only [List.cons_append, run]
    cases step s a with
    | none => rfl
    | some t => exact ih t

theorem run_append_eq_some {s u : σ} {as bs : List α} (h : run step s (as ++ bs) = some u) :
    ∃ t, run step s as = some t ∧ run step t bs = some u := by
  rw [run_append] at h
  exact Option.bind_eq_some_iff.mp h

theorem run_trans {s t u : σ} {as bs : List α} (h : run step s as = some t)
    (h' : run step t bs = some u) : run step s (as ++ bs) = some u := by
  rw [run_append, h]
  exact h'

theorem Along.of_forall {C : σ → α → Prop} (h : ∀ s a, C s a) (s : σ) (as : List α) :
    Along step C s as := by
  induction as generalizing s with
  | nil => trivial
  | cons a as ih => exact ⟨h s a, fun t _ ↦ ih t⟩

theorem Along.of_mem {C : α → Prop} {as : List α} (h : ∀ a ∈ as, C a) (s : σ) :
    Along step (fun _ a ↦ C a) s as := by
  induction as generalizing s with
  | nil => trivial
  | cons a as ih =>
    exact ⟨h a List.mem_cons_self, fun t _ ↦ ih (fun b hb ↦ h b (List.mem_cons_of_mem a hb)) t⟩

theorem Along.and {C D : σ → α → Prop} {s : σ} {as : List α} (hc : Along step C s as)
    (hd : Along step D s as) : Along step (fun t a ↦ C t a ∧ D t a) s as := by
  induction as generalizing s with
  | nil => trivial
  | cons a as ih => exact ⟨⟨hc.1, hd.1⟩, fun t ht ↦ ih (hc.2 t ht) (hd.2 t ht)⟩

instance decidableAlong {C : σ → α → Prop} [∀ s a, Decidable (C s a)] :
    (s : σ) → (as : List α) → Decidable (Along step C s as)
  | _, [] => .isTrue trivial
  | s, a :: as =>
    match h : step s a with
    | none => decidable_of_iff (C s a) ⟨fun hc ↦ ⟨hc, fun _ ht ↦ nomatch h.symm.trans ht⟩, And.left⟩
    | some t =>
      have : Decidable (Along step C t as) := decidableAlong t as
      decidable_of_iff (C s a ∧ Along step C t as)
        ⟨fun hc ↦ ⟨hc.1, fun _ hu ↦ Option.some.inj (h.symm.trans hu) ▸ hc.2⟩, fun hc ↦ ⟨hc.1, hc.2 t h⟩⟩

/-- What every step that meets the condition preserves holds after every run
whose steps all meet it. -/
theorem invariant_along {C : σ → α → Prop} {P : σ → Prop}
    (hstep : ∀ s a t, P s → C s a → step s a = some t → P t) {s u : σ} {as : List α}
    (hs : P s) (hc : Along step C s as) (hr : run step s as = some u) : P u := by
  induction as generalizing s with
  | nil =>
    cases hr
    exact hs
  | cons a as ih =>
    obtain ⟨t, ht, hr'⟩ := run_cons hr
    exact ih (hstep s a t hs hc.1 ht) (hc.2 t ht) hr'

theorem invariant_run {P : σ → Prop} (hstep : ∀ s a t, P s → step s a = some t → P t)
    {s u : σ} {as : List α} (hs : P s) (hr : run step s as = some u) : P u :=
  invariant_along (C := fun _ _ ↦ True) (fun s a t h _ ht ↦ hstep s a t h ht) hs
    (Along.of_forall (fun _ _ ↦ trivial) s as) hr

/-- What every step preserves of a state and all that was given off before it holds after every run. -/
theorem invariant_emitted {β : Type} {e : σ → α → σ → Option β} {P : σ → List β → Prop}
    (hstep : ∀ s a t log, P s log → step s a = some t → P t (log ++ (e s a t).toList))
    {s u : σ} {log : List β} {as : List α} (hs : P s log) (hr : run step s as = some u) :
    P u (log ++ emitted step e s as) := by
  induction as generalizing s log with
  | nil =>
    cases hr
    simpa [emitted] using hs
  | cons a as ih =>
    obtain ⟨t, ht, hr'⟩ := run_cons hr
    have hlog := ih (hstep s a t log hs ht) hr'
    rw [List.append_assoc] at hlog
    simpa only [emitted, ht, Option.map_some, Option.getD_some] using hlog

/-- Each step of a run is taken in a state that a first part of it leads to. -/
theorem Along.of_reached {s₀ s : σ} {first : List α} (h : run step s₀ first = some s) (as : List α) :
    Along step (fun t _ ↦ ∃ bs, bs <+: first ++ as ∧ run step s₀ bs = some t) s as := by
  induction as generalizing first s with
  | nil => trivial
  | cons a as ih =>
    refine ⟨⟨first, List.prefix_append _ _, h⟩, ?_⟩
    intro t ht
    have hnext : run step s₀ (first ++ [a]) = some t := run_trans h (by rw [run, ht]; rfl)
    have hrest := ih hnext
    rw [List.append_assoc, List.singleton_append] at hrest
    exact hrest

/-- A step that cannot be taken any more is taken no more. -/
theorem count_eq_zero {p : σ → α → Bool} {P : σ → Prop} (hstep : ∀ s a t, P s → step s a = some t → P t)
    (hp : ∀ s a, P s → p s a = false) {s : σ} (hs : P s) (as : List α) : count step p s as = 0 := by
  induction as generalizing s with
  | nil => rfl
  | cons a as ih =>
    rw [count, hp s a hs]
    cases ht : step s a with
    | none => rfl
    | some t => simpa using ih (hstep s a t hs ht)

/-- A step that rules itself out is taken once at most. -/
theorem count_le_one {p : σ → α → Bool} {I P : σ → Prop} (hI : ∀ s a t, I s → step s a = some t → I t)
    (hP : ∀ s a t, P s → step s a = some t → P t) (hp : ∀ s a, P s → p s a = false)
    (hdone : ∀ s a t, I s → p s a = true → step s a = some t → P t) {s : σ} (hs : I s) (as : List α) :
    count step p s as ≤ 1 := by
  induction as generalizing s with
  | nil => exact Nat.zero_le 1
  | cons a as ih =>
    rw [count]
    cases ht : step s a with
    | none =>
      simp only [Option.map_none, Option.getD_none]
      split_ifs <;> omega
    | some t =>
      simp only [Option.map_some, Option.getD_some]
      split_ifs with ha
      · have hzero := count_eq_zero hP hp (hdone s a t hs ha ht) as
        omega
      · have hle := ih (hI s a t hs ht)
        omega

/-- An action that a rank allows at one value alone, and that raises it, is taken once at most. -/
theorem countP_le_one {β : Type} [Preorder β] (rank : σ → β) (b : β) {p : α → Bool}
    (hmono : ∀ s a t, step s a = some t → rank s ≤ rank t)
    (hp : ∀ s a t, p a = true → step s a = some t → rank s = b ∧ b < rank t) {s u : σ} {as : List α}
    (hr : run step s as = some u) : as.countP p ≤ 1 := by
  have hnone : ∀ {s : σ} {as : List α}, b < rank s → run step s as = some u → as.countP p = 0 := by
    intro s as
    induction as generalizing s with
    | nil => exact fun _ _ ↦ rfl
    | cons a as ih =>
      intro hb hr
      obtain ⟨t, ht, hr'⟩ := run_cons hr
      have ha : p a ≠ true := fun ha ↦ hb.ne (hp s a t ha ht).1.symm
      rw [List.countP_cons_of_neg ha]
      exact ih (hb.trans_le (hmono s a t ht)) hr'
  induction as generalizing s with
  | nil => exact Nat.zero_le 1
  | cons a as ih =>
    obtain ⟨t, ht, hr'⟩ := run_cons hr
    cases ha : p a with
    | false =>
      rw [List.countP_cons_of_neg (by simp [ha])]
      exact ih hr'
    | true =>
      have hzero := hnone (hp s a t ha ht).2 hr'
      rw [List.countP_cons_of_pos ha]
      omega

/-- Where each action of a kind lowers a rank that is not zero, and no other raises it, a run lowers it
by as many as it has of them. -/
theorem rank_le_sub (rank : σ → ℕ) {p : α → Bool} {C : σ → α → Prop} {P : σ → Prop}
    (hstep : ∀ s a t, P s → C s a → step s a = some t → P t ∧ rank t ≤ rank s - if p a then 1 else 0)
    {s u : σ} {as : List α} (hs : P s) (hc : Along step C s as) (hr : run step s as = some u) :
    rank u ≤ rank s - as.countP p := by
  induction as generalizing s with
  | nil =>
    cases hr
    simp
  | cons a as ih =>
    obtain ⟨t, ht, hr'⟩ := run_cons hr
    obtain ⟨hP, hle⟩ := hstep s a t hs hc.1 ht
    have hrest := ih hP (hc.2 t ht) hr'
    rw [List.countP_cons]
    omega

/-- Where each action of a kind lowers a rank and no other raises it, there are no more of them than the
rank allows. -/
theorem countP_add_le (rank : σ → ℕ) {p : α → Bool} (hmono : ∀ s a t, step s a = some t → rank t ≤ rank s)
    (hp : ∀ s a t, p a = true → step s a = some t → rank t < rank s) {s u : σ} {as : List α}
    (hr : run step s as = some u) : as.countP p + rank u ≤ rank s := by
  induction as generalizing s with
  | nil =>
    cases hr
    simp
  | cons a as ih =>
    obtain ⟨t, ht, hr'⟩ := run_cons hr
    have hrest := ih hr'
    cases ha : p a with
    | false =>
      have hle := hmono s a t ht
      rw [List.countP_cons_of_neg (by simp [ha])]
      omega
    | true =>
      have hlt := hp s a t ha ht
      rw [List.countP_cons_of_pos ha]
      omega

end OtlpCollectorOidc.Transition

import Mathlib.Logic.Basic
import Mathlib.Data.List.Basic

namespace OtlpCollectorOidc.Rules

variable {ρ : Type}

/-- The first rule of a table that is not kept. -/
inductive FirstBroken (kept : ρ → Prop) : List ρ → ρ → Prop where
  | here {r : ρ} {rs : List ρ} : ¬ kept r → FirstBroken kept (r :: rs) r
  | later {r x : ρ} {rs : List ρ} : kept x → FirstBroken kept rs r → FirstBroken kept (x :: rs) r

variable {kept : ρ → Prop}

theorem FirstBroken.not_nil {r : ρ} : ¬ FirstBroken kept [] r := by
  intro h
  cases h

theorem FirstBroken.broken {rs : List ρ} {r : ρ} (h : FirstBroken kept rs r) : ¬ kept r := by
  induction h with
  | here hr => exact hr
  | later _ _ ih => exact ih

theorem firstBroken_cons_of_kept {r x : ρ} {rs : List ρ} (hx : kept x) :
    FirstBroken kept (x :: rs) r ↔ FirstBroken kept rs r := by
  constructor
  · intro h
    cases h with
    | here hr => exact absurd hx hr
    | later _ h => exact h
  · exact FirstBroken.later hx

theorem firstBroken_cons_of_not {r x : ρ} {rs : List ρ} (hx : ¬ kept x) :
    FirstBroken kept (x :: rs) r ↔ r = x := by
  constructor
  · intro h
    cases h with
    | here _ => rfl
    | later hk _ => exact absurd hk hx
  · intro h
    rw [h]
    exact FirstBroken.here hx

theorem firstBroken_congr {kept' : ρ → Prop} {rs : List ρ} (h : ∀ x ∈ rs, kept x ↔ kept' x) {r : ρ} :
    FirstBroken kept rs r ↔ FirstBroken kept' rs r := by
  induction rs with
  | nil => exact iff_of_false FirstBroken.not_nil FirstBroken.not_nil
  | cons x rs ih =>
    have hx := h x List.mem_cons_self
    by_cases hk : kept x
    · rw [firstBroken_cons_of_kept hk, firstBroken_cons_of_kept (hx.mp hk)]
      exact ih (fun y hy ↦ h y (List.mem_cons_of_mem x hy))
    · rw [firstBroken_cons_of_not hk, firstBroken_cons_of_not (fun hk' ↦ hk (hx.mpr hk'))]

/-- Either every rule is kept, or there is a first that is not. -/
theorem forall_or_firstBroken (kept : ρ → Prop) (rs : List ρ) :
    (∀ x ∈ rs, kept x) ∨ ∃ r, FirstBroken kept rs r := by
  induction rs with
  | nil => exact Or.inl (by simp)
  | cons x rs ih =>
    by_cases hx : kept x
    · obtain hall | ⟨r, hr⟩ := ih
      · exact Or.inl (List.forall_mem_cons.mpr ⟨hx, hall⟩)
      · exact Or.inr ⟨r, .later hx hr⟩
    · exact Or.inr ⟨x, .here hx⟩

theorem firstBroken_map {ι : Type} {f : ι → ρ} {xs : List ι} {r : ρ} :
    FirstBroken kept (xs.map f) r ↔ ∃ x, FirstBroken (fun x ↦ kept (f x)) xs x ∧ r = f x := by
  constructor
  · intro h
    induction xs with
    | nil => exact absurd h FirstBroken.not_nil
    | cons x xs ih =>
      rw [List.map_cons] at h
      cases h with
      | here hr => exact ⟨x, FirstBroken.here hr, rfl⟩
      | later hx h =>
        obtain ⟨y, hy, rfl⟩ := ih h
        exact ⟨y, FirstBroken.later hx hy, rfl⟩
  · intro hx
    obtain ⟨x, hx, rfl⟩ := hx
    induction hx with
    | here hr => exact FirstBroken.here hr
    | later hx _ ih => exact FirstBroken.later hx ih

/-- A search for the first failing check finds the first broken rule when the
checks decide the rules. -/
theorem firstBroken_iff_find {check : ρ → Bool} {rs : List ρ} (h : ∀ x ∈ rs, check x = true ↔ ¬ kept x)
    {r : ρ} : FirstBroken kept rs r ↔ rs.find? check = some r := by
  induction rs with
  | nil => simp [FirstBroken.not_nil]
  | cons x rs ih =>
    have hx := h x List.mem_cons_self
    by_cases hk : kept x
    · have hc : ¬ check x = true := fun hc ↦ hx.mp hc hk
      rw [firstBroken_cons_of_kept hk, List.find?_cons_of_neg hc]
      exact ih (fun y hy ↦ h y (List.mem_cons_of_mem x hy))
    · rw [firstBroken_cons_of_not hk, List.find?_cons_of_pos (hx.mpr hk), Option.some.injEq]
      exact eq_comm

end OtlpCollectorOidc.Rules

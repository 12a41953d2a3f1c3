import Mathlib.Data.List.Induction
import Mathlib.Data.List.Nodup
import Mathlib.Logic.Function.Basic

namespace OtlpCollectorOidc.Grouping

variable {α κ ι : Type} [DecidableEq κ] [DecidableEq ι]

/-- The keys in the order they were first seen, and what was seen under each. A
key has been seen when something stands under it. -/
structure Groups (α κ : Type) where
  order : List κ := []
  members : κ → List α := fun _ ↦ []

def Groups.add (g : Groups α κ) (x : α) (k : κ) : Groups α κ where
  order := if (g.members k).isEmpty then g.order ++ [k] else g.order
  members := Function.update g.members k (g.members k ++ [x])

/-- Adds an element that has a key, and skips one that has none. -/
def Groups.see (key : α → Option κ) (g : Groups α κ) (x : α) : Groups α κ := ((key x).map (g.add x)).getD g

def group (key : α → Option κ) (xs : List α) : Groups α κ := xs.foldl (Groups.see key) {}

def Groups.Inv (g : Groups α κ) : Prop := g.order.Nodup ∧ ∀ k, k ∈ g.order ↔ g.members k ≠ []

theorem Groups.members_add_self (g : Groups α κ) (x : α) (k : κ) :
    (g.add x k).members k = g.members k ++ [x] :=
  Function.update_self k _ g.members

theorem Groups.members_add_ne (g : Groups α κ) (x : α) {j k : κ} (h : j ≠ k) :
    (g.add x k).members j = g.members j :=
  Function.update_of_ne h _ g.members

theorem Groups.order_add (g : Groups α κ) (x : α) (k : κ) :
    (g.add x k).order = g.order ++ if g.members k = [] then [k] else [] := by
  rw [Groups.add]
  cases g.members k <;> simp

theorem Groups.Inv.add {g : Groups α κ} (h : g.Inv) (x : α) (k : κ) : (g.add x k).Inv := by
  obtain ⟨hn, hm⟩ := h
  refine ⟨?_, ?_⟩
  · rw [Groups.order_add]
    split_ifs with hk
    · exact hn.append (List.nodup_singleton k) (List.disjoint_singleton.mpr (fun hc ↦ (hm k).mp hc hk))
    · rw [List.append_nil]
      exact hn
  · intro j
    rw [Groups.order_add, List.mem_append, hm j]
    by_cases hj : j = k
    · subst hj
      rw [Groups.members_add_self]
      by_cases hk : g.members j = []
      · simp [hk]
      · simp [hk]
    · rw [Groups.members_add_ne g x hj]
      split_ifs
      · simp [hj]
      · simp

theorem Groups.Inv.see {g : Groups α κ} (h : g.Inv) (key : α → Option κ) (x : α) : (g.see key x).Inv := by
  rw [Groups.see]
  cases key x with
  | none => exact h
  | some k => exact h.add x k

theorem inv_foldl (key : α → Option κ) (xs : List α) {g : Groups α κ} (h : g.Inv) :
    (xs.foldl (Groups.see key) g).Inv := by
  induction xs generalizing g with
  | nil => exact h
  | cons x xs ih => exact ih (h.see key x)

theorem inv_group (key : α → Option κ) (xs : List α) : (group key xs).Inv :=
  inv_foldl key xs ⟨List.nodup_nil, by simp⟩

theorem members_see (key : α → Option κ) (g : Groups α κ) (x : α) (k : κ) :
    (g.see key x).members k = g.members k ++ [x].filter (fun x ↦ key x = some k) := by
  rw [Groups.see]
  cases hx : key x with
  | none => simp [hx]
  | some j =>
    by_cases hj : k = j
    · subst hj
      simp [Groups.members_add_self, hx]
    · simp [Groups.members_add_ne g x hj, hx, Ne.symm hj]

theorem members_foldl (key : α → Option κ) (xs : List α) (g : Groups α κ) (k : κ) :
    (xs.foldl (Groups.see key) g).members k = g.members k ++ xs.filter (fun x ↦ key x = some k) := by
  induction xs generalizing g with
  | nil => simp
  | cons x xs ih =>
    rw [List.foldl_cons, ih, members_see, List.append_assoc, ← List.filter_append, List.singleton_append]

/-- Under a key stand the elements that have it, in their order. -/
theorem members_group (key : α → Option κ) (xs : List α) (k : κ) :
    (group key xs).members k = xs.filter (fun x ↦ key x = some k) := members_foldl key xs {} k

theorem mem_order_group {key : α → Option κ} {xs : List α} {k : κ} :
    k ∈ (group key xs).order ↔ ∃ x ∈ xs, key x = some k := by
  rw [(inv_group key xs).2 k, members_group]
  simp [List.filter_eq_nil_iff]

theorem nodup_order_group (key : α → Option κ) (xs : List α) : (group key xs).order.Nodup :=
  (inv_group key xs).1

theorem group_concat (key : α → Option κ) (xs : List α) (x : α) :
    group key (xs ++ [x]) = (group key xs).see key x := List.foldl_append

/-- Renaming keys without merging two of them keeps their order. -/
theorem order_group_map {key : α → Option κ} {f : κ → ι} {xs : List α}
    (hf : ∀ x ∈ xs, ∀ y ∈ xs, ∀ j k, key x = some j → key y = some k → f j = f k → j = k) :
    (group (fun x ↦ (key x).map f) xs).order = (group key xs).order.map f := by
  induction xs using List.reverseRecOn with
  | nil => rfl
  | append_singleton xs x ih =>
    have hxs : ∀ y ∈ xs, y ∈ xs ++ [x] := fun y hy ↦ List.mem_append_left [x] hy
    have ih' := ih (fun y hy z hz ↦ hf y (hxs y hy) z (hxs z hz))
    rw [group_concat, group_concat, Groups.see, Groups.see]
    cases hx : key x with
    | none => exact ih'
    | some k =>
      -- The renamed key is new exactly when the key is.
      have hm : (group (fun x ↦ (key x).map f) xs).members (f k) = (group key xs).members k := by
        rw [members_group, members_group]
        apply List.filter_congr
        intro y hy
        rw [decide_eq_decide, Option.map_eq_some_iff]
        constructor
        · rintro ⟨j, hj, he⟩
          rw [hj, hf y (hxs y hy) x (by simp) j k hj hx he]
        · exact fun hy ↦ ⟨k, hy, rfl⟩
      simp only [Option.map_some, Option.getD_some, Groups.order_add, ih', hm, List.map_append]
      split_ifs <;> rfl

end OtlpCollectorOidc.Grouping

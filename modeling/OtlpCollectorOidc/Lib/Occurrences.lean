import Mathlib.Data.List.Induction
import Mathlib.Data.List.Nodup

namespace OtlpCollectorOidc.Occurrences

variable {α κ : Type} (key : α → κ)

/-- An element after which none has its key. -/
def IsLast (xs : List α) (x : α) : Prop :=
  ∃ before after, xs = before ++ x :: after ∧ ∀ y ∈ after, key y ≠ key x

variable {key} {x y : α} {xs : List α}

theorem isLast_nil : ¬ IsLast key [] x := by
  rintro ⟨before, after, h, _⟩
  exact absurd h.symm (by simp)

theorem IsLast.mem (h : IsLast key xs x) : x ∈ xs := by
  obtain ⟨before, after, rfl, _⟩ := h
  simp

theorem isLast_concat : IsLast key (xs ++ [y]) x ↔ x = y ∨ IsLast key xs x ∧ key x ≠ key y := by
  constructor
  · rintro ⟨before, after, h, hlast⟩
    rcases List.eq_nil_or_concat after with rfl | ⟨after, z, rfl⟩
    · exact Or.inl (List.append_inj_right' h rfl |> List.cons.inj |>.1.symm)
    · have hsplit : xs ++ [y] = (before ++ x :: after) ++ [z] := by rw [h]; simp
      have hz : y = z := (List.cons.inj (List.append_inj_right' hsplit rfl)).1
      refine Or.inr ⟨⟨before, after, List.append_inj_left' hsplit rfl, fun w hw ↦ hlast w (by simp [hw])⟩, ?_⟩
      rw [hz]
      exact (hlast z (by simp)).symm
  · rintro (rfl | ⟨⟨before, after, rfl, hlast⟩, hne⟩)
    · exact ⟨xs, [], rfl, by simp⟩
    · refine ⟨before, after ++ [y], by simp, ?_⟩
      intro z hz
      rcases List.mem_append.mp hz with hz | hz
      · exact hlast z hz
      · rw [List.mem_singleton.mp hz]
        exact hne.symm

/-- Every key that occurs has a last occurrence. -/
theorem exists_isLast (h : y ∈ xs) : ∃ x, IsLast key xs x ∧ key x = key y := by
  induction xs using List.reverseRecOn with
  | nil => cases h
  | append_singleton xs z ih =>
    by_cases hkey : key z = key y
    · exact ⟨z, isLast_concat.mpr (Or.inl rfl), hkey⟩
    · rcases List.mem_append.mp h with h | h
      · obtain ⟨x, hx, hxy⟩ := ih h
        exact ⟨x, isLast_concat.mpr (Or.inr ⟨hx, fun hz ↦ hkey (hz.symm.trans hxy)⟩), hxy⟩
      · exact absurd (congrArg key (List.mem_singleton.mp h).symm) hkey

variable (key) in
/-- A list that has the last occurrence of every key, once. -/
structure KeepsLast (occs xs : List α) : Prop where
  nodup : (xs.map key).Nodup
  mem_iff : ∀ x, x ∈ xs ↔ IsLast key occs x

theorem keepsLast_nil : KeepsLast key [] ([] : List α) :=
  ⟨List.nodup_nil, fun _ ↦ iff_of_false List.not_mem_nil isLast_nil⟩

theorem KeepsLast.of_perm {occs ys : List α} (h : KeepsLast key occs xs) (hp : xs.Perm ys) :
    KeepsLast key occs ys :=
  ⟨(hp.map key).nodup_iff.mp h.nodup, fun x ↦ hp.mem_iff.symm.trans (h.mem_iff x)⟩

section Put

variable [DecidableEq κ]

variable (key) in
/-- Replaces the element of the same key in place, or appends. -/
def put (x : α) : List α → List α
  | [] => [x]
  | y :: ys => if key y = key x then x :: ys else y :: put x ys

theorem keys_put (x : α) (xs : List α) :
    (put key x xs).map key = if key x ∈ xs.map key then xs.map key else xs.map key ++ [key x] := by
  induction xs with
  | nil => simp [put]
  | cons y ys ih =>
    rw [put]
    by_cases hy : key y = key x
    · simp [hy]
    · have hmem : key x ∈ (y :: ys).map key ↔ key x ∈ ys.map key := by simp [Ne.symm hy]
      rw [if_neg hy, List.map_cons, ih]
      simp only [hmem]
      split_ifs
      · rfl
      · rfl

theorem nodup_put (x : α) (h : (xs.map key).Nodup) : ((put key x xs).map key).Nodup := by
  rw [keys_put]
  split_ifs with hx
  · exact h
  · refine List.nodup_append.mpr ⟨h, by simp, ?_⟩
    intro a ha b hb he
    rw [he, List.mem_singleton.mp hb] at ha
    exact hx ha

theorem mem_of_mem_put (h : y ∈ put key x xs) : y = x ∨ y ∈ xs := by
  induction xs with
  | nil => exact Or.inl (List.mem_singleton.mp h)
  | cons z zs ih =>
    rw [put] at h
    split_ifs at h
    · rcases List.mem_cons.mp h with rfl | h
      · exact Or.inl rfl
      · exact Or.inr (List.mem_cons_of_mem z h)
    · rcases List.mem_cons.mp h with rfl | h
      · exact Or.inr List.mem_cons_self
      · exact (ih h).imp_right (List.mem_cons_of_mem z)

theorem self_mem_put (x : α) (xs : List α) : x ∈ put key x xs := by
  induction xs with
  | nil => exact List.mem_singleton_self x
  | cons y ys ih =>
    rw [put]
    split_ifs
    · exact List.mem_cons_self
    · exact List.mem_cons_of_mem y ih

theorem mem_put_of_ne (hne : key y ≠ key x) (h : y ∈ xs) : y ∈ put key x xs := by
  induction xs with
  | nil => cases h
  | cons z zs ih =>
    rw [put]
    rcases List.mem_cons.mp h with rfl | h
    · rw [if_neg hne]
      exact List.mem_cons_self
    · split_ifs
      · exact List.mem_cons_of_mem x h
      · exact List.mem_cons_of_mem z (ih h)

/-- Where no key stands twice, nothing else of the key is left. -/
theorem mem_put (h : (xs.map key).Nodup) : y ∈ put key x xs ↔ y = x ∨ y ∈ xs ∧ key y ≠ key x := by
  constructor
  · intro hy
    by_cases hkey : key y = key x
    · exact Or.inl (List.inj_on_of_nodup_map (nodup_put x h) hy (self_mem_put x xs) hkey)
    · exact (mem_of_mem_put hy).imp_right (fun hy ↦ ⟨hy, hkey⟩)
  · rintro (rfl | ⟨hy, hne⟩)
    · exact self_mem_put y xs
    · exact mem_put_of_ne hne hy

theorem put_of_notMem (h : key x ∉ xs.map key) : put key x xs = xs ++ [x] := by
  induction xs with
  | nil => rfl
  | cons y ys ih =>
    rw [List.map_cons] at h
    obtain ⟨hy, hys⟩ := List.ne_and_not_mem_of_not_mem_cons h
    rw [put, if_neg hy.symm, ih hys, List.cons_append]

theorem KeepsLast.put {occs : List α} (h : KeepsLast key occs xs) (x : α) :
    KeepsLast key (occs ++ [x]) (put key x xs) :=
  ⟨nodup_put x h.nodup, fun y ↦ by rw [mem_put h.nodup, isLast_concat, h.mem_iff]⟩

end Put

end OtlpCollectorOidc.Occurrences

import Mathlib.Data.List.AList

namespace OtlpCollectorOidc.Maps

theorem ne_of_nodup_map {ι κ : Type} {f : ι → κ} {xs ys : List ι} {x y : ι}
    (h : ((xs ++ x :: ys).map f).Nodup) (hy : y ∈ ys) : f y ≠ f x := by
  rw [List.map_append, List.nodup_append, List.map_cons, List.nodup_cons] at h
  intro he
  exact h.2.1.1 (List.mem_map.mpr ⟨y, hy, he⟩)

variable {α β : Type} [DecidableEq α]

/-- Assigns the pairs in order, a later one over an earlier one of the same key. -/
def insertAll (kvs : List (α × β)) (m : AList (fun _ : α ↦ β)) : AList (fun _ : α ↦ β) :=
  kvs.foldl (fun m kv ↦ m.insert kv.1 kv.2) m

theorem insertAll_append (xs ys : List (α × β)) (m : AList (fun _ : α ↦ β)) :
    insertAll (xs ++ ys) m = insertAll ys (insertAll xs m) := List.foldl_append

theorem lookup_insertAll_of_notMem {kvs : List (α × β)} {a : α} (h : ∀ kv ∈ kvs, kv.1 ≠ a)
    (m : AList (fun _ : α ↦ β)) : (insertAll kvs m).lookup a = m.lookup a := by
  induction kvs generalizing m with
  | nil => rfl
  | cons kv kvs ih =>
    have hk : a ≠ kv.1 := (h kv List.mem_cons_self).symm
    calc
      (insertAll kvs (m.insert kv.1 kv.2)).lookup a = (m.insert kv.1 kv.2).lookup a :=
        ih (fun x hx ↦ h x (List.mem_cons_of_mem _ hx)) _
      _ = m.lookup a := AList.lookup_insert_ne hk

/-- When all pairs of a key agree, their order does not matter. -/
theorem lookup_insertAll_of_agree {kvs : List (α × β)} {a : α} {b : β}
    (h : ∀ kv ∈ kvs, kv.1 = a → kv.2 = b) (m : AList (fun _ : α ↦ β))
    (hm : (∃ kv ∈ kvs, kv.1 = a) ∨ m.lookup a = some b) : (insertAll kvs m).lookup a = some b := by
  induction kvs generalizing m with
  | nil =>
    obtain ⟨kv, hkv, _⟩ | hm := hm
    · cases hkv
    · exact hm
  | cons kv kvs ih =>
    apply ih (fun x hx ↦ h x (List.mem_cons_of_mem _ hx))
    by_cases hk : kv.1 = a
    · right
      have hb := h kv List.mem_cons_self hk
      rw [← hb, ← hk]
      exact AList.lookup_insert m
    · obtain ⟨x, hx, hxa⟩ | hm := hm
      · left
        obtain rfl | hx := List.mem_cons.mp hx
        · exact absurd hxa hk
        · exact ⟨x, hx, hxa⟩
      · right
        rw [AList.lookup_insert_ne (Ne.symm hk)]
        exact hm

/-- Pairs with the same keys and related values leave related values. -/
theorem lookup_insertAll_rel {γ : Type} {R : β → γ → Prop} {kvs : List (α × β)} {kws : List (α × γ)}
    (h : List.Forall₂ (fun x y ↦ x.1 = y.1 ∧ R x.2 y.2) kvs kws) {m : AList (fun _ : α ↦ β)}
    {n : AList (fun _ : α ↦ γ)} (hm : ∀ a, Option.Rel R (m.lookup a) (n.lookup a)) (a : α) :
    Option.Rel R ((insertAll kvs m).lookup a) ((insertAll kws n).lookup a) := by
  induction h generalizing m n with
  | nil => exact hm a
  | @cons x y kvs kws hxy _ ih =>
    obtain ⟨hkey, hR⟩ := hxy
    refine ih fun b ↦ ?_
    by_cases hb : b = x.1
    · rw [hb, AList.lookup_insert, hkey, AList.lookup_insert]
      exact .some hR
    · rw [AList.lookup_insert_ne hb, AList.lookup_insert_ne (hkey ▸ hb)]
      exact hm b

theorem lookup_insertAll_last (kvs : List (α × β)) (a : α) (b : β) (m : AList (fun _ : α ↦ β)) :
    (insertAll (kvs ++ [(a, b)]) m).lookup a = some b := by
  rw [insertAll_append]
  exact AList.lookup_insert _

inductive Edit (α β : Type) where
  | delete (a : α)
  | upsert (a : α) (b : β)

def Edit.key : Edit α β → α
  | .delete a => a
  | .upsert a _ => a

def Edit.result : Edit α β → Option β
  | .delete _ => none
  | .upsert _ b => some b

def Edit.apply (m : AList (fun _ : α ↦ β)) : Edit α β → AList (fun _ : α ↦ β)
  | .delete a => m.erase a
  | .upsert a b => m.insert a b

def applyEdits (es : List (Edit α β)) (m : AList (fun _ : α ↦ β)) : AList (fun _ : α ↦ β) :=
  es.foldl Edit.apply m

theorem Edit.lookup_apply_key (m : AList (fun _ : α ↦ β)) (e : Edit α β) :
    (e.apply m).lookup e.key = e.result := by
  cases e with
  | delete a => exact AList.lookup_erase a m
  | upsert a b => exact AList.lookup_insert m

theorem Edit.lookup_apply_ne (m : AList (fun _ : α ↦ β)) (e : Edit α β) {a : α} (h : e.key ≠ a) :
    (e.apply m).lookup a = m.lookup a := by
  cases e with
  | delete x => exact AList.lookup_erase_ne (Ne.symm h)
  | upsert x b => exact AList.lookup_insert_ne (Ne.symm h)

/-- Edits leave every key they do not name. -/
theorem lookup_applyEdits_of_notMem {es : List (Edit α β)} {a : α} (h : ∀ e ∈ es, e.key ≠ a)
    (m : AList (fun _ : α ↦ β)) : (applyEdits es m).lookup a = m.lookup a := by
  induction es generalizing m with
  | nil => rfl
  | cons e es ih =>
    calc
      (applyEdits es (e.apply m)).lookup a = (e.apply m).lookup a :=
        ih (fun x hx ↦ h x (List.mem_cons_of_mem _ hx)) _
      _ = m.lookup a := e.lookup_apply_ne m (h e List.mem_cons_self)

/-- The last edit of a key decides what stands there. -/
theorem lookup_applyEdits_last (es : List (Edit α β)) (e : Edit α β) {fs : List (Edit α β)}
    (h : ∀ f ∈ fs, f.key ≠ e.key) (m : AList (fun _ : α ↦ β)) :
    (applyEdits (es ++ e :: fs) m).lookup e.key = e.result := by
  have ha : applyEdits (es ++ e :: fs) m = applyEdits fs (e.apply (applyEdits es m)) := by
    simp [applyEdits, List.foldl_append]
  rw [ha, lookup_applyEdits_of_notMem h]
  exact e.lookup_apply_key _

/-- Upserts of distinct keys all take effect. -/
theorem lookup_applyEdits_upserts {ι : Type} {key : ι → α} {val : ι → β} {xs : List ι}
    (hn : (xs.map key).Nodup) {x : ι} (hx : x ∈ xs) (es : List (Edit α β)) (m : AList (fun _ : α ↦ β)) :
    (applyEdits (es ++ xs.map (fun x ↦ .upsert (key x) (val x))) m).lookup (key x) = some (val x) := by
  obtain ⟨before, after, rfl⟩ := List.append_of_mem hx
  have hafter : ∀ e ∈ after.map (fun x ↦ (.upsert (key x) (val x) : Edit α β)), e.key ≠ key x := by
    intro e he heq
    obtain ⟨y, hy, rfl⟩ := List.mem_map.mp he
    exact ne_of_nodup_map hn hy heq
  rw [List.map_append, List.map_cons, ← List.append_assoc]
  exact lookup_applyEdits_last _ (.upsert (key x) (val x)) hafter m

/-- The entries of a map as one of the orders `range` may yield them. -/
def Reordering (m n : AList (fun _ : α ↦ β)) : Prop := m.entries.Perm n.entries

theorem Reordering.lookup {m n : AList (fun _ : α ↦ β)} (h : Reordering m n) (a : α) :
    m.lookup a = n.lookup a := AList.perm_lookup h

theorem lookup_eq_some_iff {m : AList (fun _ : α ↦ β)} {a : α} {b : β} :
    m.lookup a = some b ↔ ⟨a, b⟩ ∈ m.entries := AList.mem_lookup_iff

/-- Every entry comes last in some order of its map. -/
theorem exists_reordering_last (m : AList (fun _ : α ↦ β)) {a : α} {b : β} (h : m.lookup a = some b) :
    ∃ n : AList (fun _ : α ↦ β), Reordering n m ∧ ∃ xs, n.entries = xs ++ [⟨a, b⟩] := by
  obtain ⟨xs, ys, he⟩ := List.append_of_mem (lookup_eq_some_iff.mp h)
  have hp : List.Perm (xs ++ ys ++ [⟨a, b⟩]) m.entries := by
    rw [he, List.append_assoc]
    exact List.Perm.append_left xs (List.perm_append_singleton _ _)
  let n : AList (fun _ : α ↦ β) :=
    ⟨xs ++ ys ++ [⟨a, b⟩], (List.perm_nodupKeys hp).mpr m.nodupKeys⟩
  exact ⟨n, hp, xs ++ ys, rfl⟩

def keepKeys (keys : List α) (m : AList (fun _ : α ↦ β)) : AList (fun _ : α ↦ β) where
  entries := m.entries.filter (fun e ↦ e.1 ∈ keys)
  nodupKeys := List.NodupKeys.sublist List.filter_sublist m.nodupKeys

theorem lookup_keepKeys (keys : List α) (m : AList (fun _ : α ↦ β)) (a : α) :
    (keepKeys keys m).lookup a = if a ∈ keys then m.lookup a else none := by
  ext b
  rw [lookup_eq_some_iff, keepKeys, List.mem_filter, decide_eq_true_eq]
  split_ifs with h
  · rw [lookup_eq_some_iff]
    exact ⟨And.left, fun hm ↦ ⟨hm, h⟩⟩
  · exact ⟨fun hm ↦ absurd hm.2 h, fun hm ↦ by cases hm⟩

theorem keepKeys_nil (m : AList (fun _ : α ↦ β)) : keepKeys [] m = ∅ :=
  AList.ext (List.filter_eq_nil_iff.mpr (by simp))

end OtlpCollectorOidc.Maps

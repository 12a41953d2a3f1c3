import Mathlib.Logic.Basic
import Mathlib.Data.List.Nodup
import Mathlib.Data.List.Pairwise

namespace OtlpCollectorOidc.Validation

/-- A value, or every error that was found on the way to it. -/
structure Validated (ε α : Type) where
  errors : List ε
  value : Option α
  complete : value.isSome = true ↔ errors = []

variable {ε δ α β : Type}

namespace Validated

def ok (a : α) : Validated ε α := ⟨[], some a, by simp⟩

def fail (es : List ε) (h : es ≠ []) : Validated ε α := ⟨es, none, by simp [h]⟩

def ofExcept : Except ε α → Validated ε α
  | .ok a => ok a
  | .error e => fail [e] (List.cons_ne_nil e [])

def mapErrors (f : ε → δ) (x : Validated ε α) : Validated δ α :=
  ⟨x.errors.map f, x.value, by simp [x.complete]⟩

/-- Applies one to the other, keeping the errors of both. -/
def ap (f : Validated ε (α → β)) (x : Validated ε α) : Validated ε β where
  errors := f.errors ++ x.errors
  value := f.value.bind (fun g ↦ x.value.map g)
  complete := by
    rw [List.append_eq_nil_iff, ← f.complete, ← x.complete]
    cases f.value <;> cases x.value <;> simp

/-- A rule that means something only once there is a value. -/
def check (rule : α → List ε) (x : Validated ε α) : Validated ε α where
  errors := x.errors ++ (x.value.map rule).getD []
  value := x.value.filter (fun a ↦ (rule a).isEmpty)
  complete := by
    have hx := x.complete
    cases h : x.value with
    | none => simp_all
    | some a =>
      rw [h] at hx
      by_cases hr : rule a = [] <;> simp_all

instance : Seq (Validated ε) := ⟨fun f x ↦ f.ap (x ())⟩

@[simp] theorem errors_ok (a : α) : (ok a : Validated ε α).errors = [] := rfl

@[simp] theorem errors_seq (f : Validated ε (α → β)) (x : Validated ε α) :
    (f <*> x).errors = f.errors ++ x.errors := rfl

@[simp] theorem errors_check (rule : α → List ε) (x : Validated ε α) :
    (x.check rule).errors = x.errors ++ (x.value.map rule).getD [] := rfl

@[simp] theorem errors_mapErrors (f : ε → δ) (x : Validated ε α) :
    (x.mapErrors f).errors = x.errors.map f := rfl

theorem value_ok {a b : α} : (ok a : Validated ε α).value = some b ↔ a = b := Option.some_inj

theorem value_mapErrors (f : ε → δ) (x : Validated ε α) : (x.mapErrors f).value = x.value := rfl

theorem value_seq {f : Validated ε (α → β)} {x : Validated ε α} {b : β} :
    (f <*> x).value = some b ↔ ∃ g a, f.value = some g ∧ x.value = some a ∧ g a = b := by
  change (f.value.bind (fun g ↦ x.value.map g)) = some b ↔ _
  simp only [Option.bind_eq_some_iff, Option.map_eq_some_iff]
  constructor
  · rintro ⟨g, hg, a, ha, he⟩
    exact ⟨g, a, hg, ha, he⟩
  · rintro ⟨g, a, hg, ha, he⟩
    exact ⟨g, hg, a, ha, he⟩

theorem value_check {rule : α → List ε} {x : Validated ε α} {a : α} :
    (x.check rule).value = some a ↔ x.value = some a ∧ rule a = [] := by
  simp [check, Option.filter_eq_some_iff]

theorem value_eq_none {x : Validated ε α} : x.value = none ↔ x.errors ≠ [] := by
  rw [Ne, ← x.complete]
  cases x.value <;> simp

end Validated

/-- A rule that complains of one thing complains of that thing. -/
theorem eq_of_mem_complaint {p : Prop} [Decidable p] {x e : ε} (h : e ∈ if p then [x] else []) : e = x := by
  split_ifs at h
  · exact List.mem_singleton.mp h
  · cases h

/-- Where each source gives at most one error, no text stands twice when no two sources give the same. -/
theorem nodup_texts_iff {σ τ : Type} (text : ε → τ) {f : σ → List ε} {xs : List σ} (hxs : xs.Nodup)
    (hf : ∀ x ∈ xs, (f x).length ≤ 1) :
    ((xs.flatMap f).map text).Nodup ↔
      ∀ x ∈ xs, ∀ y ∈ xs, ∀ e ∈ f x, ∀ e' ∈ f y, text e = text e' → x = y := by
  rw [List.map_flatMap, List.nodup_flatMap]
  constructor
  · rintro ⟨_, hdisjoint⟩ x hx y hy e he e' he' ht
    by_contra hne
    have : Std.Symm (Function.onFun List.Disjoint (fun x ↦ (f x).map text)) := ⟨fun _ _ h _ ht ht' ↦ h ht' ht⟩
    exact hdisjoint.forall hx hy hne (List.mem_map_of_mem he) (ht ▸ List.mem_map_of_mem he')
  · intro h
    refine ⟨?_, hxs.pairwise_of_forall_ne ?_⟩
    · intro x hx
      have hlen := hf x hx
      match hfx : f x with
      | [] => exact List.nodup_nil
      | [e] => exact List.nodup_singleton _
      | _ :: _ :: _ => simp [hfx] at hlen
    · intro x hx y hy hne t ht ht'
      obtain ⟨e, he, rfl⟩ := List.mem_map.mp ht
      obtain ⟨e', he', hee'⟩ := List.mem_map.mp ht'
      exact hne (h x hx y hy e he e' he' hee'.symm)

end OtlpCollectorOidc.Validation

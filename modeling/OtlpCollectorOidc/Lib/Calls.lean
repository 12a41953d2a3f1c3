import Mathlib.Data.List.Basic
import Mathlib.Tactic.Cases

namespace OtlpCollectorOidc

/-- A program of calls that may fail: the calls it makes and what it returns, by what each call fails with. -/
@[ext] structure Calls (κ ε α : Type) where
  under : (κ → Option ε) → List κ × Except ε α

namespace Calls

variable {κ ε α β γ : Type}

/-- The first failure is the last call's. -/
def andThen (x : Calls κ ε α) (f : α → Calls κ ε β) : Calls κ ε β :=
  ⟨fun fails ↦ match (x.under fails).2 with
    | .ok a => ((x.under fails).1 ++ ((f a).under fails).1, ((f a).under fails).2)
    | .error e => ((x.under fails).1, .error e)⟩

instance : Monad (Calls κ ε) where
  pure a := ⟨fun _ ↦ ([], .ok a)⟩
  bind := andThen

/-- A call whose failure is returned, wrapped. -/
def call (k : κ) (wrap : ε → ε) : Calls κ ε Unit :=
  ⟨fun fails ↦ ([k], match fails k with
    | some e => .error (wrap e)
    | none => .ok ())⟩

/-- A call whose failure is the caller's to look at. -/
def tried (k : κ) : Calls κ ε (Option ε) := ⟨fun fails ↦ ([k], .ok (fails k))⟩

def fail (e : ε) : Calls κ ε α := ⟨fun _ ↦ ([], .error e)⟩

/-- A call that is made on the way out, however the rest returns. -/
def deferred (k : κ) (x : Calls κ ε α) : Calls κ ε α :=
  ⟨fun fails ↦ ((x.under fails).1 ++ [k], (x.under fails).2)⟩

section Laws

variable {x : Calls κ ε α} {fails : κ → Option ε}

theorem pure_under (a : α) : (pure a : Calls κ ε α).under fails = ([], .ok a) := rfl

theorem bind_ok {a : α} (h : (x.under fails).2 = .ok a) (f : α → Calls κ ε β) :
    (x >>= f).under fails = ((x.under fails).1 ++ ((f a).under fails).1, ((f a).under fails).2) := by
  change (andThen x f).under fails = _
  simp only [andThen, h]

theorem bind_error {e : ε} (h : (x.under fails).2 = .error e) (f : α → Calls κ ε β) :
    (x >>= f).under fails = ((x.under fails).1, .error e) := by
  change (andThen x f).under fails = _
  simp only [andThen, h]

instance : LawfulMonad (Calls κ ε) := by
  refine LawfulMonad.mk' _ ?_ (fun _ _ ↦ rfl) ?_
  · intro α x
    ext1
    funext fails
    change (x >>= pure).under fails = _
    cases hx : (x.under fails).2 with
    | error e => rw [bind_error hx, ← hx]
    | ok a => rw [bind_ok hx, pure_under, List.append_nil, ← hx]
  · intro α β γ x f g
    ext1
    funext fails
    cases hx : (x.under fails).2 with
    | error e =>
      have hfirst : ((x >>= f).under fails).2 = .error e := by rw [bind_error hx]
      rw [bind_error hfirst, bind_error hx, bind_error hx]
    | ok a =>
      cases hf : ((f a).under fails).2 with
      | error e =>
        have hfirst : ((x >>= f).under fails).2 = .error e := by rw [bind_ok hx, hf]
        rw [bind_error hfirst, bind_ok hx, bind_ok hx, bind_error hf]
      | ok b =>
        have hfirst : ((x >>= f).under fails).2 = .ok b := by rw [bind_ok hx, hf]
        rw [bind_ok hfirst, bind_ok hx, bind_ok hx, bind_ok hf, List.append_assoc]

theorem call_error {k : κ} {e : ε} (h : fails k = some e) (wrap : ε → ε) :
    (call k wrap).under fails = ([k], .error (wrap e)) := by
  simp only [call, h]

theorem call_ok {k : κ} (h : fails k = none) (wrap : ε → ε) : (call k wrap).under fails = ([k], .ok ()) := by
  simp only [call, h]

end Laws

section Plan

variable (describe : κ → ε → ε)

/-- The calls of a plan in their order, up to the first that fails. -/
def perform : List κ → Calls κ ε Unit
  | [] => pure ()
  | k :: ks => do
    call k (describe k)
    perform ks

theorem perform_append (ks ks' : List κ) :
    perform describe (ks ++ ks') = perform describe ks >>= fun _ ↦ perform describe ks' := by
  induction ks with
  | nil => rfl
  | cons k ks ih => rw [List.cons_append, perform, perform, ih, bind_assoc]

theorem perform_singleton (k : κ) : perform describe [k] = call k (describe k) := by
  rw [perform, perform]
  exact bind_pure (call k (describe k))

theorem forM_call (f : γ → κ) (xs : List γ) :
    xs.forM (fun x ↦ call (f x) (describe (f x))) = perform describe (xs.map f) := by
  induction xs with
  | nil => rfl
  | cons x xs ih =>
    rw [List.map_cons, perform, ← ih]
    rfl

/-- A plan is carried out, or up to the first call that fails, which is the last that is made. -/
theorem perform_cases (fails : κ → Option ε) (ks : List κ) :
    (∀ k ∈ ks, fails k = none) ∧ (perform describe ks).under fails = (ks, .ok ()) ∨
      ∃ before k after e, ks = before ++ k :: after ∧ (∀ k' ∈ before, fails k' = none) ∧ fails k = some e ∧
        (perform describe ks).under fails = (before ++ [k], .error (describe k e)) := by
  induction ks with
  | nil => exact Or.inl ⟨by simp, rfl⟩
  | cons k ks ih =>
    cases hk : fails k with
    | some e =>
      refine Or.inr ⟨[], k, ks, e, rfl, by simp, hk, ?_⟩
      rw [perform, bind_error (by rw [call_error hk]), call_error hk]
      rfl
    | none =>
      have hfirst : (perform describe (k :: ks)).under fails =
          (k :: ((perform describe ks).under fails).1, ((perform describe ks).under fails).2) := by
        rw [perform, bind_ok (by rw [call_ok hk]), call_ok hk]
        rfl
      obtain ⟨hall, hunder⟩ | ⟨before, k', after, e, rfl, hbefore, hk', hunder⟩ := ih
      · refine Or.inl ⟨List.forall_mem_cons.mpr ⟨hk, hall⟩, ?_⟩
        rw [hfirst, hunder]
      · refine Or.inr ⟨k :: before, k', after, e, rfl, List.forall_mem_cons.mpr ⟨hk, hbefore⟩, hk', ?_⟩
        rw [hfirst, hunder]
        rfl

/-- A call that is not of the first part of a plan comes after all of it. -/
theorem first_before {p earlier later : List κ} {k : κ} (hp : ∃ l, p <+: l ∧ earlier ++ k :: later <+: l)
    (hk : k ∉ p) : p <+: earlier := by
  obtain ⟨l, hpl, hl⟩ := hp
  have hearlier : earlier ++ [k] <+: l := by
    rw [List.append_cons] at hl
    exact (List.prefix_append _ _).trans hl
  obtain hshort | hlong := Nat.lt_or_ge earlier.length p.length
  · have hwithin : earlier ++ [k] <+: p :=
      List.prefix_of_prefix_length_le hearlier hpl (by rw [List.length_append]; exact hshort)
    exact absurd (hwithin.subset (by simp)) hk
  · exact List.prefix_of_prefix_length_le hpl ((List.prefix_append _ _).trans hearlier) hlong

end Plan

end Calls

end OtlpCollectorOidc

import OtlpCollectorOidc.Lib.Text
import Mathlib.Logic.Relation

namespace OtlpCollectorOidc

open Text

/-- A Go error and those it unwraps to. What wraps nothing is a leaf; the text of a join may be any, as
`fmt.Errorf` gives it. -/
inductive ErrorTree where
  | leaf (text : Bytes)
  | wrap (text : Bytes) (inner : ErrorTree)
  | join (text : Bytes) (errs : List ErrorTree)

namespace ErrorTree

def text : ErrorTree → Bytes
  | leaf text => text
  | wrap text _ => text
  | join text _ => text

inductive Unwraps : ErrorTree → ErrorTree → Prop
  | wrap (text : Bytes) (inner : ErrorTree) : Unwraps (.wrap text inner) inner
  | join (text : Bytes) {errs : List ErrorTree} {e : ErrorTree} (he : e ∈ errs) : Unwraps (.join text errs) e

theorem Unwraps.sizeOf_lt {e e' : ErrorTree} (h : Unwraps e e') : sizeOf e' < sizeOf e := by
  cases h with
  | wrap text inner =>
    simp only [wrap.sizeOf_spec]
    omega
  | join text he =>
    have hlt := List.sizeOf_lt_of_mem he
    simp only [join.sizeOf_spec]
    omega

theorem wellFounded_unwraps : WellFounded (flip Unwraps) :=
  Subrelation.wf (fun h ↦ h.sizeOf_lt) (measure sizeOf).wf

end ErrorTree

section Walk

variable {α : Type} {step : α → α → Prop} {f good : α → Prop}

/-- What holds of a node when it is good and the same holds after each step says that all a walk meets
is good. -/
theorem iff_forall_reachable (hwf : WellFounded (flip step))
    (hf : ∀ a, f a ↔ good a ∧ ∀ b, step a b → f b) (a : α) :
    f a ↔ ∀ b, Relation.ReflTransGen step a b → good b := by
  constructor
  · intro ha b hab
    have hb : f b := by
      induction hab with
      | refl => exact ha
      | tail _ hstep ih => exact ((hf _).mp ih).2 _ hstep
    exact ((hf b).mp hb).1
  · induction a using hwf.induction with
    | h a ih =>
      intro hgood
      refine (hf a).mpr ⟨hgood a .refl, ?_⟩
      intro b hab
      exact ih b hab (fun c hbc ↦ hgood c (hbc.head hab))

end Walk

end OtlpCollectorOidc

import Mathlib.Data.ENat.Basic
import OtlpCollectorOidc.Lib.Transition

namespace OtlpCollectorOidc

open Transition

/-- A `sync.Once`, by where the function it runs stands and what that function leaves. -/
inductive Once (σ ρ : Type) where
  | fresh
  | running (stage : σ)
  | done (result : ρ)
  deriving DecidableEq

namespace Once

variable {σ ρ : Type} {number : σ → ℕ}

/-- What a step may do to it, where the stages of its function are numbered in their order. -/
inductive Moves (number : σ → ℕ) : Once σ ρ → Once σ ρ → Prop where
  | stay (o : Once σ ρ) : Moves number o o
  | begins (p : σ) : Moves number .fresh (.running p)
  | advances {p q : σ} : number p < number q → Moves number (.running p) (.running q)
  | ends (p : σ) (r : ρ) : Moves number (.running p) (.done r)

def isFresh : Once σ ρ → Bool
  | fresh => true
  | _ => false

def isRunning : Once σ ρ → Bool
  | running _ => true
  | _ => false

@[simp] theorem isFresh_iff {o : Once σ ρ} : o.isFresh = true ↔ o = .fresh := by
  cases o <;> simp [isFresh]

@[simp] theorem isRunning_running (p : σ) : (running p : Once σ ρ).isRunning = true := rfl

@[simp] theorem isRunning_fresh : (fresh : Once σ ρ).isRunning = false := rfl

@[simp] theorem isRunning_done (r : ρ) : (done r : Once σ ρ).isRunning = false := rfl

def rank (number : σ → ℕ) : Once σ ρ → ℕ∞
  | fresh => 0
  | running p => (number p + 1 : ℕ)
  | done _ => ⊤

theorem Moves.rank_le {o o' : Once σ ρ} (h : Moves number o o') : o.rank number ≤ o'.rank number := by
  cases h with
  | stay => exact le_rfl
  | begins => exact zero_le
  | advances h => exact Nat.cast_le.mpr (Nat.succ_le_succ h.le)
  | ends => exact le_top

/-- It ends once, with the one result. -/
theorem Moves.done {o o' : Once σ ρ} {r : ρ} (h : Moves number o o') (hdone : o = .done r) :
    o' = .done r := by
  subst hdone
  cases h
  rfl

variable {S α : Type} {step : S → α → Option S} {view : S → Once σ ρ}

theorem done_run (hstep : ∀ s a t, step s a = some t → Moves number (view s) (view t)) {s u : S}
    {as : List α} {r : ρ} (hs : view s = .done r) (hr : run step s as = some u) : view u = .done r :=
  invariant_run (fun s a t hs ht ↦ (hstep s a t ht).done hs) hs hr

end Once

end OtlpCollectorOidc

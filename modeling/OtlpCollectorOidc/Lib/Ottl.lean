import Mathlib.Algebra.Ring.Nat
import Mathlib.Order.Monotone.Basic
import Mathlib.Logic.Function.Basic

namespace OtlpCollectorOidc.Ottl

/-- A time as OTLP carries it, in unsigned nanoseconds since 1970. OTTL reads the same 64 bits as signed
ones. -/
abbrev Timestamp := BitVec 64

/-- What each call of Now() answers, in the order of the calls. -/
structure Clock where
  now : ℕ → Timestamp
  mono : Monotone (fun i ↦ (now i).toNat)

section Syntax

variable (F : Type)

inductive TimeExpr where
  | field (f : F)
  | now
  | plus (e : TimeExpr) (d : ℤ)
  | minus (e : TimeExpr) (d : ℤ)

inductive Condition where
  | before (a b : TimeExpr F)
  | after (a b : TimeExpr F)
  | nonzero (f : F)
  | and (p q : Condition)

/-- `set(target, value) where condition`. -/
structure Statement where
  target : F
  value : TimeExpr F
  condition : Condition F

end Syntax

section Semantics

variable {F : Type} [DecidableEq F] (c : Clock)

/-- The time, and how often the clock has been read by then. -/
def TimeExpr.eval (x : F → Timestamp) : TimeExpr F → ℕ → ℤ × ℕ
  | .field f, i => ((x f).toInt, i)
  | .now, i => ((c.now i).toNat, i + 1)
  | .plus e d, i => ((e.eval x i).1 + d, (e.eval x i).2)
  | .minus e d, i => ((e.eval x i).1 - d, (e.eval x i).2)

def Condition.holds (x : F → Timestamp) : Condition F → ℕ → Bool × ℕ
  | .before a b, i =>
    let l := a.eval c x i
    let r := b.eval c x l.2
    (l.1 < r.1, r.2)
  | .after a b, i =>
    let l := a.eval c x i
    let r := b.eval c x l.2
    (r.1 < l.1, r.2)
  | .nonzero f, i => ((x f).toInt ≠ 0, i)
  | .and p q, i => if (p.holds x i).1 then q.holds x (p.holds x i).2 else p.holds x i

/-- The condition is read before the value. -/
def Statement.exec (s : Statement F) (x : F → Timestamp) (i : ℕ) : (F → Timestamp) × ℕ :=
  let p := s.condition.holds c x i
  if p.1 then
    let v := s.value.eval c x p.2
    (Function.update x s.target (BitVec.ofInt 64 v.1), v.2)
  else (x, p.2)

def run (ss : List (Statement F)) (x : F → Timestamp) (i : ℕ) : (F → Timestamp) × ℕ :=
  ss.foldl (fun s st ↦ st.exec c s.1 s.2) (x, i)

/-- Drops an item on which the condition holds and runs the statements on any other. -/
def filterRun (drop : Condition F) (ss : List (Statement F)) (x : F → Timestamp) :
    Option ((F → Timestamp) × ℕ) :=
  let p := drop.holds c x 0
  if p.1 then none else some (run c ss x p.2)

end Semantics

section Reads

variable {F : Type} {c : Clock} {x : F → Timestamp}

theorem Clock.le {i j : ℕ} (h : i ≤ j) : (c.now i).toNat ≤ (c.now j).toNat := c.mono h

theorem Clock.le_last {k n : ℕ} (h : k < n) : (c.now k).toNat ≤ (c.now (n - 1)).toNat :=
  Clock.le (Nat.le_sub_one_of_lt h)

theorem toInt_of_lt {t : Timestamp} (h : t.toNat < 2 ^ 63) : t.toInt = t.toNat := by
  rw [BitVec.toInt_eq_toNat_cond, if_pos (by omega)]

theorem toNat_of_lt_toInt {t : Timestamp} {n : ℤ} (hn : 0 ≤ n) (h : n < t.toInt) : t.toNat < 2 ^ 63 := by
  rw [BitVec.toInt_eq_toNat_cond] at h
  split_ifs at h <;> omega

theorem toInt_le (t : Timestamp) : t.toInt ≤ t.toNat := by
  rw [BitVec.toInt_eq_toNat_cond]
  split_ifs <;> omega

variable [DecidableEq F]

theorem run_cons (s : Statement F) (ss : List (Statement F)) (i : ℕ) :
    run c (s :: ss) x i = run c ss (s.exec c x i).1 (s.exec c x i).2 := rfl

theorem filterRun_eq_some {drop : Condition F} {ss : List (Statement F)} {out : (F → Timestamp) × ℕ}
    (h : filterRun c drop ss x = some out) : ∃ i, drop.holds c x 0 = (false, i) ∧ run c ss x i = out := by
  rw [filterRun] at h
  cases hd : drop.holds c x 0 with
  | mk b i =>
    cases b
    · exact ⟨i, rfl, by simpa [hd] using h⟩
    · simp [hd] at h

/-- One reading for the condition and, where it holds, one for the value. -/
theorem exec_clamp (f : F) (d : ℤ) (i : ℕ) :
    Statement.exec c ⟨f, .now, .after (.field f) (.plus .now d)⟩ x i =
      if (c.now i).toNat + d < (x f).toInt then (Function.update x f (c.now (i + 1)), i + 2)
      else (x, i + 1) := by
  by_cases h : (c.now i).toNat + d < (x f).toInt
  · simp [Statement.exec, Condition.holds, TimeExpr.eval, h]
  · simp [Statement.exec, Condition.holds, TimeExpr.eval, h]

theorem exec_raise (e f : F) (d : ℤ) (i : ℕ) :
    Statement.exec c ⟨e, .field f, .and (.after (.field e) (.plus .now d)) (.after (.field f) .now)⟩ x i =
      if (c.now i).toNat + d < (x e).toInt then
        if (c.now (i + 1)).toNat < (x f).toInt then (Function.update x e (x f), i + 2) else (x, i + 2)
      else (x, i + 1) := by
  by_cases h : (c.now i).toNat + d < (x e).toInt
  · by_cases h' : (c.now (i + 1)).toNat < (x f).toInt
    · simp [Statement.exec, Condition.holds, TimeExpr.eval, h, h']
    · simp [Statement.exec, Condition.holds, TimeExpr.eval, h, h']
  · simp [Statement.exec, Condition.holds, TimeExpr.eval, h]

end Reads

end OtlpCollectorOidc.Ottl

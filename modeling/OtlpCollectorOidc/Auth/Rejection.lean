import Mathlib.Logic.Function.Basic
import OtlpCollectorOidc.Lib.Number
import OtlpCollectorOidc.Lib.Text

namespace OtlpCollectorOidc.Auth

open Text Number

inductive Reason where
  | noToken
  | invalidToken
  | missingScope
  | missingClaim
  | notReady
  deriving DecidableEq

def Reason.string : Reason → Bytes
  | .noToken => "no_token"
  | .invalidToken => "invalid_token"
  | .missingScope => "missing_scope"
  | .missingClaim => "missing_claim"
  | .notReady => "not_ready"

inductive Fault where
  | malformed
  | algorithm
  | unknownKey
  | signature
  | issuer
  | audience
  | noExpiry
  | expired
  | notYetValid
  | issuedInFuture
  deriving DecidableEq

def Fault.string : Fault → Bytes
  | .malformed => "malformed"
  | .algorithm => "unsupported alg"
  | .unknownKey => "unknown kid"
  | .signature => "bad signature"
  | .issuer => "wrong iss"
  | .audience => "wrong aud"
  | .noExpiry => "missing exp"
  | .expired => "expired"
  | .notYetValid => "not yet valid"
  | .issuedInFuture => "issued in the future"

def Fault.all : List Fault :=
  [.malformed, .algorithm, .unknownKey, .signature, .issuer, .audience, .noExpiry, .expired,
    .notYetValid, .issuedInFuture]

theorem Fault.string_injective : Function.Injective Fault.string := by
  have hf (f : Fault) : Fault.all.find? (fun g ↦ g.string = f.string) = some f := by cases f <;> decide
  intro f g h
  have hg := hf g
  rw [← h, hf f] at hg
  exact Option.some.inj hg

def errNotReady : Bytes := "not ready"

structure RejectionError where
  reason : Reason
  detail : Bytes := []
  deriving DecidableEq

def RejectionError.error (e : RejectionError) : Bytes :=
  match e.reason with
  | .noToken => "no token"
  | .invalidToken => ofString "invalid token: " ++ e.detail
  | .missingScope => ofString "missing scope: " ++ e.detail
  | .missingClaim => ofString "missing claim: " ++ e.detail
  | .notReady => errNotReady

/-- A refusal of a token, with nothing said of a token that is not there. -/
def RejectionError.Proper (e : RejectionError) : Prop :=
  e.reason ≠ .notReady ∧ (e.reason = .noToken → e.detail = [])

/-- The text of a refusal tells which it is. -/
theorem RejectionError.error_inj {e e' : RejectionError} (h : e.Proper) (h' : e'.Proper) :
    e.error = e'.error ↔ e = e' := by
  refine ⟨fun he ↦ ?_, congrArg _⟩
  obtain ⟨reason, detail⟩ := e
  obtain ⟨reason', detail'⟩ := e'
  have htake := congrArg (List.take 9) he
  cases reason with
  | noToken => cases reason' with
    | noToken => exact congrArg _ ((h.2 rfl).trans (h'.2 rfl).symm)
    | notReady => exact absurd rfl h'.1
    | _ => cases htake
  | invalidToken => cases reason' with
    | invalidToken => exact congrArg _ (List.append_cancel_left he)
    | notReady => exact absurd rfl h'.1
    | _ => cases htake
  | missingScope => cases reason' with
    | missingScope => exact congrArg _ (List.append_cancel_left he)
    | notReady => exact absurd rfl h'.1
    | _ => cases htake
  | missingClaim => cases reason' with
    | missingClaim => exact congrArg _ (List.append_cancel_left he)
    | notReady => exact absurd rfl h'.1
    | _ => cases htake
  | notReady => exact absurd rfl h.1

def noToken : RejectionError := { reason := .noToken }

def invalidToken (f : Fault) : RejectionError := { reason := .invalidToken, detail := f.string }

theorem invalidToken_inj {f g : Fault} : invalidToken f = invalidToken g ↔ f = g := by
  refine ⟨fun h ↦ ?_, congrArg _⟩
  exact Fault.string_injective (congrArg RejectionError.detail h)

def missingScope (scope : Bytes) : RejectionError := { reason := .missingScope, detail := scope }

def missingClaim (name : Bytes) : RejectionError := { reason := .missingClaim, detail := name }

/-- When the last warning of a reason was written, and the refusals unlogged since. -/
structure LogWindow where
  logged : Time
  suppressed : ℕ := 0

structure Warning where
  reason : Reason
  error : Bytes
  suppressed : ℕ

structure Rejections where
  interval : Duration
  counter : Reason → ℕ := fun _ ↦ 0
  windows : Reason → Option LogWindow := fun _ ↦ none
  warnings : List Warning := []

def Rejections.admits (r : Rejections) (now : Time) (why : Reason) : Rejections × Option ℕ :=
  match r.windows why with
  | none => ({ r with windows := Function.update r.windows why (some { logged := now }) }, some 0)
  | some w =>
    if sub now w.logged < r.interval then
      ({ r with windows :=
          Function.update r.windows why (some { w with suppressed := w.suppressed + 1 }) }, none)
    else
      ({ r with windows := Function.update r.windows why (some { logged := now }) }, some w.suppressed)

def Rejections.warn (why : Reason) (err : Bytes) : Rejections × Option ℕ → Rejections
  | (r, some suppressed) =>
    { r with warnings := r.warnings ++ [{ reason := why, error := err, suppressed := suppressed }] }
  | (r, none) => r

def Rejections.record (r : Rejections) (now : Time) (why : Reason) (err : Bytes) : Rejections :=
  let counted := { r with counter := Function.update r.counter why (r.counter why + 1) }
  warn why err (counted.admits now why)

theorem Rejections.admits_counter (r : Rejections) (now : Time) (why : Reason) :
    (r.admits now why).1.counter = r.counter := by
  unfold Rejections.admits
  cases r.windows why with
  | none => rfl
  | some w => dsimp only; split_ifs <;> rfl

theorem Rejections.warn_counter (why : Reason) (err : Bytes) (p : Rejections × Option ℕ) :
    (warn why err p).counter = p.1.counter := by
  rcases p with ⟨r, _ | suppressed⟩ <;> rfl

theorem Rejections.record_counter (r : Rejections) (now : Time) (why : Reason) (err : Bytes) :
    (r.record now why err).counter = Function.update r.counter why (r.counter why + 1) := by
  rw [Rejections.record, warn_counter, admits_counter]

end OtlpCollectorOidc.Auth

import OtlpCollectorOidc.Lib.Maps
import OtlpCollectorOidc.Lib.Json
import OtlpCollectorOidc.Auth.Rejection

namespace OtlpCollectorOidc.Auth

open Text Number Json Maps

abbrev Claims := AList (fun _ : Bytes ↦ Value)

def Claims.get (c : Claims) (name : Bytes) : Option Value := c.lookup name

def ofMembers (ms : List (Bytes × Value)) : Claims := insertAll ms ∅

def decodeClaims (payload : Bytes) : Option Claims :=
  match decode payload with
  | some (.obj ms, _) => some (ofMembers ms)
  | _ => none

def isString (s : Bytes) : Value → Bool
  | .str t => t = s
  | _ => false

def audienceContains (aud : Option Value) (audience : Bytes) : Bool :=
  match aud with
  | some (.str a) => a = audience
  | some (.arr xs) => xs.any (isString audience)
  | _ => false

def limit : ℚ := 10 ^ 15

/-- The instant a NumericDate names: clamped, then cut to nanoseconds through
the rounded product `numericDate` forms. -/
def instant (f : ℚ) : Time :=
  let f := max (min f limit) (-limit)
  let sec := truncate f
  sec * second + truncate (roundFloat64 ((f - sec) * second))

inductive NumericDate where
  | absent
  | invalid
  | at (t : Time)

def numericDate (c : Claims) (name : Bytes) : NumericDate :=
  match c.get name with
  | none => .absent
  | some (.num f) => .at (instant f)
  | some _ => .invalid

structure Verifier where
  issuer : Bytes
  audience : Bytes
  algorithms : List Bytes
  skew : Duration

def stringClaim (c : Claims) (name : Bytes) : Bytes :=
  match c.get name with
  | some (.str s) => s
  | _ => []

section Registered

variable (v : Verifier) (now : Time) (c : Claims)

def checkIss : Option Fault := if stringClaim c "iss" ≠ v.issuer then some .issuer else none

def checkAud : Option Fault :=
  if audienceContains (c.get "aud") v.audience then none else some .audience

def checkExp : Option Fault :=
  match numericDate c "exp" with
  | .invalid => some .malformed
  | .absent => some .noExpiry
  | .at exp => if now < exp + v.skew then none else some .expired

/-- The rule nbf and iat share: a date, where there is one, is not after now and the skew. -/
def checkNotAfter (name : Bytes) (f : Fault) : Option Fault :=
  match numericDate c name with
  | .invalid => some .malformed
  | .absent => none
  | .at t => if now + v.skew < t then some f else none

def checkNbf : Option Fault := checkNotAfter v now c "nbf" .notYetValid

def checkIat : Option Fault := checkNotAfter v now c "iat" .issuedInFuture

/-- `verifier.registered`: the first registered-claim rule the claims break. -/
def registered : Option Fault :=
  checkIss v c <|> checkAud v c <|> checkExp v now c <|> checkNbf v now c <|> checkIat v now c

end Registered

structure Authorizer where
  scope : Bytes
  claims : List Bytes

def grantsScope (c : Claims) (scope : Bytes) : Bool :=
  (match c.get "scope" with
    | some (.str s) => scope ∈ fields s
    | _ => false) ||
  match c.get "scp" with
  | some (.str s) => scope ∈ fields s
  | some (.arr xs) => xs.any (isString scope)
  | _ => false

def nonEmpty (v : Option Value) : Bool :=
  match v with
  | none | some .null => false
  | some (.str s) => s ≠ []
  | some (.arr xs) => !xs.isEmpty
  | some (.obj ms) => !ms.isEmpty
  | some _ => true

def Authorizer.authorize (a : Authorizer) (c : Claims) : Option RejectionError :=
  if grantsScope c a.scope then (a.claims.find? (fun name ↦ !nonEmpty (c.get name))).map missingClaim
  else some (missingScope a.scope)

theorem isString_iff {s : Bytes} {v : Value} : isString s v = true ↔ v = .str s := by
  cases v <;> simp [isString]

theorem audienceContains_iff {aud : Option Value} {audience : Bytes} :
    audienceContains aud audience = true ↔
      aud = some (.str audience) ∨ ∃ xs, aud = some (.arr xs) ∧ .str audience ∈ xs := by
  rcases aud with _ | v
  · simp [audienceContains]
  · cases v <;> simp [audienceContains, isString_iff]

theorem grantsScope_iff {c : Claims} {scope : Bytes} :
    grantsScope c scope = true ↔
      (∃ s, c.get "scope" = some (.str s) ∧ scope ∈ fields s) ∨
      (∃ s, c.get "scp" = some (.str s) ∧ scope ∈ fields s) ∨
      ∃ xs, c.get "scp" = some (.arr xs) ∧ .str scope ∈ xs := by
  rw [grantsScope, Bool.or_eq_true]
  apply or_congr
  · rcases c.get "scope" with _ | v
    · simp
    · cases v <;> simp
  · rcases c.get "scp" with _ | v
    · simp
    · cases v <;> simp [isString_iff]

/-- Absent, `null`, `""`, `[]` and `{}` are the empty claims. -/
theorem nonEmpty_iff {v : Option Value} :
    nonEmpty v = true ↔
      ∃ x, v = some x ∧ x ≠ .null ∧ x ≠ .str [] ∧ x ≠ .arr [] ∧ x ≠ .obj [] := by
  rcases v with _ | v
  · simp [nonEmpty]
  · cases v <;> simp [nonEmpty]

theorem authorize_eq_none {a : Authorizer} {c : Claims} :
    a.authorize c = none ↔
      grantsScope c a.scope = true ∧ ∀ name ∈ a.claims, nonEmpty (c.get name) = true := by
  rw [Authorizer.authorize]
  split_ifs with h
  · simp [h]
  · simp [h]

theorem stringClaim_eq {c : Claims} {name s : Bytes} (h : stringClaim c name = s) (hs : s ≠ []) :
    c.get name = some (.str s) := by
  unfold stringClaim at h
  rcases hc : c.get name with _ | v
  · simp_all
  · cases v <;> simp_all

section Spec

variable {v : Verifier} {now : Time} {c : Claims}

theorem checkIss_eq_none : checkIss v c = none ↔ stringClaim c "iss" = v.issuer := by
  simp [checkIss]

theorem checkAud_eq_none : checkAud v c = none ↔ audienceContains (c.get "aud") v.audience = true := by
  simp [checkAud]

theorem checkExp_eq_none :
    checkExp v now c = none ↔ ∃ f, c.get "exp" = some (.num f) ∧ now < instant f + v.skew := by
  unfold checkExp numericDate
  rcases c.get "exp" with _ | w
  · simp
  · cases w <;> simp

theorem checkNotAfter_eq_none {name : Bytes} {f : Fault} :
    checkNotAfter v now c name f = none ↔
      ∀ w, c.get name = some w → ∃ q, w = .num q ∧ instant q ≤ now + v.skew := by
  unfold checkNotAfter numericDate
  rcases c.get name with _ | w
  · simp
  · cases w <;> simp

theorem checkIss_ne_malformed : checkIss v c ≠ some .malformed := by
  unfold checkIss
  split_ifs <;> simp

theorem checkAud_ne_malformed : checkAud v c ≠ some .malformed := by
  unfold checkAud
  split_ifs <;> simp

theorem checkExp_eq_malformed : checkExp v now c = some .malformed ↔ numericDate c "exp" = .invalid := by
  unfold checkExp
  rcases numericDate c "exp" with _ | _ | t
  · simp
  · simp
  · dsimp only
    split_ifs <;> simp

theorem checkNotAfter_eq_malformed {name : Bytes} {f : Fault} (hf : f ≠ .malformed) :
    checkNotAfter v now c name f = some .malformed ↔ numericDate c name = .invalid := by
  unfold checkNotAfter
  rcases numericDate c name with _ | _ | t
  · simp
  · simp
  · dsimp only
    split_ifs <;> simp [hf]

theorem registered_eq_none :
    registered v now c = none ↔
      checkIss v c = none ∧ checkAud v c = none ∧ checkExp v now c = none ∧
        checkNbf v now c = none ∧ checkIat v now c = none := by
  simp [registered]

end Spec

end OtlpCollectorOidc.Auth

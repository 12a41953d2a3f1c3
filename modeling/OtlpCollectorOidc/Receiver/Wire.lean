import OtlpCollectorOidc.Lib.Decimal
import OtlpCollectorOidc.Receiver.Answer

namespace OtlpCollectorOidc.Receiver

open Text Number Strconv

section Message

def messageByte (c : UInt8) : Bool := !(c < 0x20 || 0x7E < c || c = 0x25)

theorem encodeGRPCMessage_eq (msg : Bytes) : encodeGRPCMessage msg = Url.percentEncode messageByte msg := by
  refine List.flatMap_congr (fun c _ ↦ ?_)
  rw [messageByte]
  cases (c < 0x20 || 0x7E < c || c = 0x25 : Bool) <;> rfl

theorem printable_of_messageByte {c : UInt8} (h : messageByte c = true) : 0x20 ≤ c ∧ c ≤ 0x7E := by
  simp only [messageByte, Bool.not_eq_true', Bool.or_eq_false_iff, decide_eq_false_iff_not,
    UInt8.lt_iff_toNat_lt, UInt8.le_iff_toNat_le, UInt8.reduceToNat] at h ⊢
  omega

/-- A text as it goes out in grpc-message: printable, every percent sign the start of an escape, and
read back whole. -/
structure Lossless (msg : Bytes) : Prop where
  printable : ∀ c ∈ encodeGRPCMessage msg, 0x20 ≤ c ∧ c ≤ 0x7E
  escapes : ∀ before after, encodeGRPCMessage msg = before ++ 0x25 :: after →
    ∃ a b rest, after = a :: b :: rest ∧ Url.isUpperhex a = true ∧ Url.isUpperhex b = true
  decodes : Url.unescape .path (encodeGRPCMessage msg) = some msg

theorem printable_of_isUpperhex {c : UInt8} (h : Url.isUpperhex c = true) : 0x20 ≤ c ∧ c ≤ 0x7E := by
  simp only [Url.isUpperhex, Url.isDigit, Bool.or_eq_true, Bool.and_eq_true, decide_eq_true_eq,
    UInt8.le_iff_toNat_le, UInt8.reduceToNat] at h ⊢
  omega

theorem lossless (msg : Bytes) : Lossless msg where
  printable c hc := by
    rw [encodeGRPCMessage_eq] at hc
    obtain hkeep | rfl | hhex := Url.mem_percentEncode hc
    · exact printable_of_messageByte hkeep
    · decide
    · exact printable_of_isUpperhex hhex
  escapes before after h := by
    rw [encodeGRPCMessage_eq] at h
    exact Url.percentEncode_escapes (by decide) h
  decodes := by
    rw [encodeGRPCMessage_eq]
    exact Url.unescape_percentEncode (by decide) msg

theorem encodeGRPCMessage_injective : Function.Injective encodeGRPCMessage := by
  intro msg msg' h
  have hdecodes := (lossless msg).decodes
  rw [h, (lossless msg').decodes] at hdecodes
  exact (Option.some.inj hdecodes).symm

/-- Whatever a refusal says reaches a gRPC client whole, so two answers alike say the same. -/
theorem grpc_message_lossless (lib : Codecs) (st : Status) :
    Lossless st.message ∧ ∀ st', (writeGRPCStatus lib st).headers = (writeGRPCStatus lib st').headers →
      st.message = st'.message := by
  refine ⟨lossless st.message, fun st' h ↦ ?_⟩
  obtain ⟨-, h⟩ := List.cons.inj h
  obtain ⟨-, h⟩ := List.cons.inj h
  obtain ⟨h, -⟩ := List.cons.inj h
  exact encodeGRPCMessage_injective (congrArg Prod.snd h)

example :
    encodeGRPCMessage "missing scope: 100% é" = ofString "missing scope: 100%25 %C3%A9" := by decide +kernel

end Message

section Delay

/-- The delay of the first RetryInfo that has one. -/
def FirstDelay (details : List Detail) (d : Duration) : Prop :=
  ∃ before after, details = before ++ .retryInfo (some d) :: after ∧
    ∀ x ∈ before, ∀ d', x ≠ .retryInfo (some d')

def retryAfters (resp : Response) : List Bytes :=
  resp.headers.filterMap (fun h ↦ if h.1 = ofString "Retry-After" then some h.2 else none)

theorem retryDelay_eq_none {st : Status} : retryDelay st = none ↔ ∀ d, .retryInfo (some d) ∉ st.details := by
  rw [retryDelay, List.findSome?_eq_none_iff]
  constructor
  · intro h d hd
    exact absurd (h _ hd) (by simp)
  · intro h x hx
    match x with
    | .retryInfo (some d) => exact absurd hx (h d)
    | .retryInfo none => rfl
    | .other => rfl

theorem retryDelay_eq_some {st : Status} {d : Duration} :
    retryDelay st = some d ↔ FirstDelay st.details d := by
  obtain ⟨code, msg, details⟩ := st
  constructor
  · intro h
    obtain ⟨before, x, after, rfl, hx, hbefore⟩ := List.findSome?_eq_some_iff.mp h
    match x with
    | .retryInfo (some d') =>
      cases hx
      refine ⟨before, after, rfl, fun y hy d' he ↦ ?_⟩
      subst he
      cases hbefore _ hy
  · rintro ⟨before, after, rfl, hbefore⟩
    have hnone : retryDelay ⟨code, msg, before⟩ = none :=
      retryDelay_eq_none.mpr (fun d' hd' ↦ hbefore _ hd' d' rfl)
    rw [retryDelay] at hnone
    rw [retryDelay, List.findSome?_append, hnone]
    rfl

/-- A client is told to wait at least as long as the upstream asks, and nothing where it asks for nothing. -/
structure NotEarly (st : Status) (resp : Response) : Prop where
  waits : ∀ d, FirstDelay st.details d → ∃ n : ℕ, retryAfters resp = [decimal n] ∧ d ≤ n * second
  silent : (∀ d, .retryInfo (some d) ∉ st.details) → retryAfters resp = []

/-- A delay that loses nothing when it is cut to whole seconds. -/
def Whole (d : Duration) : Prop := 0 ≤ d ∧ second ∣ d ∨ -second < d ∧ d < 0

/-- Cutting a delay to whole seconds gives a number of them, no shorter, exactly where it loses nothing. -/
theorem whole_iff (d : ℤ) :
    (∃ n : ℕ, d.tdiv (10 ^ 9) = n ∧ d ≤ n * 10 ^ 9) ↔ 0 ≤ d ∧ (10 ^ 9 : ℤ) ∣ d ∨ -10 ^ 9 < d ∧ d < 0 := by
  obtain hd | hd := le_or_gt 0 d
  · rw [Int.tdiv_eq_ediv_of_nonneg hd]
    constructor
    · rintro ⟨n, hn, hle⟩
      omega
    · intro h
      exact ⟨(d / 10 ^ 9).toNat, by omega, by omega⟩
  · have hneg : d.tdiv (10 ^ 9) = -((-d) / 10 ^ 9) := by
      rw [← Int.tdiv_eq_ediv_of_nonneg (by omega), Int.neg_tdiv, neg_neg]
    rw [hneg]
    constructor
    · rintro ⟨n, hn, hle⟩
      omega
    · intro h
      exact ⟨0, by omega, by omega⟩

theorem retryAfters_writeStatus (lib : Codecs) (enc : Encoding) {httpStatus : ℕ}
    (h : httpStatus = 429 ∨ httpStatus = 503) (st : Status) :
    retryAfters (writeStatus lib [] enc httpStatus st) =
      (retryDelay st).toList.map (fun d ↦ formatInt (d.tdiv second)) := by
  have hretry : (httpStatus = 429 || httpStatus = 503 : Bool) = true := by simpa using h
  rw [writeStatus, if_pos hretry]
  cases lib.marshalStatus enc st <;> cases retryDelay st <;> rfl

/-- A retryable answer never sends a client back early exactly when the first delay of its status is a
whole number of seconds, or lies less than a second in the past. -/
theorem retry_after_not_early_iff (lib : Codecs) (enc : Encoding) (httpStatus : ℕ)
    (h : httpStatus = 429 ∨ httpStatus = 503) (st : Status) :
    NotEarly st (writeStatus lib [] enc httpStatus st) ↔ ∀ d, FirstDelay st.details d → Whole d := by
  have htold := retryAfters_writeStatus lib enc h st
  constructor
  · intro hnot d hd
    obtain ⟨n, hn, hle⟩ := hnot.waits d hd
    rw [htold, retryDelay_eq_some.mpr hd] at hn
    have hint : d.tdiv second = n := eq_of_formatInt_eq_decimal (List.singleton_inj.mp hn)
    exact (whole_iff d).mp ⟨n, hint, hle⟩
  · intro hwhole
    constructor
    · intro d hd
      obtain ⟨n, hn, hle⟩ := (whole_iff d).mpr (hwhole d hd)
      have hint : d.tdiv second = n := hn
      refine ⟨n, ?_, hle⟩
      rw [htold, retryDelay_eq_some.mpr hd, Option.toList_some, List.map_singleton, hint]
      rfl
    · intro hnone
      rw [htold, retryDelay_eq_none.mpr hnone]
      rfl

def plainCodecs : Codecs where
  parseMediaType := some
  marshalStatus _ st := some st.message
  base64 := id

def overloaded (d : Duration) : Status where
  code := .resourceExhausted
  message := "slow down"
  details := [.other, .retryInfo none, .retryInfo (some d)]

theorem firstDelay_overloaded (d : Duration) : FirstDelay (overloaded d).details d :=
  ⟨[.other, .retryInfo none], [], rfl, by simp⟩

theorem thirty_seconds_waited : NotEarly (overloaded (30 * second))
    (writeStatus plainCodecs [] .json 429 (overloaded (30 * second))) := by
  refine (retry_after_not_early_iff plainCodecs .json 429 (Or.inl rfl) _).mpr (fun d hd ↦ ?_)
  rw [← retryDelay_eq_some] at hd
  cases hd
  exact Or.inl ⟨by decide, by decide⟩

/-- A second and a half becomes one second, and a delay in the past a negative number. -/
theorem fractions_sent_back_early :
    retryAfters (writeStatus plainCodecs [] .json 429 (overloaded (1500 * 10 ^ 6))) = [ofString "1"] ∧
    ¬ NotEarly (overloaded (1500 * 10 ^ 6))
      (writeStatus plainCodecs [] .json 429 (overloaded (1500 * 10 ^ 6))) ∧
    retryAfters (writeStatus plainCodecs [] .json 503 (overloaded (-2 * second))) = [ofString "-2"] ∧
    ¬ NotEarly (overloaded (-2 * second))
      (writeStatus plainCodecs [] .json 503 (overloaded (-2 * second))) := by
  have hone : retryAfters (writeStatus plainCodecs [] .json 429 (overloaded (1500 * 10 ^ 6))) =
      [formatInt 1] := by
    decide +kernel
  have hminus : retryAfters (writeStatus plainCodecs [] .json 503 (overloaded (-2 * second))) =
      [formatInt (-2)] := by
    decide +kernel
  refine ⟨hone, fun h ↦ ?_, hminus, fun h ↦ ?_⟩
  · obtain ⟨n, hn, hle⟩ := h.waits _ (firstDelay_overloaded _)
    have hint := eq_of_formatInt_eq_decimal (List.singleton_inj.mp (hone.symm.trans hn))
    rw [← hint] at hle
    exact absurd hle (by decide)
  · obtain ⟨n, hn, -⟩ := h.waits _ (firstDelay_overloaded _)
    have hint := eq_of_formatInt_eq_decimal (List.singleton_inj.mp (hminus.symm.trans hn))
    exact absurd hint (by omega)

end Delay

end OtlpCollectorOidc.Receiver

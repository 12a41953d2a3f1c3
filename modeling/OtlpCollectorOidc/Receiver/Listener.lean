import OtlpCollectorOidc.Auth.Authenticate
import OtlpCollectorOidc.Receiver.Refusals
import OtlpCollectorOidc.Receiver.Wire

namespace OtlpCollectorOidc.Receiver

open Text Number Strconv
open Auth (Authenticator AuthError RejectionError Rejections Reason Jose bearerToken)

/-- A request at the listener: what the authenticator is given with it, and how far it gets once it has
passed. -/
structure Incoming where
  ctx : Auth.Context
  sources : Auth.Sources
  readings : Auth.Readings
  request : Request
  arrival : Arrival

structure Listener where
  port : SinglePort
  authenticator : Authenticator

/-- What was done with a request, the context it was done in, and the listener it left. -/
structure Served where
  effects : List Effect
  context : Auth.Context
  next : Listener

section Serve

variable (jose : Jose)

/-- The listener asks its authenticator first, and hands a refusal over as 401 with the error's text. -/
def Listener.serve (l : Listener) (q : Incoming) : Served :=
  let out := l.authenticator.authenticate jose q.ctx q.sources q.readings
  { effects := match out.err with
      | some e => l.port.errorHandler q.request e.error 401
      | none => l.port.handle q.request q.arrival
    context := out.context
    next := { l with authenticator := out.next } }

def Listener.after (l : Listener) (qs : List Incoming) : Listener :=
  qs.foldl (fun l q ↦ (l.serve jose q).next) l

/-- By how much the requests grow requests_refused. -/
def Listener.refused : Listener → List Incoming → ℕ
  | _, [] => 0
  | l, q :: qs => refusals (l.serve jose q).effects + Listener.refused (l.serve jose q).next qs

def Listener.exports : Listener → List Incoming → ℕ
  | _, [] => 0
  | l, q :: qs => (exported (l.serve jose q).effects).toNat + Listener.exports (l.serve jose q).next qs

end Serve

def Reason.all : List Reason := [.noToken, .invalidToken, .missingScope, .missingClaim, .notReady]

def total (r : Rejections) : ℕ := (Reason.all.map r.counter).sum

section Counters

theorem sum_update (counter : Reason → ℕ) (why : Reason) :
    (Reason.all.map (Function.update counter why (counter why + 1))).sum =
      (Reason.all.map counter).sum + 1 := by
  cases why <;> simp [Reason.all, Function.update] <;> omega

theorem refuse_total (a : Authenticator) (ctx : Auth.Context) (now : Time) (e : AuthError) :
    total (a.refuse ctx now e).next.rejections = total a.rejections + 1 := by
  rw [total, (Auth.refuse_spec a ctx now e e rfl).2, sum_update]
  rfl

/-- Authentication refuses and counts once, or does neither. -/
theorem authenticate_total (jose : Jose) (a : Authenticator) (ctx : Auth.Context) (sources : Auth.Sources)
    (r : Auth.Readings) : total (a.authenticate jose ctx sources r).next.rejections =
      total a.rejections + (a.authenticate jose ctx sources r).err.isSome.toNat := by
  unfold Authenticator.authenticate
  cases bearerToken sources with
  | none => exact refuse_total ..
  | some token =>
    cases hk : a.keys with
    | none => exact refuse_total ..
    | some keys =>
      dsimp only
      rcases a.verifier.verify jose keys r token with ⟨rej | c, k⟩
      · exact refuse_total ..
      · dsimp only
        cases a.authorizer.authorize c with
        | some rej => exact refuse_total ..
        | none => rfl

/-- What is sent as gRPC is taken up by grpc-go, which tells of a refusal, and the client did not go away. -/
structure Attended (s : SinglePort) (q : Incoming) : Prop where
  heard : Heard s q.request q.arrival
  stayed : endedWith (s.rpc q.request q.arrival) ≠ some .canceled
  inTime : endedWith (s.rpc q.request q.arrival) ≠ some .deadlineExceeded

theorem errorHandler_unauthenticated (s : SinglePort) (r : Request) (msg : Bytes) :
    ∃ resp, s.errorHandler r msg 401 = [.answered resp] := by
  by_cases hm : msg = Auth.errNotReady
  · exact ⟨_, by simp [SinglePort.errorHandler, hm]; rfl⟩
  · exact ⟨_, by simp [SinglePort.errorHandler, hm]; rfl⟩

/-- An Export handler runs for a request that the authenticator did not refuse only. -/
theorem err_of_exported {jose : Jose} {l : Listener} {q : Incoming}
    (h : exported (l.serve jose q).effects = true) :
    (l.authenticator.authenticate jose q.ctx q.sources q.readings).err = none := by
  unfold Listener.serve at h
  cases herr : (l.authenticator.authenticate jose q.ctx q.sources q.readings).err with
  | none => rfl
  | some e =>
    obtain ⟨resp, hresp⟩ := errorHandler_unauthenticated l.port q.request e.error
    simp [herr, hresp] at h

/-- The authenticator counts the request, the receiver does, or an Export handler runs. -/
theorem serve_accounted (jose : Jose) (l : Listener) {q : Incoming} (h : Attended l.port q) :
    total (l.serve jose q).next.authenticator.rejections + refusals (l.serve jose q).effects +
      (exported (l.serve jose q).effects).toNat = total l.authenticator.rejections + 1 := by
  have htotal := authenticate_total jose l.authenticator q.ctx q.sources q.readings
  unfold Listener.serve
  dsimp only
  rw [htotal]
  cases (l.authenticator.authenticate jose q.ctx q.sources q.readings).err with
  | some e =>
    obtain ⟨resp, hresp⟩ := errorHandler_unauthenticated l.port q.request e.error
    simp [hresp]
  | none =>
    have hcounted := (countedOnce_iff_heard l.port q.request q.arrival).mpr h.heard
    dsimp only
    cases hexported : exported (l.port.handle q.request q.arrival) with
    | true =>
      have hzero := hcounted.ran hexported
      simp [hzero]
    | false =>
      have hone := hcounted.refused hexported h.stayed h.inTime
      simp [hone]

def exampleExporter : Exporter where
  Req := Bytes
  Resp := Unit
  unmarshal _ body := .ok body
  run _ := .ok ()
  marshal _ _ := .ok []

def exampleCodecs : Codecs where
  parseMediaType := some
  marshalStatus _ st := some (st.message ++ ((retryDelay st).map (fun d ↦ formatInt (d.tdiv second))).getD [])
  base64 := id

def exampleListener (keys : Option Auth.KeySet) : Listener where
  port :=
    { examplePort with
      lib := exampleCodecs, registered := fun sig ↦ if sig = .traces then some exampleExporter else none }
  authenticator := { Auth.exampleAuthenticator with keys := keys }

def postedTraces : Request where
  protoMajor := 1
  method := "POST"
  path := "/v1/traces"
  contentType := "application/json"
  body := .ok []

def grpcRequest : Request := { grpcWebRequest with contentType := "application/grpc" }

def exampleIncoming (authorization : Bytes) (r : Request) : Incoming where
  ctx := Auth.exampleContext
  sources := [("Authorization", [authorization])]
  readings := Auth.exampleReadings
  request := r
  arrival := .dispatched

theorem exampleIncoming_attended (keys : Option Auth.KeySet) (authorization : Bytes) {r : Request}
    (h : isGRPC r = true → takesUp r = true) :
    Attended (exampleListener keys).port (exampleIncoming authorization r) := by
  have hended : endedWith ((exampleListener keys).port.rpc r .dispatched) = none := by
    rw [SinglePort.rpc]
    split_ifs <;> rfl
  refine ⟨fun hgrpc ↦ ⟨h hgrpc, fun hnone ↦ absurd rfl (hnone .unknownService (List.mem_singleton_self _)).2⟩,
    ?_, ?_⟩
  · intro hc
    cases hended.symm.trans hc
  · intro hc
    cases hended.symm.trans hc

/-- No token; a token and a path without a pipeline; one that is exported; and one over gRPC. -/
def exampleRequests : List Incoming :=
  let bearer := ofString "Bearer " ++ Auth.aliceToken.compact
  [exampleIncoming [] postedTraces, exampleIncoming bearer { postedTraces with path := "/v1/spans" },
    exampleIncoming bearer postedTraces, exampleIncoming bearer grpcRequest]

/-- Over any sequence of requests that grpc-go attends to and whose clients stay, none is lost to the
counters and none is in two of them: the authenticator's refusals, the receiver's and the exports add up
to the requests. -/
theorem every_request_accounted (jose : Jose) (l : Listener) (qs : List Incoming)
    (h : ∀ q ∈ qs, Attended l.port q) :
    total (l.after jose qs).authenticator.rejections + l.refused jose qs + l.exports jose qs =
      total l.authenticator.rejections + qs.length := by
  induction qs generalizing l with
  | nil => rfl
  | cons q qs ih =>
    have hfirst := serve_accounted jose l (h q List.mem_cons_self)
    have hrest := ih (l.serve jose q).next (fun p hp ↦ h p (List.mem_cons_of_mem q hp))
    rw [Listener.after, List.foldl_cons, ← Listener.after, Listener.refused, Listener.exports,
      List.length_cons]
    omega

theorem example_requests_accounted :
    (exampleListener Auth.publishedKeys).refused (Auth.exampleJose Auth.aliceToken) exampleRequests = 2 ∧
    (exampleListener Auth.publishedKeys).exports (Auth.exampleJose Auth.aliceToken) exampleRequests = 1 ∧
    total ((exampleListener Auth.publishedKeys).after
      (Auth.exampleJose Auth.aliceToken) exampleRequests).authenticator.rejections
      + 2 + 1 = total (exampleListener Auth.publishedKeys).authenticator.rejections + 4 := by
  have hrefused : (exampleListener Auth.publishedKeys).refused
      (Auth.exampleJose Auth.aliceToken) exampleRequests = 2 := by
    decide +kernel
  have hexports : (exampleListener Auth.publishedKeys).exports
      (Auth.exampleJose Auth.aliceToken) exampleRequests = 1 := by
    decide +kernel
  refine ⟨hrefused, hexports, ?_⟩
  have hall : ∀ q ∈ exampleRequests, Attended (exampleListener Auth.publishedKeys).port q := by
    simp only [exampleRequests, List.forall_mem_cons, List.not_mem_nil, IsEmpty.forall_iff,
      implies_true, and_true]
    exact ⟨exampleIncoming_attended _ _ (by decide), exampleIncoming_attended _ _ (by decide),
      exampleIncoming_attended _ _ (by decide), exampleIncoming_attended _ _ (by decide)⟩
  have haccounted :=
    every_request_accounted (Auth.exampleJose Auth.aliceToken) (exampleListener Auth.publishedKeys)
    exampleRequests hall
  rw [hrefused, hexports] at haccounted
  exact haccounted

end Counters

section Answers

/-- No refusal but the one for missing keys says "not ready". -/
theorem RejectionError.error_ne {rej : RejectionError} (h : rej.reason ≠ .notReady) :
    rej.error ≠ Auth.errNotReady := by
  have hhead (text rest : Bytes) (hne : text.head? ≠ some 0x6E) (hnil : text ≠ []) :
      text ++ rest ≠ Auth.errNotReady := by
    intro heq
    have hhead := congrArg List.head? heq
    rw [List.head?_append_of_ne_nil _ hnil] at hhead
    exact hne hhead
  obtain ⟨reason, detail⟩ := rej
  cases reason with
  | noToken =>
    intro heq
    exact absurd (show ofString "no token" = Auth.errNotReady from heq) (by decide)
  | invalidToken => exact hhead (ofString "invalid token: ") detail (by decide) (by decide)
  | missingScope => exact hhead (ofString "missing scope: ") detail (by decide) (by decide)
  | missingClaim => exact hhead (ofString "missing claim: ") detail (by decide) (by decide)
  | notReady => exact absurd rfl h

theorem verify_reason (jose : Jose) (v : Auth.Verifier) (keys : Auth.KeySet)
    (r : Auth.Readings) (token : Bytes) {rej : RejectionError}
    (h : (v.verify jose keys r token).1 = .error rej) : rej.reason = .invalidToken := by
  unfold Auth.Verifier.verify Auth.Verifier.checkPayload at h
  repeat' split at h
  all_goals cases h
  all_goals rfl

theorem authorize_reason {a : Auth.Authorizer} {c : Auth.Claims} {rej : RejectionError}
    (h : a.authorize c = some rej) :
    rej.reason = .missingScope ∨ rej.reason = .missingClaim := by
  unfold Auth.Authorizer.authorize at h
  split_ifs at h
  · obtain ⟨name, -, rfl⟩ := Option.map_eq_some_iff.mp h
    exact Or.inr rfl
  · cases h
    exact Or.inl rfl

/-- The keys are missing exactly where a refusal is not a rejection. -/
theorem authenticate_err (jose : Jose) (a : Authenticator) (ctx : Auth.Context) (sources : Auth.Sources)
    (r : Auth.Readings) {e : AuthError} (h : (a.authenticate jose ctx sources r).err = some e) :
    (e = .notReady ↔ (bearerToken sources).isSome = true ∧ a.keys = none) ∧
    (e.error = Auth.errNotReady ↔ e = .notReady) := by
  have hrejected {rej : RejectionError} (hreason : rej.reason ≠ .notReady)
    (hready : ¬ ((bearerToken sources).isSome = true ∧
      a.keys = none)) : (AuthError.rejected rej = .notReady ↔ (bearerToken sources).isSome = true ∧
        a.keys = none) ∧
      ((AuthError.rejected rej).error = Auth.errNotReady ↔ AuthError.rejected rej = .notReady) :=
    ⟨iff_of_false nofun hready, iff_of_false (RejectionError.error_ne hreason) nofun⟩
  unfold Authenticator.authenticate at h
  cases hb : bearerToken sources with
  | none =>
    rw [hb] at h hrejected
    cases h
    exact hrejected nofun nofun
  | some token =>
    rw [hb] at h hrejected
    cases hk : a.keys with
    | none =>
      rw [hk] at h
      cases h
      exact ⟨iff_of_true rfl ⟨rfl, rfl⟩, iff_of_true rfl rfl⟩
    | some keys =>
      rw [hk] at h hrejected
      dsimp only at h
      rcases hv : a.verifier.verify jose keys r token with ⟨rej | c, k⟩
      · rw [hv] at h
        cases h
        have hreason := verify_reason jose a.verifier keys r token (congrArg Prod.fst hv)
        exact hrejected (by simp [hreason]) nofun
      · rw [hv] at h
        dsimp only at h
        cases ha : a.authorizer.authorize c with
        | none =>
          rw [ha] at h
          cases h
        | some rej =>
          rw [ha] at h
          cases h
          have hreason := authorize_reason ha
          exact hrejected (by rcases hreason with h | h <;> simp [h]) nofun

def Response.value (resp : Response) (name : Bytes) : Option Bytes :=
  (resp.headers.find? (fun h ↦ h.1 = name)).map Prod.snd

/-- A client may come back with the same token. -/
def retryable : AuthError → Bool
  | .notReady => true
  | .rejected _ => false

/-- The status a refusal is answered with. -/
def refusalStatus (e : AuthError) : Status :=
  if retryable e then
    { code := .unavailable, message := e.error, details := [.retryInfo (some notReadyRetryAfter)] }
  else { code := .unauthenticated, message := e.error }

/-- What a gRPC client is told of a refusal: whether it may come back and, where the status can be
marshalled, when, and the refusal's own text, whole. -/
structure TellsGRPC (lib : Codecs) (e : AuthError) (resp : Response) : Prop where
  status : resp.value "Grpc-Status" = some (if retryable e then ofString "14" else ofString "16")
  message : (resp.value "Grpc-Message").bind (Url.unescape .path) = some e.error
  details : resp.value "Grpc-Status-Details-Bin" =
    if retryable e then (lib.marshalStatus .protobuf (refusalStatus e)).map lib.base64 else none

/-- What an HTTP client is told of it: whether and when to come back, and the text, in an OTLP status
where it asked in an OTLP encoding. -/
structure TellsHTTP (lib : Codecs) (r : Request) (e : AuthError) (resp : Response) : Prop where
  status : (∀ enc, (lib.marshalStatus enc (refusalStatus e)).isSome = true) →
    resp.status = if retryable e then 503 else 401
  retryAfter : resp.value "Retry-After" = if retryable e then some (ofString "5") else none
  text : lookupEncoding lib r.contentType = none → resp.body = e.error ++ ofString "\n"
  encoded : ∀ enc body, lookupEncoding lib r.contentType = some enc →
    lib.marshalStatus enc (refusalStatus e) = some body → resp.body = body

def Tells (lib : Codecs) (r : Request) (e : AuthError) (resp : Response) : Prop :=
  if isGRPC r then TellsGRPC lib e resp else TellsHTTP lib r e resp

section HTTP

variable {lib : Codecs} {r : Request} {e : AuthError} {resp : Response}

theorem tellsHTTP_text (henc : lookupEncoding lib r.contentType = none)
    (hstatus : resp.status = if retryable e then 503 else 401)
    (hretry : resp.value "Retry-After" = if retryable e then some (ofString "5") else none)
    (hbody : resp.body = e.error ++ ofString "\n") : TellsHTTP lib r e resp where
  status _ := hstatus
  retryAfter := hretry
  text _ := hbody
  encoded enc body h := by
    rw [henc] at h
    cases h

theorem tellsHTTP_encoded {enc : Encoding} {failed : Response} {written : Bytes → Response}
    (henc : lookupEncoding lib r.contentType = some enc)
    (hresp : resp = match lib.marshalStatus enc (refusalStatus e) with
      | none => failed
      | some body => written body)
    (hfailed : failed.value "Retry-After" = if retryable e then some (ofString "5") else none)
    (hstatus : ∀ body, (written body).status = if retryable e then 503 else 401)
    (hbody : ∀ body, (written body).body = body)
    (hwritten : ∀ body, (written body).value "Retry-After" = if retryable e then
      some (ofString "5") else none) :
    TellsHTTP lib r e resp := by
  subst hresp
  refine ⟨?_, ?_, ?_, ?_⟩
  · intro hmarshals
    obtain ⟨body, hm⟩ := Option.isSome_iff_exists.mp (hmarshals enc)
    rw [hm]
    exact hstatus body
  · cases lib.marshalStatus enc (refusalStatus e) with
    | none => exact hfailed
    | some body => exact hwritten body
  · intro hnone
    rw [henc] at hnone
    cases hnone
  · intro enc' body h hm
    cases henc.symm.trans h
    rw [hm]
    exact hbody body

end HTTP

theorem value_grpcStatus (lib : Codecs) (st : Status) :
    (writeGRPCStatus lib st).value "Grpc-Status" = some (formatInt st.code.number) := rfl

theorem tells_notReady (lib : Codecs) (r : Request) :
    Tells lib r .notReady (writeNotReady lib r Auth.errNotReady) := by
  unfold Tells writeNotReady
  split_ifs with hgrpc
  · refine ⟨rfl, (lossless Auth.errNotReady).decodes, ?_⟩
    change Response.value (writeGRPCStatus lib (refusalStatus .notReady)) "Grpc-Status-Details-Bin" = _
    unfold writeGRPCStatus
    cases lib.marshalStatus .protobuf (refusalStatus .notReady) with
    | none => rfl
    | some body => rfl
  · cases henc : lookupEncoding lib r.contentType with
    | none => exact tellsHTTP_text henc rfl rfl rfl
    | some enc => exact tellsHTTP_encoded henc rfl rfl (fun _ ↦ rfl) (fun _ ↦ rfl) (fun _ ↦ rfl)

theorem tells_rejected (lib : Codecs) (r : Request) (rej : RejectionError) :
    Tells lib r (.rejected rej) (writeUnauthenticated lib r rej.error) := by
  unfold Tells writeUnauthenticated writeHandedStatus
  split_ifs with hgrpc
  · have hcode : formatInt Code.unauthenticated.number = ofString "16" := by decide
    refine ⟨?_, (lossless rej.error).decodes, rfl⟩
    rw [value_grpcStatus, hcode, if_neg (by simp [retryable])]
  · cases henc : lookupEncoding lib r.contentType with
    | none => exact tellsHTTP_text henc rfl rfl rfl
    | some enc => exact tellsHTTP_encoded henc rfl rfl (fun _ ↦ rfl) (fun _ ↦ rfl) (fun _ ↦ rfl)

end Answers

end OtlpCollectorOidc.Receiver

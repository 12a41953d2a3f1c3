import OtlpCollectorOidc.Auth.Rejection
import OtlpCollectorOidc.Receiver.Answer
import OtlpCollectorOidc.Upstream.Config

namespace OtlpCollectorOidc.Receiver

open Text
open Upstream (Signal)

inductive Transport where
  | http
  | grpc

def Transport.string : Transport → Bytes
  | .http => "http"
  | .grpc => "grpc"

/-- Why a request was refused before it reached the pipeline. -/
inductive RefusalReason where
  | method
  | mediaType
  | bodyTooLarge
  | decode
  | unknownPath
  | decompress

def RefusalReason.string : RefusalReason → Bytes
  | .method => "method"
  | .mediaType => "media_type"
  | .bodyTooLarge => "body_too_large"
  | .decode => "decode"
  | .unknownPath => "unknown_path"
  | .decompress => "decompress"

/-- What handling a request does: count it in requests_refused, run an Export handler, answer. -/
inductive Effect where
  | refused (t : Transport) (reason : RefusalReason)
  | exported
  | answered (resp : Response)

def Effect.isRefusal : Effect → Bool
  | .refused _ _ => true
  | _ => false

def Effect.isExport : Effect → Bool
  | .exported => true
  | _ => false

/-- By how much requests_refused grows. -/
def refusals (es : List Effect) : ℕ := es.countP Effect.isRefusal

def exported (es : List Effect) : Bool := es.any Effect.isExport

structure Exporter where
  Req : Type
  Resp : Type
  unmarshal : Encoding → Bytes → Except Bytes Req
  run : Req → Except Status Resp
  marshal : Encoding → Resp → Except Bytes Bytes

/-- What grpc-go tells a stats handler of an RPC; at its end, the code of the error if there was one. -/
inductive RPCStats where
  | other
  | ended (error : Option Code)

/-- A call of grpc-go into the stats handler, the interceptor or the unknown-service handler. -/
inductive Callback where
  | tagRPC
  | handleRPC (s : RPCStats)
  | markHandled
  | unknownService

/-- Why an RPC that failed before its handler was refused; a client that went away was not. -/
def grpcRefusalReason : Code → Option RefusalReason
  | .unimplemented => some .unknownPath
  | .resourceExhausted => some .bodyTooLarge
  | .canceled | .deadlineExceeded | .ok => none
  | .unknown | .invalidArgument | .notFound | .alreadyExists | .permissionDenied
  | .failedPrecondition | .aborted
  | .outOfRange | .internal | .unavailable | .dataLoss | .unauthenticated | .other _ _ => some .decode

/-- An RPC under way: the flag TagRPC puts in its context, and what was done so far. -/
structure RPC where
  handled : Option Bool := none
  effects : List Effect := []

namespace RPC

def store (s : RPC) : Option Bool := s.handled.map (fun _ ↦ true)

/-- One callback. The interceptor hands the message on to the Export handler. -/
def step (s : RPC) : Callback → RPC
  | .tagRPC => { s with handled := some false }
  | .markHandled => { handled := s.store, effects := s.effects ++ [.exported] }
  | .unknownService => { handled := s.store, effects := s.effects ++ [.refused .grpc .unknownPath] }
  | .handleRPC .other => s
  | .handleRPC (.ended none) => s
  | .handleRPC (.ended (some code)) =>
    if s.handled = some true then s
    else match grpcRefusalReason code with
      | some reason => { s with effects := s.effects ++ [.refused .grpc reason] }
      | none => s

end RPC

def rpcEffects (cs : List Callback) : List Effect := (cs.foldl RPC.step {}).effects

def endedWith (cs : List Callback) : Option Code :=
  cs.findSome? (fun c ↦ match c with
    | .handleRPC (.ended error) => error
    | _ => none)

/-- What grpc-go calls for one RPC. A routed one is tagged first and ended last, with the
interceptor run only if its message decoded; for one it cannot route the unknown-service
handler runs, whether or not the stats handler is told of it. -/
inductive Conduct : List Callback → Prop where
  | routed {middle : List Callback} (error : Option Code) :
    (∀ c ∈ middle, c = .handleRPC .other ∨ c = .markHandled) →
    Conduct (.tagRPC :: (middle ++ [.handleRPC (.ended error)]))
  | unrouted : Conduct [.unknownService]
  | unroutedTagged {before after : List Callback} (error : Option Code) :
    (∀ c ∈ before, c = .handleRPC .other) → (∀ c ∈ after, c = .handleRPC .other) →
    Conduct (.tagRPC :: (before ++ .unknownService :: (after ++ [.handleRPC (.ended error)])))

/-- The gRPC server: for each request it takes up, what it calls. -/
structure GRPCServer where
  callbacks : Request → List Callback
  conduct : ∀ r, Conduct (callbacks r)

/-- Whether grpc-go takes a request up as an RPC. It answers any other itself. -/
def takesUp (r : Request) : Bool :=
  r.method = ofString "POST" &&
    (r.contentType = ofString "application/grpc" || (ofString "application/grpc+").isPrefixOf r.contentType ||
      (ofString "application/grpc;").isPrefixOf r.contentType)

def GRPCServer.serveHTTP (g : GRPCServer) (r : Request) : List Effect :=
  if takesUp r then rpcEffects (g.callbacks r) else []

/-- The one listener: its collaborators and the signals that have a pipeline. -/
structure SinglePort where
  lib : Codecs
  grpcServer : GRPCServer
  registered : Signal → Option Exporter

namespace SinglePort

variable (s : SinglePort)

def routes (path : Bytes) : Option Exporter :=
  if path = ofString "/v1/traces" then s.registered .traces
  else if path = ofString "/v1/logs" then s.registered .logs
  else if path = ofString "/v1/metrics" then s.registered .metrics
  else none

def exportHandler (x : Exporter) (r : Request) : List Effect :=
  if r.method ≠ ofString "POST" then
    [.refused .http .method,
      .answered (httpError [header "Allow" "POST"] "405 method not allowed, supported: [POST]" 405)]
  else match lookupEncoding s.lib r.contentType with
    | none =>
      [.refused .http .mediaType, .answered (httpError []
        "415 unsupported media type, supported: [application/json, application/x-protobuf]" 415)]
    | some enc =>
      match r.body with
      | .error (.maxBytes msg) =>
        [.refused .http .bodyTooLarge, .answered (writeStatus s.lib [] enc 413 (statusFromHTTP msg 413))]
      | .error (.other msg) =>
        [.refused .http .decode, .answered (writeStatus s.lib [] enc 400 (statusFromHTTP msg 400))]
      | .ok body =>
        match x.unmarshal enc body with
        | .error msg =>
          [.refused .http .decode, .answered (writeStatus s.lib [] enc 400 (statusFromHTTP msg 400))]
        | .ok req =>
          match x.run req with
          | .error st => [.exported, .answered (writeStatus s.lib [] enc (httpStatusFromStatus st) st)]
          | .ok resp =>
            match x.marshal enc resp with
            | .error msg => [.exported, .answered (writeStatus s.lib [] enc 500 (statusFromHTTP msg 500))]
            | .ok out => [.exported, .answered (writeBody [] enc.mediaType 200 out)]

/-- One request: gRPC to the gRPC server, a registered path to its signal's handler, anything else 404. -/
def serveHTTP (r : Request) : List Effect :=
  if isGRPC r then s.grpcServer.serveHTTP r
  else match s.routes r.path with
    | some x => s.exportHandler x r
    | none => [.refused .http .unknownPath, .answered (httpError [] "404 page not found" 404)]

/-- The listener's error handler: an authenticator's refusal is its own to count. -/
def errorHandler (r : Request) (msg : Bytes) (httpStatus : ℕ) : List Effect :=
  if httpStatus = 401 && msg = Auth.errNotReady then [.answered (writeNotReady s.lib r msg)]
  else if httpStatus = 401 then [.answered (writeUnauthenticated s.lib r msg)]
  else [.refused (if isGRPC r then .grpc else .http) .decompress,
    .answered (writeHandedStatus s.lib [] r msg httpStatus)]

end SinglePort

/-- How far a request that passed authentication gets in the listener. Only the
authenticator's refusals are handed over as 401. -/
inductive Arrival where
  | undecompressed (msg : Bytes) (httpStatus : ℕ) (h : httpStatus ≠ 401)
  | dispatched

def SinglePort.handle (s : SinglePort) (r : Request) : Arrival → List Effect
  | .undecompressed msg httpStatus _ => s.errorHandler r msg httpStatus
  | .dispatched => s.serveHTTP r

/-- What grpc-go calls for a request; nothing where it answers itself or is not asked. -/
def SinglePort.rpc (s : SinglePort) (r : Request) : Arrival → List Callback
  | .undecompressed _ _ _ => []
  | .dispatched => if isGRPC r && takesUp r then s.grpcServer.callbacks r else []

/-- Counted once if it was refused before an Export handler ran, unless its RPC was
cancelled or timed out, and never if one ran. -/
structure CountedOnce (es : List Effect) (ended : Option Code) : Prop where
  ran : exported es = true → refusals es = 0
  refused : exported es = false → ended ≠ some .canceled → ended ≠ some .deadlineExceeded → refusals es = 1

/-- An RPC that reaches neither an Export handler nor the unknown-service handler ends with an error. -/
def FailsIfRefused (cs : List Callback) : Prop :=
  (∀ c ∈ cs, c ≠ .markHandled ∧ c ≠ .unknownService) → ∃ code, endedWith cs = some code ∧ code ≠ .ok

/-- What is sent as gRPC is taken up by grpc-go, which tells of a refusal. -/
def Heard (s : SinglePort) (r : Request) : Arrival → Prop
  | .undecompressed _ _ _ => True
  | .dispatched => isGRPC r = true → takesUp r = true ∧ FailsIfRefused (s.grpcServer.callbacks r)

section Effects

@[simp] theorem refusals_append (es fs : List Effect) : refusals (es ++ fs) = refusals es + refusals fs :=
  List.countP_append

@[simp] theorem refusals_cons (e : Effect) (es : List Effect) :
    refusals (e :: es) = refusals es + if e.isRefusal then 1 else 0 := List.countP_cons

@[simp] theorem refusals_nil : refusals [] = 0 := rfl

@[simp] theorem exported_append (es fs : List Effect) :
    exported (es ++ fs) = (exported es || exported fs) := List.any_append

@[simp] theorem exported_cons (e : Effect) (es : List Effect) :
    exported (e :: es) = (e.isExport || exported es) := rfl

@[simp] theorem exported_nil : exported [] = false := rfl

attribute [simp] Effect.isRefusal Effect.isExport

end Effects

/-- Every exit of an endpoint counts the request or has exported it. -/
theorem exportHandler_cases (s : SinglePort) (x : Exporter) (r : Request) :
    (∃ reason resp, s.exportHandler x r = [.refused .http reason, .answered resp]) ∨
    ∃ resp, s.exportHandler x r = [.exported, .answered resp] := by
  unfold SinglePort.exportHandler
  split
  · exact Or.inl ⟨_, _, rfl⟩
  · split
    · exact Or.inl ⟨_, _, rfl⟩
    · split
      · exact Or.inl ⟨_, _, rfl⟩
      · exact Or.inl ⟨_, _, rfl⟩
      · split
        · exact Or.inl ⟨_, _, rfl⟩
        · split
          · exact Or.inr ⟨_, rfl⟩
          · split <;> exact Or.inr ⟨_, rfl⟩

theorem countedOnce_refused (t : Transport) (reason : RefusalReason) (resp : Response) (ended : Option Code) :
    CountedOnce [.refused t reason, .answered resp] ended := ⟨by simp, by simp⟩

theorem countedOnce_exported (resp : Response) (ended : Option Code) :
    CountedOnce [.exported, .answered resp] ended :=
  ⟨by simp, by simp⟩

section RPC

/-- A tagged RPC before its end: the flag says whether it was exported, and nothing was counted. -/
structure Flagged (s : RPC) : Prop where
  flag : s.handled = some (exported s.effects)
  uncounted : refusals s.effects = 0

theorem flagged_tagged : Flagged (RPC.step {} .tagRPC) := ⟨rfl, rfl⟩

theorem Flagged.step {s : RPC} (h : Flagged s) {c : Callback}
    (hc : c = .handleRPC .other ∨ c = .markHandled) :
    Flagged (s.step c) := by
  obtain rfl | rfl := hc
  · exact h
  · exact ⟨by simp [RPC.step, RPC.store, h.flag], by simp [RPC.step, h.uncounted]⟩

theorem exported_step {s : RPC} {c : Callback} (hc : c = .handleRPC .other ∨ c = .markHandled) :
    exported (s.step c).effects = true ↔ exported s.effects = true ∨ c = .markHandled := by
  obtain rfl | rfl := hc <;> simp [RPC.step]

theorem Flagged.foldl {s : RPC} (h : Flagged s) {cs : List Callback}
    (hcs : ∀ c ∈ cs, c = .handleRPC .other ∨ c = .markHandled) :
    Flagged (cs.foldl RPC.step s) ∧
    (exported (cs.foldl RPC.step s).effects = true ↔ exported s.effects = true ∨ .markHandled ∈ cs) := by
  induction cs generalizing s with
  | nil => exact ⟨h, by simp⟩
  | cons c cs ih =>
    have hc := hcs c List.mem_cons_self
    obtain ⟨hflagged, hexported⟩ := ih (h.step hc) (fun d hd ↦ hcs d (List.mem_cons_of_mem c hd))
    refine ⟨hflagged, ?_⟩
    rw [List.foldl_cons, hexported, exported_step hc, List.mem_cons, or_assoc, eq_comm (a := c)]

theorem foldl_others {s : RPC} {cs : List Callback} (hcs : ∀ c ∈ cs, c = .handleRPC .other) :
    cs.foldl RPC.step s = s := by
  induction cs with
  | nil => rfl
  | cons c cs ih =>
    rw [List.foldl_cons, hcs c List.mem_cons_self]
    exact ih (fun d hd ↦ hcs d (List.mem_cons_of_mem c hd))

/-- The end of a tagged RPC: it is counted when it was not exported and failed for a reason of its own. -/
theorem Flagged.ended {s : RPC} (h : Flagged s) (error : Option Code) :
    exported (s.step (.handleRPC (.ended error))).effects = exported s.effects ∧
    refusals (s.step (.handleRPC (.ended error))).effects =
      if exported s.effects = false ∧ (error.bind grpcRefusalReason).isSome then 1 else 0 := by
  cases error with
  | none => exact ⟨rfl, by simp [RPC.step, h.uncounted]⟩
  | some code =>
    rw [RPC.step, h.flag]
    cases he : exported s.effects with
    | true => simp [he, h.uncounted]
    | false =>
      simp only [Option.some.injEq, Bool.false_eq_true, if_false]
      cases hr : grpcRefusalReason code <;> simp [he, h.uncounted, hr]

theorem endedWith_others {cs : List Callback} (hcs : ∀ c ∈ cs, c = .handleRPC .other ∨ c = .markHandled) :
    endedWith cs = none := by
  rw [endedWith, List.findSome?_eq_none_iff]
  intro c hc
  obtain rfl | rfl := hcs c hc <;> rfl

theorem endedWith_append (cs ds : List Callback) : endedWith (cs ++ ds) = (endedWith cs).or (endedWith ds) :=
  List.findSome?_append

theorem grpcRefusalReason_eq_none {code : Code} :
    grpcRefusalReason code = none ↔ code = .canceled ∨ code = .deadlineExceeded ∨ code = .ok := by
  cases code <;> simp [grpcRefusalReason]

theorem endedWith_end (error : Option Code) : endedWith [.handleRPC (.ended error)] = error := by
  cases error <;> rfl

theorem exists_failure_iff {error : Option Code} :
    (∃ code, error = some code ∧ code ≠ .ok) ↔
      (error.bind grpcRefusalReason).isSome = true ∨ error = some .canceled ∨
        error = some .deadlineExceeded := by
  cases error with
  | none => simp
  | some code =>
    cases hr : grpcRefusalReason code with
    | none =>
      obtain rfl | rfl | rfl := grpcRefusalReason_eq_none.mp hr <;> simp [hr]
    | some reason =>
      have hne : code ≠ .ok := by
        rintro rfl
        cases hr
      simp [hr, hne]

section Routed

variable {middle : List Callback} (hmiddle : ∀ c ∈ middle, c = .handleRPC .other ∨ c = .markHandled)
    (error : Option Code)
include hmiddle

theorem rpcEffects_routed :
    (exported (rpcEffects (.tagRPC :: (middle ++ [.handleRPC (.ended error)]))) = true ↔
      .markHandled ∈ middle) ∧
    refusals (rpcEffects (.tagRPC :: (middle ++ [.handleRPC (.ended error)]))) =
      if exported (rpcEffects (.tagRPC :: (middle ++ [.handleRPC (.ended error)]))) = false ∧
        (error.bind grpcRefusalReason).isSome then 1 else 0 := by
  obtain ⟨hflagged, hexported⟩ := flagged_tagged.foldl hmiddle
  obtain ⟨hexp, hrefusals⟩ := hflagged.ended error
  have heffects : rpcEffects (.tagRPC :: (middle ++ [.handleRPC (.ended error)])) =
      ((middle.foldl RPC.step (RPC.step {} .tagRPC)).step (.handleRPC (.ended error))).effects := by
    simp [rpcEffects]
  rw [heffects, hexp, hexported]
  exact ⟨by simp [RPC.step], hrefusals⟩

theorem endedWith_routed : endedWith (.tagRPC :: (middle ++ [.handleRPC (.ended error)])) = error := by
  have htag : endedWith [.tagRPC] = none := rfl
  rw [← List.singleton_append, endedWith_append, endedWith_append, htag,
    endedWith_others hmiddle, endedWith_end]
  rfl

theorem failsIfRefused_routed : FailsIfRefused (.tagRPC :: (middle ++ [.handleRPC (.ended error)])) ↔
    (.markHandled ∉ middle →
      (error.bind grpcRefusalReason).isSome = true ∨ error = some .canceled ∨
        error = some .deadlineExceeded) := by
  have hnone : (∀ c ∈ .tagRPC :: (middle ++ [.handleRPC (.ended error)]), c ≠ .markHandled ∧
    c ≠ .unknownService) ↔
      .markHandled ∉ middle := by
    constructor
    · intro h hm
      exact (h .markHandled (by simp [hm])).1 rfl
    · intro hm c hc
      rw [List.mem_cons, List.mem_append, List.mem_singleton] at hc
      obtain rfl | hc | rfl := hc
      · simp
      · obtain rfl | rfl := hmiddle c hc
        · simp
        · exact absurd hc hm
      · simp
  rw [FailsIfRefused, hnone, endedWith_routed hmiddle, exists_failure_iff]

end Routed

theorem countedOnce_iff_of_refusals {es : List Effect} {error : Option Code}
    (h : refusals es = if exported es = false ∧ (error.bind grpcRefusalReason).isSome then 1 else 0) :
    CountedOnce es error ↔ (exported es = false →
      (error.bind grpcRefusalReason).isSome = true ∨ error = some .canceled ∨
        error = some .deadlineExceeded) := by
  constructor
  · intro hc hran
    by_contra hnot
    rw [not_or, not_or] at hnot
    have hone := hc.refused hran hnot.2.1 hnot.2.2
    rw [h, if_neg (fun hr ↦ hnot.1 hr.2)] at hone
    cases hone
  · intro hf
    refine ⟨fun hran ↦ ?_, fun hran hcanceled hdeadline ↦ ?_⟩
    · rw [h, hran]
      simp
    · obtain hr | hr | hr := hf hran
      · rw [h, if_pos ⟨hran, hr⟩]
      · exact absurd hr hcanceled
      · exact absurd hr hdeadline

/-- Among what grpc-go may call for an RPC, only an end without an error leaves a refusal uncounted. -/
theorem countedOnce_rpc_iff {cs : List Callback} (h : Conduct cs) :
    CountedOnce (rpcEffects cs) (endedWith cs) ↔ FailsIfRefused cs := by
  cases h with
  | @routed middle error hmiddle =>
    obtain ⟨hexported, hrefusals⟩ := rpcEffects_routed hmiddle error
    rw [endedWith_routed hmiddle, countedOnce_iff_of_refusals hrefusals, failsIfRefused_routed hmiddle,
      ← hexported, Bool.not_eq_true]
  | unrouted =>
    refine iff_of_true ⟨by simp [rpcEffects, RPC.step], by simp [rpcEffects, RPC.step]⟩ ?_
    intro h
    exact absurd rfl (h _ List.mem_cons_self).2
  | @unroutedTagged before after error hbefore hafter =>
    have heffects : rpcEffects
      (.tagRPC :: (before ++ .unknownService :: (after ++ [.handleRPC (.ended error)]))) =
        [.refused .grpc .unknownPath] := by
      simp only [rpcEffects, List.foldl_cons, List.foldl_append, List.foldl_nil, foldl_others hbefore,
        foldl_others hafter]
      cases error <;> rfl
    rw [heffects]
    refine iff_of_true ⟨by simp, by simp⟩ ?_
    intro h
    exact absurd rfl (h .unknownService (by simp)).2

end RPC

theorem countedOnce_iff_heard (s : SinglePort) (r : Request) (a : Arrival) :
    CountedOnce (s.handle r a) (endedWith (s.rpc r a)) ↔ Heard s r a := by
  cases a with
  | undecompressed msg httpStatus h =>
    have he : s.errorHandler r msg httpStatus = [.refused (if isGRPC r then .grpc else .http) .decompress,
        .answered (writeHandedStatus s.lib [] r msg httpStatus)] := by
      simp [SinglePort.errorHandler, h]
    rw [SinglePort.handle, he]
    exact iff_of_true (countedOnce_refused _ _ _ _) trivial
  | dispatched =>
    rw [SinglePort.handle, SinglePort.serveHTTP, SinglePort.rpc, Heard]
    cases hgrpc : isGRPC r with
    | false =>
      refine iff_of_true ?_ (by simp)
      simp only [Bool.false_eq_true, if_false]
      cases s.routes r.path with
      | none => exact countedOnce_refused _ _ _ _
      | some x =>
        dsimp only
        obtain ⟨reason, resp, he⟩ | ⟨resp, he⟩ := exportHandler_cases s x r
        · rw [he]
          exact countedOnce_refused _ _ _ _
        · rw [he]
          exact countedOnce_exported _ _
    | true =>
      cases htakes : takesUp r with
      | false =>
        have hsilent : ¬ CountedOnce [] (endedWith []) := by
          intro h
          cases h.refused rfl (by simp [endedWith]) (by simp [endedWith])
        simpa [GRPCServer.serveHTTP, htakes] using hsilent
      | true =>
        simpa [GRPCServer.serveHTTP, htakes] using countedOnce_rpc_iff (s.grpcServer.conduct r)

/-- A request is counted as it should be exactly when grpc-go tells of every refusal of its
own, and an authenticator's refusal is never counted. -/
theorem refused_requests_counted_once_iff (s : SinglePort) (r : Request) :
    (∀ msg, refusals (s.errorHandler r msg 401) = 0) ∧
    ∀ a, CountedOnce (s.handle r a) (endedWith (s.rpc r a)) ↔ Heard s r a := by
  refine ⟨?_, countedOnce_iff_heard s r⟩
  intro msg
  by_cases hm : msg = Auth.errNotReady <;> simp [SinglePort.errorHandler, hm]

def examplePort : SinglePort where
  lib := ⟨fun _ ↦ none, fun _ _ ↦ none, id⟩
  grpcServer := ⟨fun _ ↦ [.unknownService], fun _ ↦ .unrouted⟩
  registered _ := none

def grpcWebRequest : Request where
  protoMajor := 2
  method := "POST"
  path := "/opentelemetry.proto.collector.trace.v1.TraceService/Export"
  contentType := "application/grpc-web+proto"
  body := .ok []

/-- A gRPC-web request goes to the gRPC server, which refuses its content type unseen: no Export handler runs
and nothing is counted, where the same request over HTTP/1.1 is counted. -/
theorem grpc_web_refused_uncounted :
    examplePort.handle grpcWebRequest .dispatched = [] ∧
    ¬ CountedOnce (examplePort.handle grpcWebRequest .dispatched) none ∧
    refusals (examplePort.handle { grpcWebRequest with protoMajor := 1 } .dispatched) = 1 := by
  have hnil : examplePort.handle grpcWebRequest .dispatched = [] := by
    have hgrpc : isGRPC grpcWebRequest = true := by decide
    have htakes : takesUp grpcWebRequest = false := by decide
    simp [SinglePort.handle, SinglePort.serveHTTP, hgrpc, GRPCServer.serveHTTP, htakes]
  refine ⟨hnil, ?_, by decide⟩
  intro h
  rw [hnil] at h
  cases h.refused rfl (by simp) (by simp)

end OtlpCollectorOidc.Receiver

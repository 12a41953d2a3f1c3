import OtlpCollectorOidc.Receiver.Refusals

namespace OtlpCollectorOidc.Receiver

open Text Strconv

/-- An error value of Go: its text, what its GRPCStatus method answers where it has one, whether it is
the one that marks an error permanent, and the errors it wraps or joins. -/
inductive GoError where
  | mk (text : Bytes) (grpcStatus : Option (Option Status)) (permanent : Bool) (wrapped : List GoError)

namespace GoError

def text : GoError → Bytes
  | mk text _ _ _ => text

def grpcStatus : GoError → Option (Option Status)
  | mk _ grpcStatus _ _ => grpcStatus

def permanent : GoError → Bool
  | mk _ _ permanent _ => permanent

mutual

/-- The errors `errors.As` looks at, in its order. -/
def chain : GoError → List GoError
  | mk text grpcStatus permanent wrapped => mk text grpcStatus permanent wrapped :: chains wrapped

def chains : List GoError → List GoError
  | [] => []
  | e :: es => e.chain ++ chains es

end

/-- The answer of the first GRPCStatus method in the chain, unless it is nil. -/
def carried (err : GoError) : Option Status := (err.chain.findSome? grpcStatus).bind id

/-- `consumererror.IsPermanent`. -/
def isPermanent (err : GoError) : Bool := err.chain.any permanent

end GoError

def Code.string : Code → Bytes
  | ok => "OK"
  | canceled => "Canceled"
  | unknown => "Unknown"
  | invalidArgument => "InvalidArgument"
  | deadlineExceeded => "DeadlineExceeded"
  | notFound => "NotFound"
  | alreadyExists => "AlreadyExists"
  | permissionDenied => "PermissionDenied"
  | resourceExhausted => "ResourceExhausted"
  | failedPrecondition => "FailedPrecondition"
  | aborted => "Aborted"
  | outOfRange => "OutOfRange"
  | unimplemented => "Unimplemented"
  | internal => "Internal"
  | unavailable => "Unavailable"
  | dataLoss => "DataLoss"
  | unauthenticated => "Unauthenticated"
  | other n _ => ofString "Code(" ++ formatInt n ++ ofString ")"

/-- `status.FromError`; none where the error carries no status. A status found further down takes the
text of the whole error. -/
def fromError (err : GoError) : Option Status :=
  match err.grpcStatus with
  | some st => st
  | none => err.carried.map (fun st ↦ { st with message := err.text })

/-- `status.Convert`. -/
def convert (err : GoError) : Status := (fromError err).getD { code := .unknown, message := err.text }

/-- `Status.Err`: a status of code OK is no error. -/
def Status.err (st : Status) : Option GoError :=
  if st.code = .ok then none
  else some (.mk (ofString "rpc error: code = " ++ st.code.string ++ ofString " desc = " ++ st.message)
    (some (some st)) false [])

def statusFromConsumerError (err : GoError) : Option GoError :=
  let st := match fromError err with
    | some st => st
    | none => { code := if err.isPermanent then .internal else .unavailable, message := err.text }
  st.err

/-- One signal's Export handler: its messages and its next consumer. The empty response is one pdata
always marshals. -/
structure SignalExporter where
  Req : Type
  unmarshal : Encoding → Bytes → Except Bytes Req
  response : Encoding → Bytes
  count : Req → ℕ
  next : Req → Option GoError

/-- What one export did: the requests handed to the consumer, and the error it returns. -/
structure Exported (Req : Type) where
  consumed : List Req
  err : Option GoError

namespace SignalExporter

variable (x : SignalExporter)

def runExport (req : x.Req) : Exported x.Req :=
  if x.count req = 0 then ⟨[], none⟩
  else match x.next req with
    | some err => ⟨[req], statusFromConsumerError err⟩
    | none => ⟨[req], none⟩

def endpoint : Exporter where
  Req := x.Req
  Resp := Unit
  unmarshal := x.unmarshal
  run req := match (x.runExport req).err with
    | some err => .error (convert err)
    | none => .ok ()
  marshal enc _ := .ok (x.response enc)

/-- The status grpc-go ends the call with; an error that carries none is left to `status.FromContextError`. -/
def grpcAnswer (fromContextError : GoError → Status) (req : x.Req) : Status :=
  match (x.runExport req).err with
  | none => { code := .ok, message := [] }
  | some err => (fromError err).getD (fromContextError err)

end SignalExporter

section Signals

variable (Item : Type)

abbrev Scoped := List (List (List Item))

variable {Item}

def itemCount (resources : Scoped Item) : ℕ := (resources.map (fun scopes ↦ (scopes.map List.length).sum)).sum

def spanCount (td : Scoped Item) : ℕ := itemCount td

def logRecordCount (ld : Scoped Item) : ℕ := itemCount ld

/-- A metric counts as the data points it has. -/
def dataPointCount (md : Scoped (List Item)) : ℕ :=
  (md.map (fun scopes ↦ (scopes.map (fun metrics ↦ (metrics.map List.length).sum)).sum)).sum

variable (unmarshal : Encoding → Bytes → Except Bytes (Scoped Item)) (response : Encoding → Bytes)
  (next : Scoped Item → Option GoError)

def tracesExporter : SignalExporter := ⟨Scoped Item, unmarshal, response, spanCount, next⟩

def logsExporter : SignalExporter := ⟨Scoped Item, unmarshal, response, logRecordCount, next⟩

def metricsExporter (unmarshal : Encoding → Bytes → Except Bytes (Scoped (List Item)))
    (next : Scoped (List Item) → Option GoError) : SignalExporter :=
  ⟨Scoped (List Item), unmarshal, response, dataPointCount, next⟩

end Signals

def GoError.code (err : GoError) : Code :=
  match err.carried with
  | some st => st.code
  | none => if err.isPermanent then .internal else .unavailable

/-- The data was consumed, or there was none. -/
def SignalExporter.Accepted (x : SignalExporter) (req : x.Req) : Prop := x.count req = 0 ∨ x.next req = none

/-- Both transports tell what became of a request. -/
structure Told (x : SignalExporter) (req : x.Req) (http : Response) (grpc : Status) : Prop where
  consumed : (x.runExport req).consumed = if x.count req = 0 then [] else [req]
  grpcSuccess : grpc.code = .ok ↔ x.Accepted req
  httpSuccess : http.status = 200 ↔ x.Accepted req
  sameStatus : ¬ x.Accepted req → http.status = httpStatusFromStatus grpc
  code : ∀ err, x.count req ≠ 0 → x.next req = some err → grpc.code = err.code

def GoError.status (err : GoError) : Status := (fromError err).getD { code := err.code, message := err.text }

/-- An error both transports can tell: it carries no status of code OK, and its status can be written in the
encoding of the request unless it is answered 500 either way. -/
structure Tellable (lib : Codecs) (enc : Encoding) (err : GoError) : Prop where
  carriesError : ∀ st, err.carried = some st → st.code ≠ .ok
  written : lib.marshalStatus enc err.status = none → httpStatusFromStatus err.status = 500

theorem chain_eq (err : GoError) : ∃ rest, err.chain = err :: rest := by
  cases err
  exact ⟨_, rfl⟩

/-- Whether the status is the error's own or a wrapped one's makes no difference to its code. -/
theorem fromError_eq (err : GoError) :
    (fromError err).map Status.code = err.carried.map Status.code := by
  obtain ⟨rest, hchain⟩ := chain_eq err
  unfold fromError
  cases hown : err.grpcStatus with
  | none =>
    dsimp only
    rw [Option.map_map]
    rfl
  | some st => simp [GoError.carried, hchain, hown]

theorem code_status (err : GoError) : err.status.code = err.code := by
  have h := fromError_eq err
  unfold GoError.status GoError.code
  cases hf : fromError err with
  | none => rfl
  | some st =>
    rw [hf, Option.map_some, eq_comm, Option.map_eq_some_iff] at h
    obtain ⟨carried, hcarried, hcode⟩ := h
    rw [hcarried]
    exact hcode.symm

theorem statusFromConsumerError_eq (err : GoError) : statusFromConsumerError err = err.status.err := by
  have h := fromError_eq err
  unfold statusFromConsumerError GoError.status
  cases hf : fromError err with
  | none =>
    rw [hf, Option.map_none, eq_comm, Option.map_eq_none_iff] at h
    simp [GoError.code, h]
  | some st => rfl

theorem fromError_err {st : Status} {err : GoError} (h : st.err = some err) : fromError err = some st := by
  unfold Status.err at h
  split_ifs at h
  cases h
  rfl

theorem code_eq_ok_iff (err : GoError) : err.code = .ok ↔ ∃ st, err.carried = some st ∧ st.code = .ok := by
  unfold GoError.code
  cases err.carried with
  | some st => simp
  | none => cases err.isPermanent <;> simp

theorem httpStatusFromStatus_ne (st : Status) : httpStatusFromStatus st ≠ 200 := by
  unfold httpStatusFromStatus
  split <;> decide

theorem status_writeStatus (lib : Codecs) (headers : Headers) (enc : Encoding)
    (httpStatus : ℕ) (st : Status) :
    (writeStatus lib headers enc httpStatus st).status =
      if lib.marshalStatus enc st = none then 500 else httpStatus := by
  unfold writeStatus
  cases lib.marshalStatus enc st <;> rfl

section Answers

variable (x : SignalExporter)

def SignalExporter.httpAnswer (lib : Codecs) (enc : Encoding) (req : x.Req) : Response :=
  match (x.runExport req).err with
  | some err => writeStatus lib [] enc (httpStatusFromStatus (convert err)) (convert err)
  | none => writeBody [] enc.mediaType 200 (x.response enc)

theorem exportHandler_decoded (s : SinglePort) {r : Request} {enc : Encoding} {body : Bytes} {req : x.Req}
    (hmethod : r.method = ofString "POST") (henc : lookupEncoding s.lib r.contentType = some enc)
    (hbody : r.body = .ok body) (hreq : x.unmarshal enc body = .ok req) :
    s.exportHandler x.endpoint r = [.exported, .answered (x.httpAnswer s.lib enc req)] := by
  have hunmarshal : x.endpoint.unmarshal enc body = .ok req := hreq
  unfold SinglePort.exportHandler SignalExporter.httpAnswer
  rw [if_neg (not_not.mpr hmethod), henc, hbody]
  dsimp only
  rw [hunmarshal]
  cases herr : (x.runExport req).err with
  | none => simp [SignalExporter.endpoint, herr]
  | some err => simp [SignalExporter.endpoint, herr]

variable (lib : Codecs) (fromContextError : GoError → Status) (enc : Encoding) {req : x.Req}

theorem told_of_accepted (h : x.Accepted req) :
    Told x req (x.httpAnswer lib enc req) (x.grpcAnswer fromContextError req) := by
  have hrun : x.runExport req = ⟨if x.count req = 0 then [] else [req], none⟩ := by
    unfold SignalExporter.runExport
    split_ifs with hcount
    · rfl
    · rw [h.resolve_left hcount]
  unfold SignalExporter.httpAnswer SignalExporter.grpcAnswer
  rw [hrun]
  refine ⟨by rw [hrun], iff_of_true rfl h, iff_of_true rfl h, fun hnot ↦ absurd h hnot, ?_⟩
  intro err hcount hnext
  rw [h.resolve_left hcount] at hnext
  cases hnext

variable {err : GoError} (hcount : x.count req ≠ 0) (hnext : x.next req = some err)
include hcount hnext

theorem runExport_refused : x.runExport req = ⟨[req], err.status.err⟩ := by
  rw [SignalExporter.runExport, if_neg hcount, hnext, ← statusFromConsumerError_eq]

theorem not_accepted : ¬ x.Accepted req := by
  rintro (h | h)
  · exact hcount h
  · rw [hnext] at h
    cases h

/-- A status of code OK is no error: the client is told that what was refused was taken. -/
theorem grpcAnswer_carriedOK (hok : err.code = .ok) : (x.grpcAnswer fromContextError req).code = .ok := by
  have herr : err.status.err = none := if_pos ((code_status err).trans hok)
  rw [SignalExporter.grpcAnswer, runExport_refused x hcount hnext, herr]

theorem answers_refused (hok : err.code ≠ .ok) :
    x.grpcAnswer fromContextError req = err.status ∧
    x.httpAnswer lib enc req = writeStatus lib [] enc (httpStatusFromStatus err.status) err.status := by
  obtain ⟨sent, hsent⟩ : ∃ sent, err.status.err = some sent :=
    ⟨_, if_neg (fun h ↦ hok ((code_status err).symm.trans h))⟩
  have hconvert : convert sent = err.status := by rw [convert, fromError_err hsent, Option.getD_some]
  unfold SignalExporter.grpcAnswer SignalExporter.httpAnswer
  rw [runExport_refused x hcount hnext, hsent]
  dsimp only
  exact ⟨by rw [fromError_err hsent, Option.getD_some], by rw [hconvert]⟩

theorem told_refused_iff :
    Told x req (x.httpAnswer lib enc req) (x.grpcAnswer fromContextError req) ↔ Tellable lib enc err := by
  have hnot := not_accepted x hcount hnext
  by_cases hok : err.code = .ok
  · refine iff_of_false (fun h ↦ ?_) (fun h ↦ ?_)
    · exact hnot (h.grpcSuccess.mp (grpcAnswer_carriedOK x fromContextError hcount hnext hok))
    · obtain ⟨st, hcarried, hst⟩ := (code_eq_ok_iff err).mp hok
      exact h.carriesError st hcarried hst
  · obtain ⟨hgrpc, hhttp⟩ := answers_refused x lib fromContextError enc hcount hnext hok
    rw [hgrpc, hhttp]
    have hstatus := status_writeStatus lib [] enc (httpStatusFromStatus err.status) err.status
    constructor
    · intro h
      refine ⟨fun st hcarried hst ↦ hok ((code_eq_ok_iff err).mpr ⟨st, hcarried, hst⟩), fun hnone ↦ ?_⟩
      rw [← h.sameStatus hnot, hstatus, if_pos hnone]
    · intro h
      have hsame : (writeStatus lib [] enc (httpStatusFromStatus err.status) err.status).status =
          httpStatusFromStatus err.status := by
        rw [hstatus]
        split_ifs with hnone
        · exact (h.written hnone).symm
        · rfl
      refine ⟨?_, iff_of_false ?_ hnot, iff_of_false ?_ hnot, fun _ ↦ hsame, ?_⟩
      · rw [runExport_refused x hcount hnext, if_neg hcount]
      · rwa [code_status]
      · rw [hsame]
        exact httpStatusFromStatus_ne _
      · intro other _ hother
        rw [hnext, Option.some.injEq] at hother
        rw [code_status, hother]

end Answers

/-- Both transports tell a client what became of its data exactly when the consumer's error, if there is
one, can be told. -/
theorem export_told_iff (s : SinglePort) (x : SignalExporter)
    (fromContextError : GoError → Status) {r : Request} {enc : Encoding} {body : Bytes} {req : x.Req}
    (hmethod : r.method = ofString "POST") (henc : lookupEncoding s.lib r.contentType = some enc)
    (hbody : r.body = .ok body) (hreq : x.unmarshal enc body = .ok req) :
    (∃ http, s.exportHandler x.endpoint r = [.exported, .answered http] ∧
      Told x req http (x.grpcAnswer fromContextError req)) ↔
    ∀ err, x.count req ≠ 0 → x.next req = some err → Tellable s.lib enc err := by
  rw [exportHandler_decoded x s hmethod henc hbody hreq]
  have hanswer : (∃ http, [Effect.exported, .answered (x.httpAnswer s.lib enc req)] =
      [.exported, .answered http] ∧ Told x req http (x.grpcAnswer fromContextError req)) ↔
      Told x req (x.httpAnswer s.lib enc req) (x.grpcAnswer fromContextError req) := by simp
  rw [hanswer]
  by_cases haccepted : x.Accepted req
  · refine iff_of_true (told_of_accepted x s.lib fromContextError enc haccepted) ?_
    intro err hcount hnext
    exact absurd haccepted (not_accepted x hcount hnext)
  · obtain ⟨hcount, hnext⟩ := not_or.mp haccepted
    obtain ⟨err, hnext⟩ := Option.ne_none_iff_exists'.mp hnext
    rw [told_refused_iff x s.lib fromContextError enc hcount hnext]
    constructor
    · intro h other _ hother
      rw [hnext, Option.some.injEq] at hother
      rwa [← hother]
    · intro h
      exact h err hcount hnext

def failingExporter (err : GoError) : SignalExporter :=
  tracesExporter (fun _ _ ↦ .ok [[[()]]]) (fun _ ↦ []) (fun _ ↦ some err)

def plainPort : SinglePort where
  lib := ⟨some, fun _ st ↦ some st.message, id⟩
  grpcServer := ⟨fun _ ↦ [.unknownService], fun _ ↦ .unrouted⟩
  registered _ := none

def tracesRequest : Request where
  protoMajor := 1
  method := "POST"
  path := "/v1/traces"
  contentType := "application/x-protobuf"
  body := .ok []

def refusedUpstream (code : Code) : GoError :=
  .mk "Permanent error: refused" none true
    [.mk "rpc error: refused" (some (some { code := code, message := "refused" })) false []]

/-- A wrapped InvalidArgument is told as such on both transports. -/
theorem invalidArgument_told :
    ∃ http, plainPort.exportHandler
      (failingExporter (refusedUpstream .invalidArgument)).endpoint tracesRequest =
        [.exported, .answered http] ∧
      Told (failingExporter (refusedUpstream .invalidArgument)) [[[()]]] http
        ((failingExporter (refusedUpstream .invalidArgument)).grpcAnswer convert [[[()]]]) := by
  refine (@export_told_iff plainPort
    (failingExporter (refusedUpstream .invalidArgument)) convert tracesRequest
    .protobuf [] [[[()]]] rfl (by decide) rfl rfl).mpr ?_
  intro err _ hnext
  cases hnext
  refine ⟨?_, by intro h; cases h⟩
  intro st hst
  cases hst
  decide

/-- An error around a status of code OK: the span was refused, and both transports report success. -/
theorem carried_ok_told_as_success :
    (failingExporter (refusedUpstream .ok)).count [[[()]]] = 1 ∧
    (failingExporter (refusedUpstream .ok)).next [[[()]]] = some (refusedUpstream .ok) ∧
    ((failingExporter (refusedUpstream .ok)).grpcAnswer convert [[[()]]]).code = .ok ∧
    plainPort.exportHandler (failingExporter (refusedUpstream .ok)).endpoint tracesRequest =
      [.exported, .answered (writeBody [] "application/x-protobuf" 200 [])] := by
  refine ⟨rfl, rfl, rfl, ?_⟩
  exact @exportHandler_decoded (failingExporter (refusedUpstream .ok)) plainPort tracesRequest
    .protobuf [] [[[()]]] rfl (by decide) rfl rfl

end OtlpCollectorOidc.Receiver

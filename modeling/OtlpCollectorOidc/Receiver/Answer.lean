import OtlpCollectorOidc.Lib.Strconv
import OtlpCollectorOidc.Lib.Url

namespace OtlpCollectorOidc.Receiver

open Text Number Strconv

/-- A gRPC status code; a code past the named ones is kept as its number. -/
inductive Code where
  | ok
  | canceled
  | unknown
  | invalidArgument
  | deadlineExceeded
  | notFound
  | alreadyExists
  | permissionDenied
  | resourceExhausted
  | failedPrecondition
  | aborted
  | outOfRange
  | unimplemented
  | internal
  | unavailable
  | dataLoss
  | unauthenticated
  | other (n : ℕ) (h : 16 < n)
  deriving DecidableEq

def Code.number : Code → ℕ
  | ok => 0
  | canceled => 1
  | unknown => 2
  | invalidArgument => 3
  | deadlineExceeded => 4
  | notFound => 5
  | alreadyExists => 6
  | permissionDenied => 7
  | resourceExhausted => 8
  | failedPrecondition => 9
  | aborted => 10
  | outOfRange => 11
  | unimplemented => 12
  | internal => 13
  | unavailable => 14
  | dataLoss => 15
  | unauthenticated => 16
  | other n _ => n

/-- A detail of a status: the delay a RetryInfo may hold, or something else. -/
inductive Detail where
  | retryInfo (delay : Option Duration)
  | other

structure Status where
  code : Code
  message : Bytes
  details : List Detail := []

/-- The OTLP specification's mapping from gRPC to HTTP. -/
def httpStatusFromStatus (s : Status) : ℕ :=
  match s.code with
  | .canceled | .deadlineExceeded | .aborted | .outOfRange | .unavailable | .dataLoss => 503
  | .resourceExhausted => 429
  | .invalidArgument => 400
  | .unauthenticated => 401
  | .permissionDenied => 403
  | .unimplemented => 404
  | .ok | .unknown | .notFound | .alreadyExists | .failedPrecondition | .internal | .other _ _ => 500

def statusFromHTTP (msg : Bytes) (httpStatus : ℕ) : Status where
  message := msg
  code := match httpStatus with
    | 400 => .invalidArgument
    | 401 => .unauthenticated
    | 403 => .permissionDenied
    | 404 => .unimplemented
    | 429 | 413 => .resourceExhausted
    | 502 | 503 | 504 => .unavailable
    | _ => .unknown

inductive Encoding where
  | protobuf
  | json
  deriving DecidableEq

def Encoding.mediaType : Encoding → Bytes
  | .protobuf => "application/x-protobuf"
  | .json => "application/json"

/-- What of Go's library and of protobuf is not spelled out: `mime.ParseMediaType`, the two
ways to marshal a status, and base64. -/
structure Codecs where
  parseMediaType : Bytes → Option Bytes
  marshalStatus : Encoding → Status → Option Bytes
  base64 : Bytes → Bytes

inductive ReadError where
  | maxBytes (msg : Bytes)
  | other (msg : Bytes)

def ReadError.error : ReadError → Bytes
  | .maxBytes msg | .other msg => msg

/-- A request as the handlers read it; the body is what reading all of it gives. -/
structure Request where
  protoMajor : ℕ
  method : Bytes
  path : Bytes
  contentType : Bytes
  body : Except ReadError Bytes

/-- HTTP/2 with a gRPC content type. -/
def isGRPC (r : Request) : Bool := r.protoMajor = 2 && (ofString "application/grpc").isPrefixOf r.contentType

abbrev Headers := List (Bytes × Bytes)

def header (name : String) (value : Bytes) : Bytes × Bytes := (name, value)

structure Response where
  status : ℕ
  headers : Headers
  body : Bytes

/-- `http.Error`, after the headers already set. -/
def httpError (headers : Headers) (msg : Bytes) (status : ℕ) : Response where
  status := status
  headers :=
    headers ++ [header "Content-Type" "text/plain; charset=utf-8", header "X-Content-Type-Options" "nosniff"]
  body := msg ++ ofString "\n"

def writeBody (headers : Headers) (mediaType : Bytes) (status : ℕ) (body : Bytes) : Response :=
  ⟨status, headers ++ [header "Content-Type" mediaType], body⟩

def retryDelay (st : Status) : Option Duration :=
  st.details.findSome? (fun d ↦ match d with
    | .retryInfo delay => delay
    | .other => none)

/-- Every byte outside printable ASCII, and the percent sign, is percent-encoded. -/
def encodeGRPCMessage (msg : Bytes) : Bytes :=
  msg.flatMap (fun c ↦
    if c < 0x20 || 0x7E < c ||
      c = 0x25 then [0x25, Url.upperhex (c.toNat / 16), Url.upperhex (c.toNat % 16)] else [c])

section Write

variable (lib : Codecs)

def lookupEncoding (contentType : Bytes) : Option Encoding :=
  (lib.parseMediaType contentType).bind (fun m ↦ [Encoding.protobuf, .json].find? (fun e ↦ e.mediaType = m))

/-- The OTLP error body, with Retry-After when a retryable answer carries a delay. -/
def writeStatus (headers : Headers) (enc : Encoding) (httpStatus : ℕ) (st : Status) : Response :=
  let retryAfter : Headers :=
    if httpStatus = 429 || httpStatus = 503 then
      match retryDelay st with
      | some d => [header "Retry-After" (formatInt (d.tdiv second))]
      | none => []
    else []
  match lib.marshalStatus enc st with
  | none => httpError (headers ++ retryAfter) "failed to marshal error status" 500
  | some body => writeBody (headers ++ retryAfter) enc.mediaType httpStatus body

/-- A status the listener hands over, in the request's encoding when that is an OTLP one. -/
def writeHandedStatus (headers : Headers) (r : Request) (msg : Bytes) (httpStatus : ℕ) : Response :=
  match lookupEncoding lib r.contentType with
  | some enc => writeStatus lib headers enc httpStatus (statusFromHTTP msg httpStatus)
  | none => httpError headers msg httpStatus

/-- A trailers-only gRPC answer. -/
def writeGRPCStatus (st : Status) : Response where
  status := 200
  headers := [header "Content-Type" "application/grpc", header "Grpc-Status" (formatInt st.code.number),
    header "Grpc-Message" (encodeGRPCMessage st.message)] ++
    (if st.details.isEmpty then []
    else match lib.marshalStatus .protobuf st with
      | some b => [header "Grpc-Status-Details-Bin" (lib.base64 b)]
      | none => [])
  body := []

def writeUnauthenticated (r : Request) (msg : Bytes) : Response :=
  if isGRPC r then writeGRPCStatus lib { code := .unauthenticated, message := msg }
  else writeHandedStatus lib [header "WWW-Authenticate" "Bearer"] r msg 401

def notReadyRetryAfter : Duration := 5 * second

/-- The authenticator's not-ready error, answered as retryable. -/
def writeNotReady (r : Request) (msg : Bytes) : Response :=
  let st : Status :=
    { code := .unavailable, message := msg, details := [.retryInfo (some notReadyRetryAfter)] }
  if isGRPC r then writeGRPCStatus lib st
  else match lookupEncoding lib r.contentType with
    | some enc => writeStatus lib [] enc 503 st
    | none => httpError [header "Retry-After" (formatInt (notReadyRetryAfter.tdiv second))] msg 503

end Write

end OtlpCollectorOidc.Receiver

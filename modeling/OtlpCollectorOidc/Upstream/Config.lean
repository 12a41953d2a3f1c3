import Mathlib.Data.List.Sort
import OtlpCollectorOidc.Lib.Number
import OtlpCollectorOidc.Lib.Url

namespace OtlpCollectorOidc.Upstream

open Text Number

inductive Signal where
  | traces
  | logs
  | metrics
  deriving DecidableEq

def signals : List Signal := [.traces, .logs, .metrics]

theorem mem_signals (sig : Signal) : sig ∈ signals := by cases sig <;> decide

def Signal.string : Signal → Bytes
  | .traces => "traces"
  | .logs => "logs"
  | .metrics => "metrics"

def Signal.variablePart : Signal → Bytes
  | .traces => "TRACES_"
  | .logs => "LOGS_"
  | .metrics => "METRICS_"

def parseSignal (s : Bytes) : Option Signal := signals.find? (fun sig ↦ sig.string = s)

theorem parseSignal_string (sig : Signal) : parseSignal sig.string = some sig := by cases sig <;> decide

inductive Protocol where
  | grpc
  | httpProtobuf
  deriving DecidableEq

def Protocol.string : Protocol → Bytes
  | .grpc => "grpc"
  | .httpProtobuf => "http/protobuf"

def Protocol.parse (raw : Bytes) : Option Protocol :=
  [.grpc, .httpProtobuf].find? (fun p ↦ Protocol.string p = raw)

inductive Compression where
  | gzip
  | none
  deriving DecidableEq

def Compression.string : Compression → Bytes
  | .gzip => "gzip"
  | .none => "none"

def Compression.parse (raw : Bytes) : Option Compression :=
  [.gzip, .none].find? (fun c ↦ Compression.string c = raw)

structure Header where
  name : Bytes
  value : Bytes
  deriving DecidableEq

/-- A header list in a comparable form: each pair percent-encoded and the pairs
joined with an ampersand, sorted by name. -/
abbrev Headers := Bytes

def readPair (pair : Bytes) : Header :=
  let (k, v) := (cut 0x3D pair).getD (pair, [])
  ⟨(Url.queryUnescape k).getD [], (Url.queryUnescape v).getD []⟩

namespace Headers

def pairs (h : Headers) : List Header := if h = [] then [] else (h.splitOn 0x26).map readPair

def names (h : Headers) : List Bytes := h.pairs.map Header.name

end Headers

def nameLE (a b : Header) : Bool := compareLE a.name b.name

def sortHeaders (hs : List Header) : List Header := hs.insertionSort (fun a b ↦ nameLE a b = true)

def encodePair (p : Header) : Bytes := Url.queryEscape p.name ++ 0x3D :: Url.queryEscape p.value

def newHeaders (hs : List Header) : Headers := join [0x26] ((sortHeaders hs).map encodePair)

def mask (p : Header) : Header := { p with value := ofString "<redacted>" }

def Headers.redacted (h : Headers) : Headers := newHeaders (h.pairs.map mask)

inductive HeaderError where
  | notKeyValue (n : ℕ)
  | malformedEncoding (n : ℕ)
  | badName (n : ℕ)
  | badValue (n : ℕ)
  deriving DecidableEq

def pairError (n : ℕ) (what : String) : Bytes :=
  ofString "pair " ++ ofString (toString n) ++ ofString " " ++ ofString what

def HeaderError.error : HeaderError → Bytes
  | .notKeyValue n => pairError n "is not key=value"
  | .malformedEncoding n => pairError n "has a malformed percent-encoding"
  | .badName n => pairError n "has a name that is not an HTTP header token"
  | .badValue n => pairError n "has a value with a control or non-ASCII character"

def validHeaderName (name : Bytes) : Bool :=
  (chars name).all (fun r ↦ ('a' ≤ r && r ≤ 'z') || ('A' ≤ r && r ≤ 'Z') || ('0' ≤ r && r ≤ '9') ||
    r ∈ "!#$%&'*+-.^_`|~".toList)

def validHeaderValue (value : Bytes) : Bool := value.all (fun c ↦ (0x20 ≤ c || c = 0x09) && c ≤ 0x7E)

/-- Replaces the header of the same name, in any case, or appends one. -/
def setHeader (h : Header) : List Header → List Header
  | [] => [h]
  | x :: xs => if toLower x.name = toLower h.name then h :: xs else x :: setHeader h xs

/-- The `n`th item of the list. A name that does not decode is an empty one. -/
def parseHeader (n : ℕ) (item : Bytes) : Except HeaderError Header :=
  let (k, v) := (cut 0x3D item).getD (item, [])
  let name := (Url.unescape .path (trimSpace k)).getD []
  if cut 0x3D item = none || name = [] then .error (.notKeyValue n)
  else match Url.unescape .path (trimSpace v) with
    | none => .error (.malformedEncoding n)
    | some value =>
      if !validHeaderName name then .error (.badName n)
      else if !validHeaderValue value then .error (.badValue n)
      else .ok ⟨name, value⟩

def parseItems (hs : List Header) (n : ℕ) : List Bytes → Except HeaderError (List Header)
  | [] => .ok hs
  | item :: items =>
    if trimSpace item = [] then parseItems hs (n + 1) items
    else match parseHeader n item with
      | .error e => .error e
      | .ok h => parseItems (setHeader h hs) (n + 1) items

def parseHeaders (raw : Bytes) : Except HeaderError Headers :=
  (parseItems [] 1 (raw.splitOn 0x2C)).map newHeaders

structure ExporterConfig where
  protocol : Protocol
  endpoint : Bytes
  signalPath : Bool
  plaintext : Bool
  skipVerify : Bool
  caFile : Bytes
  clientCertFile : Bytes
  clientKeyFile : Bytes
  headers : Headers
  timeout : Duration
  compression : Compression
  queueSize : ℤ
  retryMaxElapsed : Duration
  retryInitialInterval : Duration
  retryMaxInterval : Duration
  deriving DecidableEq

def ExporterConfig.string (c : ExporterConfig) : Bytes :=
  c.protocol.string ++ ofString " " ++ c.endpoint ++
  (if c.signalPath then ofString " (+/v1/<signal>)" else []) ++
  (if c.plaintext then ofString " plaintext" else ofString " tls") ++
  (if c.headers.names = [] then [] else ofString " headers=" ++ join (ofString ",") c.headers.names)

theorem notMem_encodePair (p : Header) : 0x26 ∉ encodePair p := by
  simp [encodePair, (Url.notMem_queryEscape p.name).1, (Url.notMem_queryEscape p.value).1]

theorem readPair_encodePair (p : Header) : readPair (encodePair p) = p := by
  rw [readPair, encodePair, cut_append (Url.notMem_queryEscape p.name).2]
  simp [Url.queryUnescape_queryEscape]

theorem join_ne_nil {sep p : Bytes} {ps : List Bytes} (h : p ≠ []) : join sep (p :: ps) ≠ [] := by
  cases ps <;> simp [join, h]

/-- The encoding loses nothing but the order. -/
theorem pairs_newHeaders (hs : List Header) : (newHeaders hs).pairs = sortHeaders hs := by
  rw [newHeaders]
  cases he : sortHeaders hs with
  | nil => rfl
  | cons p ps =>
    have hne : join [0x26] ((p :: ps).map encodePair) ≠ [] := join_ne_nil (by simp [encodePair])
    have hsep : ∀ x ∈ (p :: ps).map encodePair, 0x26 ∉ x := by
      intro x hx
      obtain ⟨q, _, rfl⟩ := List.mem_map.mp hx
      exact notMem_encodePair q
    rw [Headers.pairs, if_neg hne, join, List.splitOn_intercalate _ hsep (List.cons_ne_nil _ _), List.map_map]
    calc
      (p :: ps).map (readPair ∘ encodePair) = (p :: ps).map id :=
        List.map_congr_left (fun q _ ↦ readPair_encodePair q)
      _ = p :: ps := List.map_id _

instance : Std.Total (fun a b ↦ nameLE a b = true) := ⟨fun a b ↦ compareLE_total a.name b.name⟩

instance : IsTrans Header (fun a b ↦ nameLE a b = true) := ⟨fun _ _ _ ↦ compareLE_trans⟩

theorem sortHeaders_sorted {hs : List Header} (h : hs.Pairwise (fun a b ↦ nameLE a b = true)) :
    sortHeaders hs = hs :=
  h.insertionSort_eq

theorem pairwise_sortHeaders (hs : List Header) : (sortHeaders hs).Pairwise (fun a b ↦ nameLE a b = true) :=
  List.pairwise_insertionSort _ hs

theorem sortHeaders_map_mask (hs : List Header) : sortHeaders (hs.map mask) = (sortHeaders hs).map mask :=
  (List.map_insertionSort (fun a b ↦ nameLE a b = true) (fun a b ↦ nameLE a b = true) mask hs
    (fun _ _ _ _ ↦ Iff.rfl)).symm

/-- Redaction keeps every header and its place. -/
theorem pairs_redacted (hs : List Header) :
    (newHeaders hs).redacted.pairs = (newHeaders hs).pairs.map mask := by
  rw [Headers.redacted, pairs_newHeaders, pairs_newHeaders, sortHeaders_map_mask,
    sortHeaders_sorted (pairwise_sortHeaders hs)]

end OtlpCollectorOidc.Upstream

import OtlpCollectorOidc.Lib.Fields
import OtlpCollectorOidc.Lib.JsonText
import OtlpCollectorOidc.Lib.ReadBack
import OtlpCollectorOidc.Render.OwnLogs
import OtlpCollectorOidc.Upstream.WellFormed

namespace OtlpCollectorOidc.Render

open Text Number Upstream Yaml Json

section Doc

def nonEmptyText (key : String) (v : Bytes) : List (Bytes × Doc) :=
  if v = [] then [] else [(ofString key, .text v)]

def headerDoc (h : Header) : Doc :=
  .object [(ofString "name", .text h.name), (ofString "value", .text h.value)]

def OtlpExporter.doc (e : OtlpExporter) : Doc :=
  .object ([(ofString "protocol", .text e.protocol), (ofString "endpoint", .text e.endpoint)] ++
    (if e.insecure then [(ofString "insecure", .flag true)] else []) ++
    nonEmptyText "certificate" e.certificate ++
    nonEmptyText "client_certificate" e.clientCertificate ++
    nonEmptyText "client_key" e.clientKey ++
    (if e.headers = [] then [] else [(ofString "headers", .array (e.headers.map headerDoc))]) ++
    [(ofString "compression", .text e.compression), (ofString "timeout", .int e.timeout)])

def processorsDoc (e : OtlpExporter) : Doc :=
  .array [.object [(ofString "batch", .object [(ofString "exporter", .object [(ofString "otlp", e.doc)])])]]

end Doc

section Read

def fieldOf (key : String) (ms : List (Bytes × Value)) : Option Value :=
  (ms.find? (fun m ↦ m.1 = ofString key)).map Prod.snd

def asText : Option Value → Option Bytes
  | some (.str s) => some s
  | some _ => none
  | none => some []

def asFlag : Option Value → Option Bool
  | some (.bool b) => some b
  | some _ => none
  | none => some false

def asInt : Option Value → Option ℤ
  | some (.num q) => if q.den = 1 then some q.num else none
  | some _ => none
  | none => some 0

def headerOf : Value → Option Header
  | .obj ms => do
    let name ← asText (fieldOf "name" ms)
    let value ← asText (fieldOf "value" ms)
    some { name := name, value := value }
  | _ => none

def asHeaders : Option Value → Option (List Header)
  | some (.arr xs) => xs.mapM headerOf
  | some _ => none
  | none => some []

def exporterOf : Value → Option OtlpExporter
  | .obj ms => do
    let protocol ← asText (fieldOf "protocol" ms)
    let endpoint ← asText (fieldOf "endpoint" ms)
    let insecure ← asFlag (fieldOf "insecure" ms)
    let certificate ← asText (fieldOf "certificate" ms)
    let clientCertificate ← asText (fieldOf "client_certificate" ms)
    let clientKey ← asText (fieldOf "client_key" ms)
    let headers ← asHeaders (fieldOf "headers" ms)
    let compression ← asText (fieldOf "compression" ms)
    let timeout ← asInt (fieldOf "timeout" ms)
    some {
      protocol := protocol, endpoint := endpoint, insecure := insecure, certificate := certificate
      clientCertificate := clientCertificate, clientKey := clientKey, headers :=
        headers, compression := compression
      timeout := timeout }
  | _ => none

def underOf (key : String) : Value → Option Value
  | .obj ms => fieldOf key ms
  | _ => none

def exportersOf : Value → Option (List OtlpExporter)
  | .null => some []
  | .arr xs =>
    xs.mapM (fun x ↦ (((underOf "batch" x).bind (underOf "exporter")).bind (underOf "otlp")).bind exporterOf)
  | _ => none

end Read

def OtlpExporter.mapTexts (f : Bytes → Bytes) (e : OtlpExporter) : OtlpExporter where
  protocol := f e.protocol
  endpoint := f e.endpoint
  insecure := e.insecure
  certificate := f e.certificate
  clientCertificate := f e.clientCertificate
  clientKey := f e.clientKey
  headers := e.headers.map (fun h ↦ { name := f h.name, value := f h.value })
  compression := f e.compression
  timeout := e.timeout

def OtlpExporter.texts (e : OtlpExporter) : List Bytes :=
  [e.protocol, e.endpoint, e.certificate, e.clientCertificate, e.clientKey, e.compression] ++
    e.headers.flatMap (fun h ↦ [h.name, h.value])

section ReadDoc

theorem toValid_ofString (s : String) : toValid (ofString s) = ofString s := (valid_ofString s).ofChars_chars

theorem chars_eq_nil {v : Bytes} : chars v = [] ↔ v = [] := by
  cases v with
  | nil => exact iff_of_true rfl rfl
  | cons b v => simp [chars, runes_cons]

theorem ofChars_eq_nil {cs : List Char} : ofChars cs = [] ↔ cs = [] := by
  rw [← ofChars_injective.eq_iff]
  rfl

theorem toValid_eq_nil {v : Bytes} : toValid v = [] ↔ v = [] := by
  rw [toValid, ofChars_eq_nil, chars_eq_nil]

theorem fieldOf_nil (key : String) : fieldOf key (memberValues []) = none := by
  rw [memberValues]
  rfl

theorem fieldOf_cons (key name : String) (x : Doc) (ms : List (Bytes × Doc)) :
    fieldOf key (memberValues ((ofString name, x) :: ms)) =
      if name = key then some x.value else fieldOf key (memberValues ms) := by
  rw [memberValues, memberValue, toValid_ofString, fieldOf, List.find?_cons]
  by_cases h : name = key
  · simp [h]
  · simp [h, ofString_inj, fieldOf]

theorem fieldOf_append (key : String) (ms ms' : List (Bytes × Doc)) :
    fieldOf key (memberValues (ms ++ ms')) =
      (fieldOf key (memberValues ms)).or (fieldOf key (memberValues ms')) := by
  simp only [fieldOf, memberValues_eq, List.map_append, List.find?_append, Option.map_or]

theorem fieldOf_unless (key name : String) (x : Doc) (p : Prop) [Decidable p] :
    fieldOf key (memberValues (if p then [] else [(ofString name, x)])) =
      if name = key then (if p then none else some x.value) else none := by
  by_cases hp : p
  · simp [hp, fieldOf_nil]
  · simp [hp, fieldOf_cons, fieldOf_nil]

theorem fieldOf_when (key name : String) (x : Doc) (b : Bool) :
    fieldOf key (memberValues (if b then [(ofString name, x)] else [])) =
      if name = key then (if b then some x.value else none) else none := by
  cases b
  · simp [fieldOf_nil]
  · simp [fieldOf_cons, fieldOf_nil]

theorem asText_text (v : Bytes) : asText (some (Doc.text v).value) = some (toValid v) := by
  rw [Doc.value, asText]

theorem asText_unless (v : Bytes) :
    asText (if v = [] then none else some (Doc.text v).value) = some (toValid v) := by
  split_ifs with hv
  · rw [asText, toValid_eq_nil.mpr hv]
  · exact asText_text v

theorem asFlag_when (b : Bool) : asFlag (if b then some (Doc.flag true).value else none) = some b := by
  cases b
  · rfl
  · simp [Doc.value, asFlag]

theorem asInt_int (n : ℤ) : asInt (some (Doc.int n).value) = some n := by
  simp [Doc.value, asInt]

theorem headerOf_headerDoc (h : Header) :
    headerOf (headerDoc h).value = some { name := toValid h.name, value := toValid h.value } := by
  simp [headerDoc, Doc.value, headerOf, fieldOf_cons, asText]

theorem asHeaders_unless (hs : List Header) :
    asHeaders (if hs = [] then none else some (Doc.array (hs.map headerDoc)).value) =
      some (hs.map (fun h ↦ { name := toValid h.name, value := toValid h.value })) := by
  have hall : ((hs.map headerDoc).map Doc.value).mapM headerOf =
      some (hs.map (fun h ↦ { name := toValid h.name, value := toValid h.value })) := by
    induction hs with
    | nil => rfl
    | cons h hs ih =>
      rw [List.map_cons, List.map_cons, List.mapM_cons, headerOf_headerDoc, ih]
      rfl
  split_ifs with hnil
  · rw [asHeaders, hnil, List.map_nil]
  · rw [Doc.value, asHeaders, itemValues_eq, hall]

theorem exporterOf_doc (e : OtlpExporter) : exporterOf e.doc.value = some (e.mapTexts toValid) := by
  rw [OtlpExporter.doc, Doc.value]
  simp only [exporterOf, nonEmptyText, fieldOf_append, fieldOf_cons, fieldOf_unless, fieldOf_when,
    fieldOf_nil, String.reduceEq, if_false, if_true, Option.or_none, Option.none_or,
      asText_text, asText_unless,
    asFlag_when, asHeaders_unless, asInt_int, Option.bind_eq_bind, Option.bind_some]
  rfl

/-- What is read of the processors is the exporter they were written from. -/
theorem exportersOf_processorsDoc (e : OtlpExporter) :
    exportersOf (processorsDoc e).value = some [e.mapTexts toValid] := by
  simp [processorsDoc, Doc.value, exportersOf, itemValues_eq, underOf, fieldOf_cons, exporterOf_doc]

theorem fits_processorsDoc (e : OtlpExporter) (depth : ℕ) : (processorsDoc e).Fits (depth + 7) := by
  have htexts : ∀ (key : String) (v : Bytes), ∀ m ∈ nonEmptyText key v, m.2.Fits (depth + 2) := by
    intro key v m hm
    rw [nonEmptyText] at hm
    split_ifs at hm
    · cases hm
    · rw [List.mem_singleton.mp hm]
      trivial
  have hheaders : ∀ h ∈ e.headers, (headerDoc h).Fits (depth + 1) := by
    intro h _
    simp [headerDoc, Doc.Fits]
  have hdoc : e.doc.Fits (depth + 3) := by
    intro m hm
    simp only [List.mem_append, List.mem_cons, List.not_mem_nil, or_false] at hm
    obtain (((((( rfl | rfl) | hm) | hm) | hm) | hm) | hm) | rfl | rfl := hm
    · trivial
    · trivial
    · split_ifs at hm
      · rw [List.mem_singleton.mp hm]
        trivial
      · cases hm
    · exact htexts _ _ m hm
    · exact htexts _ _ m hm
    · exact htexts _ _ m hm
    · split_ifs at hm
      · cases hm
      · rw [List.mem_singleton.mp hm]
        exact List.forall_mem_map.mpr hheaders
    · trivial
    · trivial
  simp [processorsDoc, Doc.Fits, hdoc]

end ReadDoc

/-- A scalar as the collector reads it: a quoted one is a text, free of references and
with its dollars halved, and a plain one a flag or a number. -/
def scalarValue (text : Bytes) : Option Value :=
  if text.head? = some 0x22 then
    match readScalar printable (chars text) with
    | some (content, []) =>
      if hasReference 0 content then none else some (.str (ofChars (unescapeDollars content)))
    | _ => none
  else if text = ofString "true" then some (.bool true)
  else if text = ofString "false" then some (.bool false)
  else (Strconv.parseInt 64 text).map (fun n : ℤ ↦ .num (n : ℚ))

mutual

def nodeValue : Node → Option Value
  | .scalar text => scalarValue text
  | .seq items => (itemNodes items).map .arr
  | .map entries => (entryNodes entries).map .obj

def itemNodes : List Node → Option (List Value)
  | [] => some []
  | x :: xs => do
    let v ← nodeValue x
    let vs ← itemNodes xs
    some (v :: vs)

def entryNodes : List (Key × Node) → Option (List (Bytes × Value))
  | [] => some []
  | e :: es => do
    let m ← entryNode e
    let ms ← entryNodes es
    some (m :: ms)

def entryNode : Key × Node → Option (Bytes × Value)
  | (key, x) => do
    let name ← key.read printable
    let v ← nodeValue x
    some (ofChars name, v)

end

section Quoted

theorem quote_eq (v : Bytes) : quote v = ofChars ((stringText false v).flatMap doubled) := by
  have hd : ofString "$$" = ofChars ['$', '$'] := rfl
  have hb : (0x24 : UInt8).toNat = '$'.toNat := rfl
  have hencode : encodeString v = ofChars (stringText false v) := by
    have hrune (r : Rune) : encodeRune r = ofChars (runeText false r) := rfl
    rw [encodeString, funext hrune, stringText]
    simp only [ofChars, List.flatMap_append, List.flatMap_cons, List.flatMap_nil, List.flatMap_assoc]
    rfl
  rw [quote, trimSuffix_append, hencode, hd, replaceByte_ofChars hb (by decide)]
  rfl

theorem admits_printable : ∀ c : Char, 0x20 ≤ c.toNat → c.toNat ≤ 0x7E → printable c = true := by
  simp +contextual [printable]

/-- A rune between the quotes is read like the character it stands for. -/
theorem scalarBody_rune (r : Rune) (rest : List Char) :
    scalarBody printable ((runeText false r).flatMap doubled ++ rest) =
      if readable printable r.value then
        (scalarBody printable rest).map (fun p ↦ (doubled (folded r.value) ++ p.1, p.2))
      else none := by
  rw [runeText, if_neg Bool.false_ne_true, escapeOf_flatMap_doubled, scalarBody_quoteChar admits_printable]

theorem scalarBody_runes (rs : List Rune) :
    scalarBody printable (rs.flatMap (fun r ↦ (runeText false r).flatMap doubled) ++ ['"']) =
      if (rs.map Rune.value).all (readable printable) then
        some (((rs.map Rune.value).map folded).flatMap doubled, []) else none := by
  induction rs with
  | nil => rfl
  | cons r rs ih =>
    rw [List.flatMap_cons, List.append_assoc, scalarBody_rune, ih, List.map_cons, List.all_cons]
    by_cases hr : readable printable r.value = true
    · by_cases hrs : (rs.map Rune.value).all (readable printable) = true
      · simp only [hr, hrs, if_true, Bool.and_self]
        rfl
      · simp [hr, hrs]
    · simp [hr]

/-- A text as the collector gets it, where it gets it at all. -/
def refolded (v : Bytes) : Bytes := ofChars ((chars v).map folded)

theorem readScalar_quoted (v : Bytes) : readScalar printable (chars (quote v)) =
    if (chars v).all (readable printable) then
      some (((chars v).map folded).flatMap doubled, []) else none := by
  have hquote : doubled '"' = ['"'] := by decide
  rw [quote_eq, chars_ofChars, stringText, List.flatMap_append, List.flatMap_cons, List.flatMap_singleton,
    hquote, List.flatMap_assoc]
  exact scalarBody_runes (runes v)

theorem toValid_refolded (v : Bytes) : toValid (refolded v) = refolded v := by
  rw [toValid, refolded, chars_ofChars]

theorem refolded_eq_toValid {v : Bytes} : refolded v = toValid v ↔ ∀ c ∈ chars v, folded c = c := by
  rw [refolded, toValid, ofChars_injective.eq_iff]
  constructor
  · intro h
    exact List.map_inj_left.mp (h.trans (List.map_id _).symm)
  · intro h
    exact (List.map_congr_left h).trans (List.map_id _)

theorem nodeValue_q (v : Bytes) :
    nodeValue (q v) = if (chars v).all (readable printable) then
      some (Doc.text (refolded v)).value else none := by
  have hquoted : (quote v).head? = some 0x22 := by
    rw [quote_eq]
    rfl
  rw [q, nodeValue, scalarValue, if_pos hquoted, readScalar_quoted]
  by_cases hread : (chars v).all (readable printable) = true
  · rw [if_pos hread, if_pos hread, Doc.value, toValid_refolded]
    dsimp only
    rw [if_neg (by simp [hasReference_flatMap]), unescapeDollars_flatMap, refolded]
  · rw [if_neg hread, if_neg hread]

end Quoted

section Entries

def processorKeys : List String :=
  ["batch", "exporter", "otlp", "protocol", "endpoint", "insecure", "certificate", "client_certificate",
    "client_key", "headers", "name", "value", "compression", "timeout"]

theorem read_processorKeys :
    ∀ w ∈ processorKeys, (Key.quoted (quote (ofString w))).read printable = some w.toList := by
  decide +kernel

/-- Entries that the collector reads as the members of a document. -/
def EntriesOf (es : List (Key × Node)) (ms : List (Bytes × Doc)) : Prop :=
  entryNodes es = some (memberValues ms)

theorem EntriesOf.append {es es' : List (Key × Node)} {ms ms' : List (Bytes × Doc)} (h : EntriesOf es ms)
    (h' : EntriesOf es' ms') : EntriesOf (es ++ es') (ms ++ ms') := by
  have hnodes : ∀ xs, entryNodes (xs ++ es') =
      (entryNodes xs).bind (fun vs ↦ (entryNodes es').map (vs ++ ·)) := by
    intro xs
    induction xs with
    | nil =>
      rw [List.nil_append, entryNodes]
      cases entryNodes es' <;> rfl
    | cons x xs ih =>
      rw [List.cons_append, entryNodes, entryNodes, ih]
      cases entryNode x with
      | none => rfl
      | some m =>
        cases entryNodes xs with
        | none => rfl
        | some vs => cases entryNodes es' <;> rfl
  rw [EntriesOf, hnodes, h, h']
  simp [memberValues_eq]

theorem entriesOf_nil : EntriesOf [] [] := by
  rw [EntriesOf, entryNodes, memberValues]

theorem entriesOf_member {key : String} (hkey : key ∈ processorKeys) {x : Node} {d : Doc}
    (hx : nodeValue x = some d.value) : EntriesOf [member key x] [(ofString key, d)] := by
  have hname : toValid (ofString key) = ofChars key.toList := by rw [toValid, chars_ofString]
  rw [EntriesOf, member, entryNodes, entryNode, read_processorKeys key hkey, hx, entryNodes, memberValues,
    memberValue, memberValues, hname]
  rfl

theorem nodeValue_map {es : List (Key × Node)} {ms : List (Bytes × Doc)} (h : EntriesOf es ms) :
    nodeValue (.map es) = some (Doc.object ms).value := by
  rw [nodeValue, h, Doc.value]
  rfl

theorem nodeValue_seq {α : Type} {f : α → Node} {g : α → Doc} {xs : List α}
    (h : ∀ x ∈ xs, nodeValue (f x) = some (g x).value) :
    nodeValue (.seq (xs.map f)) = some (Doc.array (xs.map g)).value := by
  have hitems : itemNodes (xs.map f) = some (itemValues (xs.map g)) := by
    induction xs with
    | nil => rw [List.map_nil, itemNodes, List.map_nil, itemValues]
    | cons x xs ih =>
      rw [List.map_cons, itemNodes, h x List.mem_cons_self, ih (fun y hy ↦ h y (List.mem_cons_of_mem x hy)),
        List.map_cons, itemValues]
      rfl
  rw [nodeValue, hitems, Doc.value]
  rfl

theorem nodeValue_number {n : ℤ} (hlow : -2 ^ 63 ≤ n) (hhigh : n < 2 ^ 63) :
    nodeValue (number n) = some (Doc.int n).value := by
  have hparse := Strconv.parseInt_formatInt hlow hhigh
  have hne {text : Bytes} (htext : Strconv.parseInt 64 text = none) : Strconv.formatInt n ≠ text := by
    rintro rfl
    rw [hparse] at htext
    cases htext
  have hquoted : (Strconv.formatInt n).head? ≠ some 0x22 := by
    cases n with
    | ofNat m =>
      obtain ⟨c, cs, hcons, hc⟩ := Strconv.exists_digit m
      change (Strconv.decimal m).head? ≠ some 0x22
      rw [hcons]
      rintro ⟨⟩
      cases hc
    | negSucc m =>
      rw [Strconv.formatInt_negSucc]
      exact fun h ↦ absurd (Option.some.inj h) (by decide)
  rw [number, nodeValue, scalarValue, if_neg hquoted, if_neg (hne (by decide)), if_neg (hne (by decide)),
    hparse, Doc.value]
  rfl

theorem exists_value_of_mem_map {es : List (Key × Node)} {v : Value} (h : nodeValue (.map es) = some v) :
    ∀ e ∈ es, ∃ w, nodeValue e.2 = some w := by
  have hentries : ∀ {ms : List (Bytes × Value)}, entryNodes es = some ms →
      ∀ e ∈ es, ∃ w, nodeValue e.2 = some w := by
    clear h
    induction es with
    | nil => simp
    | cons e es ih =>
      intro ms hms
      obtain ⟨key, x⟩ := e
      simp only [entryNodes, entryNode, Option.bind_eq_bind, Option.bind_eq_some_iff] at hms
      obtain ⟨m, ⟨name, -, w, hw, -⟩, ms', hms', -⟩ := hms
      exact List.forall_mem_cons.mpr ⟨⟨w, hw⟩, ih hms'⟩
  rw [nodeValue, Option.map_eq_some_iff] at h
  obtain ⟨ms, hms, -⟩ := h
  exact hentries hms

theorem exists_value_of_mem_seq {xs : List Node} {v : Value} (h : nodeValue (.seq xs) = some v) :
    ∀ x ∈ xs, ∃ w, nodeValue x = some w := by
  have hitems : ∀ {vs : List Value}, itemNodes xs = some vs → ∀ x ∈ xs, ∃ w, nodeValue x = some w := by
    clear h
    induction xs with
    | nil => simp
    | cons x xs ih =>
      intro vs hvs
      simp only [itemNodes, Option.bind_eq_bind, Option.bind_eq_some_iff] at hvs
      obtain ⟨w, hw, vs', hvs', -⟩ := hvs
      exact List.forall_mem_cons.mpr ⟨⟨w, hw⟩, ih hvs'⟩
  rw [nodeValue, Option.map_eq_some_iff] at h
  obtain ⟨vs, hvs, -⟩ := h
  exact hitems hvs

end Entries

section Exporter

variable {e : OtlpExporter}

def Legible (v : Bytes) : Prop := (chars v).all (readable printable) = true

theorem nodeValue_text {v : Bytes} (h : Legible v) : nodeValue (q v) = some (Doc.text (refolded v)).value :=
  (nodeValue_q v).trans (if_pos h)

theorem legible_of_nodeValue {v : Bytes} {w : Value} (h : nodeValue (q v) = some w) : Legible v := by
  rw [nodeValue_q] at h
  exact (Option.ite_none_right_eq_some.mp h).1

theorem refolded_eq_nil {v : Bytes} : refolded v = [] ↔ v = [] := by
  rw [refolded, ofChars_eq_nil, List.map_eq_nil_iff, chars_eq_nil]

theorem entriesOf_nonEmpty {key : String} (hkey : key ∈ processorKeys) {v : Bytes} (h : Legible v) :
    EntriesOf (nonEmptyMember key v) (nonEmptyText key (refolded v)) := by
  rw [nonEmptyMember, nonEmptyText]
  by_cases hv : v = []
  · rw [if_pos hv, if_pos (refolded_eq_nil.mpr hv)]
    exact entriesOf_nil
  · rw [if_neg hv, if_neg (fun h ↦ hv (refolded_eq_nil.mp h))]
    exact entriesOf_member hkey (nodeValue_text h)

theorem nodeValue_header {h : Header} (hname : Legible h.name) (hvalue : Legible h.value) :
    nodeValue (jsonHeader h) =
      some (headerDoc { name := refolded h.name, value := refolded h.value }).value :=
  nodeValue_map ((entriesOf_member (by decide) (nodeValue_text hname)).append
    (entriesOf_member (by decide) (nodeValue_text hvalue)))

theorem nodeValue_exporter (hlow : -2 ^ 63 ≤ e.timeout) (hhigh : e.timeout < 2 ^ 63)
    (h : ∀ v ∈ e.texts, Legible v) :
    nodeValue e.node = some (e.mapTexts refolded).doc.value := by
  simp only [OtlpExporter.texts, List.forall_mem_append, List.forall_mem_cons] at h
  obtain ⟨⟨hprotocol, hendpoint, hcertificate, hclientCertificate, hclientKey, hcompression, -⟩,
    hheaders⟩ := h
  have hinsecure : EntriesOf (if e.insecure then [member "insecure" (flag true)] else [])
      (if e.insecure then [(ofString "insecure", .flag true)] else []) := by
    split_ifs
    · exact entriesOf_member (by decide) (by rw [flag, nodeValue, Doc.value]; rfl)
    · exact entriesOf_nil
  have hheaders : EntriesOf (if e.headers = [] then []
    else [member "headers" (.seq (e.headers.map jsonHeader))])
      (if (e.mapTexts refolded).headers = [] then []
        else [(ofString "headers", .array ((e.mapTexts refolded).headers.map headerDoc))]) := by
    by_cases hnil : e.headers = []
    · rw [if_pos hnil, if_pos (by simp [OtlpExporter.mapTexts, hnil])]
      exact entriesOf_nil
    · rw [if_neg hnil, if_neg (by simpa [OtlpExporter.mapTexts] using hnil),
        OtlpExporter.mapTexts, List.map_map]
      apply entriesOf_member (by decide)
      apply nodeValue_seq
      intro h hh
      have hlegible {v : Bytes} (hv : v ∈ [h.name, h.value]) : Legible v :=
        hheaders v (List.mem_flatMap.mpr ⟨h, hh, hv⟩)
      exact nodeValue_header (hlegible (by simp)) (hlegible (by simp))
  have hfirst := (entriesOf_member (by decide : "protocol" ∈ processorKeys) (nodeValue_text hprotocol)).append
    (entriesOf_member (by decide : "endpoint" ∈ processorKeys) (nodeValue_text hendpoint))
  have hlast :=
    (entriesOf_member (by decide : "compression" ∈ processorKeys) (nodeValue_text hcompression)).append
    (entriesOf_member (by decide : "timeout" ∈ processorKeys) (nodeValue_number hlow hhigh))
  exact nodeValue_map ((((((hfirst.append hinsecure).append
    (entriesOf_nonEmpty (by decide) hcertificate)).append
    (entriesOf_nonEmpty (by decide) hclientCertificate)).append
      (entriesOf_nonEmpty (by decide) hclientKey)).append
    hheaders).append hlast)

theorem nodeValue_processorsNode (hlow : -2 ^ 63 ≤ e.timeout) (hhigh : e.timeout < 2 ^ 63)
    (h : ∀ v ∈ e.texts, Legible v) :
    nodeValue (processorsNode e) = some (processorsDoc (e.mapTexts refolded)).value := by
  have hotlp :=
    nodeValue_map (entriesOf_member (by decide : "otlp" ∈ processorKeys) (nodeValue_exporter hlow hhigh h))
  have hexporter := nodeValue_map (entriesOf_member (by decide : "exporter" ∈ processorKeys) hotlp)
  have hbatch := nodeValue_map (entriesOf_member (by decide : "batch" ∈ processorKeys) hexporter)
  exact @nodeValue_seq Unit (fun _ ↦ _) (fun _ ↦ _) [()] (fun _ _ ↦ hbatch)

theorem exportersOf_processorsNode (hlow : -2 ^ 63 ≤ e.timeout) (hhigh : e.timeout < 2 ^ 63)
    (h : ∀ v ∈ e.texts, Legible v) :
    (nodeValue (processorsNode e)).bind exportersOf = some [e.mapTexts refolded] := by
  have hvalid : (e.mapTexts refolded).mapTexts toValid = e.mapTexts refolded := by
    simp [OtlpExporter.mapTexts, toValid_refolded]
  rw [nodeValue_processorsNode hlow hhigh h, Option.bind_some, exportersOf_processorsDoc, hvalid]

theorem legible_nonEmpty {key : String} {v : Bytes}
    (h : ∀ m ∈ nonEmptyMember key v, ∃ w, nodeValue m.2 = some w) : Legible v := by
  rw [nonEmptyMember] at h
  split_ifs at h with hv
  · rw [hv]
    rfl
  · obtain ⟨w, hw⟩ := h _ List.mem_cons_self
    exact legible_of_nodeValue hw

theorem legible_of_header {h : Header} {w : Value} (hw : nodeValue (jsonHeader h) = some w) :
    Legible h.name ∧ Legible h.value := by
  have hall := exists_value_of_mem_map hw
  simp only [List.forall_mem_cons] at hall
  obtain ⟨⟨_, hname⟩, ⟨_, hvalue⟩, -⟩ := hall
  exact ⟨legible_of_nodeValue hname, legible_of_nodeValue hvalue⟩

theorem legible_of_exporter {w : Value} (hw : nodeValue e.node = some w) : ∀ v ∈ e.texts, Legible v := by
  have hall := exists_value_of_mem_map hw
  simp only [List.forall_mem_append, List.forall_mem_cons] at hall
  obtain ⟨⟨⟨⟨⟨⟨⟨⟨_, hprotocol⟩, ⟨_, hendpoint⟩, -⟩, -⟩, hcertificate⟩, hclientCertificate⟩, hclientKey⟩,
    hheaders⟩, ⟨_, hcompression⟩, -⟩ := hall
  have hheader : ∀ h ∈ e.headers, Legible h.name ∧ Legible h.value := by
    intro h hh
    rw [if_neg (List.ne_nil_of_mem hh)] at hheaders
    obtain ⟨_, hseq⟩ := hheaders _ List.mem_cons_self
    obtain ⟨_, hw⟩ := exists_value_of_mem_seq hseq _ (List.mem_map_of_mem hh)
    exact legible_of_header hw
  simp only [OtlpExporter.texts, List.forall_mem_append, List.forall_mem_cons, List.mem_flatMap]
  refine ⟨⟨legible_of_nodeValue hprotocol, legible_of_nodeValue hendpoint, legible_nonEmpty hcertificate,
    legible_nonEmpty hclientCertificate, legible_nonEmpty hclientKey, legible_of_nodeValue hcompression, by
      simp⟩, ?_⟩
  rintro v ⟨h, hh, hv⟩
  simp only [List.mem_cons, List.not_mem_nil, or_false] at hv
  obtain rfl | rfl := hv
  · exact (hheader h hh).1
  · exact (hheader h hh).2

theorem legible_of_processorsNode {w : Value} (hw : nodeValue (processorsNode e) = some w) :
    ∀ v ∈ e.texts, Legible v := by
  obtain ⟨_, hbatch⟩ := exists_value_of_mem_seq hw _ List.mem_cons_self
  obtain ⟨_, hexporter⟩ := exists_value_of_mem_map hbatch _ List.mem_cons_self
  obtain ⟨_, hotlp⟩ := exists_value_of_mem_map hexporter _ List.mem_cons_self
  obtain ⟨_, hnode⟩ := exists_value_of_mem_map hotlp _ List.mem_cons_self
  exact legible_of_exporter hnode

/-- Two ways of changing the texts of an exporter agree just when they agree on each. -/
theorem mapTexts_inj {f g : Bytes → Bytes} : e.mapTexts f = e.mapTexts g ↔ ∀ v ∈ e.texts, f v = g v := by
  simp only [OtlpExporter.mapTexts, OtlpExporter.mk.injEq, OtlpExporter.texts, List.forall_mem_append,
    List.forall_mem_cons, List.map_inj_left, Header.mk.injEq, List.forall_mem_flatMap, List.not_mem_nil,
      false_imp_iff, implies_true,
    and_true, true_and]
  tauto

end Exporter

/-- What the run command's own lines are exported through: the processors written as JSON
and read back. -/
def Settings.sdkProcessors (s : Settings) : Option (List OtlpExporter) :=
  (unmarshal (ofChars (((s.selfLogProcessors.map processorsDoc).getD .null).encode true))).bind exportersOf

/-- What the collector's lines are exported through: the rendered processors, if any. -/
def Settings.collectorProcessors (s : Settings) : Option (List OtlpExporter) :=
  match (logsNode s).member (ofString "processors") with
  | some x => (nodeValue x).bind exportersOf
  | none => some []

theorem sdkProcessors_eq (s : Settings) :
    s.sdkProcessors = some (s.selfLogProcessors.toList.map (OtlpExporter.mapTexts toValid)) := by
  rw [Settings.sdkProcessors]
  cases s.selfLogProcessors with
  | none =>
    rw [Option.map_none, Option.getD_none, unmarshal_encode true (by trivial), Option.bind_some, Doc.value]
    rfl
  | some e =>
    rw [Option.map_some, Option.getD_some, unmarshal_encode true (fits_processorsDoc e (maxDepth - 7)),
      Option.bind_some, exportersOf_processorsDoc]
    rfl

theorem collectorProcessors_eq (s : Settings) : s.collectorProcessors =
    (s.selfLogProcessors.map (fun e ↦ (nodeValue (processorsNode e)).bind exportersOf)).getD (some []) := by
  have hentry : (logsNode s).member (ofString "processors") = s.selfLogProcessors.map processorsNode := by
    rw [logsNode, Node.member, List.find?_append,
      List.find?_eq_none.mpr (by simp [entry, ofString_inj]), Option.none_or]
    cases s.selfLogProcessors with
    | none => rfl
    | some e => simp [entry]
  rw [Settings.collectorProcessors, hentry]
  cases s.selfLogProcessors with
  | none => rfl
  | some e => rfl

/-- A loaded timeout is one the SDK's type holds. -/
theorem timeout_range {go : Library} {lookup : Lookup} {s : Settings} {e : OtlpExporter}
    (h : Loaded go lookup s) (he : s.selfLogProcessors = some e) :
    -2 ^ 63 ≤ e.timeout ∧ e.timeout < 2 ^ 63 := by
  rw [Settings.selfLogProcessors] at he
  split_ifs at he
  obtain ⟨cfg, hcfg, rfl⟩ := Option.map_eq_some_iff.mp he
  have hcfg : s.upstream.bySignal .logs = some cfg := hcfg
  obtain ⟨p, hp, rfl⟩ := h.parses hcfg
  obtain ⟨ms, hlow, hhigh, htimeout⟩ := parseTimeout_ok hp.timeout
  have hms : (selfLogsExporter (p.config (fun x ↦ value lookup x .logs))).timeout = ms := by
    change (p.timeout : ℤ).tdiv (10 ^ 6) = ms
    rw [htimeout, Int.mul_tdiv_cancel _ (by norm_num)]
  omega

/-- The run command's lines and the collector's are exported alike, just when YAML keeps
every character of every text the exporter has. -/
theorem own_lines_exported_alike (go : Library) (lookup : Lookup) (s : Settings)
    (hload : (load go lookup).value = some s) :
    s.sdkProcessors = some (s.selfLogProcessors.toList.map (OtlpExporter.mapTexts toValid)) ∧
      (s.collectorProcessors = s.sdkProcessors ↔
        ∀ e ∈ s.selfLogProcessors, ∀ v ∈ e.texts, ∀ c ∈ chars v, c = '"' ∨ c = '\\' ∨ c.toNat < 0x20 ∨
          c.toNat = 0x2028 ∨ c.toNat = 0x2029 ∨ (printable c = true ∧ c.toNat ≠ 0x85)) := by
  refine ⟨sdkProcessors_eq s, ?_⟩
  simp only [← reads_as_itself_iff]
  rw [sdkProcessors_eq, collectorProcessors_eq]
  cases he : s.selfLogProcessors with
  | none => simp
  | some e =>
    obtain ⟨hlow, hhigh⟩ := timeout_range (loaded_of_load hload) he
    rw [Option.map_some, Option.getD_some, Option.toList_some, List.map_singleton]
    constructor
    · intro h
      obtain ⟨w, hw, -⟩ := Option.bind_eq_some_iff.mp h
      have hlegible := legible_of_processorsNode hw
      rw [exportersOf_processorsNode hlow hhigh hlegible, Option.some.injEq, List.cons.injEq,
        mapTexts_inj] at h
      rintro _ ⟨⟩ v hv c hc
      exact ⟨List.all_eq_true.mp (hlegible v hv) c hc, refolded_eq_toValid.mp (h.1 v hv) c hc⟩
    · intro h
      have hkept := h e rfl
      rw [exportersOf_processorsNode hlow hhigh
        (fun v hv ↦ List.all_eq_true.mpr (fun c hc ↦ (hkept v hv c hc).1)),
          mapTexts_inj.mpr (fun v hv ↦ refolded_eq_toValid.mpr (fun c hc ↦ (hkept v hv c hc).2))]

def nextLineLookup : Lookup :=
  environment [("OTEL_EXPORTER_OTLP_ENDPOINT", "https://collector:4317"),
    ("OTEL_EXPORTER_OTLP_CERTIFICATE", "/a\u0085b")]

theorem next_line_path_exported_apart :
    (∃ s, (load exampleLibrary slashLookup).value = some s ∧ s.collectorProcessors = s.sdkProcessors) ∧
      ∃ s, (load exampleLibrary nextLineLookup).value = some s ∧ s.collectorProcessors ≠ s.sdkProcessors := by
  constructor
  · obtain ⟨s, hs, hkept⟩ :=
      Option.map_eq_some_iff.mp (by decide +kernel : (load exampleLibrary slashLookup).value.map
      (fun s ↦ s.selfLogProcessors.all (fun e ↦ e.texts.all (fun v ↦ (chars v).all
        (fun c ↦ printable c && decide (c.toNat ≠ 0x85))))) = some true)
    refine ⟨s, hs, (own_lines_exported_alike exampleLibrary slashLookup s hs).2.mpr ?_⟩
    intro e he v hv c hc
    rw [Option.mem_def.mp he] at hkept
    have hc' := List.all_eq_true.mp (List.all_eq_true.mp hkept v hv) c hc
    simp only [Bool.and_eq_true, decide_eq_true_eq] at hc'
    exact Or.inr (Or.inr (Or.inr (Or.inr (Or.inr hc'))))
  · obtain ⟨s, hs, hpath⟩ :=
      Option.map_eq_some_iff.mp (by decide +kernel : (load exampleLibrary nextLineLookup).value.map
      (fun s ↦ s.selfLogProcessors.map OtlpExporter.certificate) = some (some (ofString "/a\u0085b")))
    obtain ⟨e, he, hcertificate⟩ := Option.map_eq_some_iff.mp hpath
    refine ⟨s, hs, fun h ↦ ?_⟩
    have hkept := (own_lines_exported_alike exampleLibrary nextLineLookup s hs).2.mp h e he e.certificate
      (by simp [OtlpExporter.texts]) (Char.ofNat 0x85) (by rw [hcertificate]; decide)
    revert hkept
    decide

end OtlpCollectorOidc.Render

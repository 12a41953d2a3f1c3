import OtlpCollectorOidc.Lib.Fields
import OtlpCollectorOidc.Lib.Occurrences
import OtlpCollectorOidc.Upstream.Config

namespace OtlpCollectorOidc.Upstream

open Text Occurrences

def Header.lowerName (h : Header) : Bytes := toLower h.name

def occurrence (item : Bytes) : Option Header :=
  if trimSpace item = [] then none
  else do
    let (k, v) ← cut 0x3D item
    let name ← Url.unescape .path (trimSpace k)
    let value ← Url.unescape .path (trimSpace v)
    some ⟨name, value⟩

def occurrences (raw : Bytes) : List Header := (raw.splitOn 0x2C).filterMap occurrence

section Parsing

theorem setHeader_eq (h : Header) (hs : List Header) : setHeader h hs = put Header.lowerName h hs := by
  induction hs with
  | nil => rfl
  | cons x xs ih =>
    rw [setHeader, put, ih]
    rfl

structure Checked (h : Header) : Prop where
  nonempty : h.name ≠ []
  name : validHeaderName h.name = true
  value : validHeaderValue h.value = true

theorem parseHeader_eq_ok {n : ℕ} {item : Bytes} {h : Header} (hblank : trimSpace item ≠ [])
    (hok : parseHeader n item = .ok h) : occurrence item = some h ∧ Checked h := by
  unfold parseHeader at hok
  unfold occurrence
  cases hcut : cut 0x3D item with
  | none => simp [hcut] at hok
  | some p =>
    obtain ⟨k, v⟩ := p
    simp only [hcut, Option.getD_some, reduceCtorEq, decide_false, Bool.false_or, decide_eq_true_eq] at hok
    cases hname : Url.unescape .path (trimSpace k) with
    | none => simp [hname] at hok
    | some name =>
      simp only [hname, Option.getD_some] at hok
      cases hvalue : Url.unescape .path (trimSpace v) with
      | none =>
        simp only [hvalue] at hok
        split_ifs at hok
      | some value =>
        simp only [hvalue] at hok
        split_ifs at hok with hempty hn hv
        cases hok
        simp only [Bool.not_eq_true', Bool.not_eq_false] at hn hv
        exact ⟨by simp [hblank, hname, hvalue], hempty, hn, hv⟩

theorem occurrence_blank {item : Bytes} (h : trimSpace item = []) : occurrence item = none := if_pos h

/-- Reading the items one by one keeps the last header of every name. -/
theorem parseItems_eq_ok {items : List Bytes} {n : ℕ} {occs hs hs' : List Header}
    (hlast : KeepsLast Header.lowerName occs hs) (hchecked : ∀ h ∈ hs, Checked h)
    (hok : parseItems hs n items = .ok hs') :
    KeepsLast Header.lowerName (occs ++ items.filterMap occurrence) hs' ∧ ∀ h ∈ hs', Checked h := by
  induction items generalizing n occs hs with
  | nil =>
    cases hok
    rw [List.filterMap_nil, List.append_nil]
    exact ⟨hlast, hchecked⟩
  | cons item items ih =>
    rw [parseItems] at hok
    split_ifs at hok with hblank
    · rw [List.filterMap_cons_none (occurrence_blank hblank)]
      exact ih hlast hchecked hok
    · split at hok
      · cases hok
      · rename_i h hitem
        obtain ⟨hocc, hh⟩ := parseHeader_eq_ok hblank hitem
        have hcons : occs ++ (item :: items).filterMap occurrence = occs ++ [h] ++
            items.filterMap occurrence := by
          rw [List.filterMap_cons_some hocc, List.append_assoc, List.singleton_append]
        rw [hcons]
        rw [setHeader_eq] at hok
        refine ih (hlast.put h) (fun x hx ↦ ?_) hok
        rcases mem_of_mem_put hx with rfl | hx
        · exact hh
        · exact hchecked x hx

theorem parseHeaders_eq_ok {raw : Bytes} {h : Headers} (hok : parseHeaders raw = .ok h) :
    ∃ hs, h = newHeaders hs ∧ KeepsLast Header.lowerName (occurrences raw) hs ∧ ∀ x ∈ hs, Checked x := by
  unfold parseHeaders at hok
  cases hitems : parseItems [] 1 (raw.splitOn 0x2C) with
  | error e =>
    rw [hitems] at hok
    cases hok
  | ok hs =>
    rw [hitems] at hok
    cases hok
    obtain ⟨hlast, hchecked⟩ := parseItems_eq_ok (keepsLast_nil) (by simp) hitems
    exact ⟨hs, rfl, hlast, hchecked⟩

end Parsing

section Normal

/-- A header list in its comparable form: the last header of every name, sorted by name. -/
structure Normal (occs : List Header) (h : Headers) : Prop where
  keepsLast : KeepsLast Header.lowerName occs h.pairs
  occurs : ∀ x ∈ occs, ∃ p ∈ h.pairs, p.lowerName = x.lowerName
  sorted : h.pairs.Pairwise (fun a b ↦ nameLE a b = true)
  again : newHeaders h.pairs = h
  redacted : h.redacted.names = h.names

theorem normal_newHeaders {occs hs : List Header} (h : KeepsLast Header.lowerName occs hs) :
    Normal occs (newHeaders hs) := by
  have hpairs := pairs_newHeaders hs
  have hkeeps : KeepsLast Header.lowerName occs (newHeaders hs).pairs := by
    rw [hpairs]
    exact h.of_perm (List.perm_insertionSort _ hs).symm
  refine ⟨hkeeps, ?_, ?_, ?_, ?_⟩
  · intro x hx
    obtain ⟨p, hp, hname⟩ : ∃ p, IsLast Header.lowerName occs p ∧ p.lowerName = x.lowerName :=
      exists_isLast hx
    exact ⟨p, (hkeeps.mem_iff p).mpr hp, hname⟩
  · rw [hpairs]
    exact pairwise_sortHeaders hs
  · rw [hpairs, newHeaders, sortHeaders_sorted (pairwise_sortHeaders hs), newHeaders]
  · rw [Headers.names, Headers.names, pairs_redacted, List.map_map]
    rfl

/-- Two lists that keep the same headers are encoded alike. -/
theorem Normal.eq_iff {occs occs' : List Header} {h h' : Headers} (hc : Normal occs h)
    (hc' : Normal occs' h') :
    h = h' ↔ ∀ p, IsLast Header.lowerName occs p ↔ IsLast Header.lowerName occs' p := by
  constructor
  · rintro rfl p
    rw [← hc.keepsLast.mem_iff, ← hc'.keepsLast.mem_iff]
  · intro hsame
    have hmem : ∀ p, p ∈ h.pairs ↔ p ∈ h'.pairs := by
      intro p
      rw [hc.keepsLast.mem_iff, hc'.keepsLast.mem_iff, hsame]
    have hperm : h.pairs.Perm h'.pairs :=
      (List.perm_ext_iff_of_nodup hc.keepsLast.nodup.of_map hc'.keepsLast.nodup.of_map).mpr hmem
    have hpairs : h.pairs = h'.pairs := by
      refine List.Perm.eq_of_pairwise ?_ hc.sorted hc'.sorted hperm
      intro a b ha hb hab hba
      have hname : a.lowerName = b.lowerName := congrArg toLower (compareLE_antisymm hab hba)
      exact List.inj_on_of_nodup_map hc.keepsLast.nodup ha ((hmem b).mpr hb) hname
    rw [← hc.again, ← hc'.again, hpairs]

end Normal

/-- An accepted text is kept as the last header of every name, sorted, and two texts are kept alike
exactly when they have the same last headers. -/
theorem headers_canonical {raw : Bytes} {h : Headers} (hok : parseHeaders raw = .ok h) :
    Normal (occurrences raw) h ∧ ∀ raw' h', parseHeaders raw' = .ok h' →
      (h = h' ↔ ∀ p, IsLast Header.lowerName (occurrences raw) p ↔
        IsLast Header.lowerName (occurrences raw') p) := by
  have hnormal {raw : Bytes} {h : Headers} (hok : parseHeaders raw = .ok h) : Normal (occurrences raw) h := by
    obtain ⟨hs, rfl, hlast, _⟩ := parseHeaders_eq_ok hok
    exact normal_newHeaders hlast
  exact ⟨hnormal hok, fun _ _ hok' ↦ (hnormal hok).eq_iff (hnormal hok')⟩

/-- A name spelled twice, the second time in lower case, and a value percent-encoded. -/
theorem respelled_headers_canonical :
    parseHeaders (ofString "B=2,a=1,b=%33") = .ok (ofString "a=1&b=3") ∧
    Normal (occurrences (ofString "B=2,a=1,b=%33")) (ofString "a=1&b=3") := by
  have hok : parseHeaders (ofString "B=2,a=1,b=%33") = .ok (ofString "a=1&b=3") := by rfl
  exact ⟨hok, (headers_canonical hok).1⟩

section Sending

def isBlank (c : UInt8) : Bool := c = 0x20 || c = 0x09

def metadataByte (c : UInt8) : Bool := Url.isDigit c || (0x61 ≤ c && c ≤ 0x7A) || c ∈ ofString "-_."

def visibleByte (c : UInt8) : Bool := 0x21 ≤ c && c ≤ 0x7E

def tokenByte (c : UInt8) : Bool := Url.isLetter c || Url.isDigit c || c ∈ ofString "!#$%&'*+-.^_`|~"

/-- A pair that may be the metadata of a gRPC request. -/
structure Metadata (h : Header) : Prop where
  nonempty : h.name ≠ []
  name : ∀ c ∈ toLower h.name, metadataByte c = true
  value : ∀ c ∈ h.value, visibleByte c = true ∨ isBlank c = true

/-- A pair that may be an HTTP header field. -/
structure Field (h : Header) : Prop where
  nonempty : h.name ≠ []
  token : ∀ c ∈ h.name, tokenByte c = true
  value : ∀ c ∈ h.value, visibleByte c = true ∨ isBlank c = true
  opening : ∀ c ∈ h.value.head?, isBlank c = false
  closing : ∀ c ∈ h.value.getLast?, isBlank c = false

/-- A name with none of the characters that only HTTP has, and a value with no blank at either end. -/
structure Portable (h : Header) : Prop where
  name : ∀ c ∈ h.name, c ∉ ofString "!#$%&'*+^`|~"
  opening : ∀ c ∈ h.value.head?, isBlank c = false
  closing : ∀ c ∈ h.value.getLast?, isBlank c = false

def nameChar (r : Char) : Bool :=
  ('a' ≤ r && r ≤ 'z') || ('A' ≤ r && r ≤ 'Z') || ('0' ≤ r && r ≤ '9') || r ∈ "!#$%&'*+-.^_`|~".toList

theorem nameChar_ascii {r : Char} (h : nameChar r = true) : r.toNat < 0x80 := by
  have hmarks : ∀ r ∈ "!#$%&'*+-.^_`|~".toList, decide (r.toNat < 0x80) = true :=
    List.all_eq_true.mp (by decide)
  have hle {a b : Char} (h : a ≤ b) : a.toNat ≤ b.toNat := h
  simp only [nameChar, Bool.or_eq_true, Bool.and_eq_true, decide_eq_true_eq] at h
  rcases h with ((⟨_, h⟩ | ⟨_, h⟩) | ⟨_, h⟩) | h
  · exact (hle h).trans_lt (by decide)
  · exact (hle h).trans_lt (by decide)
  · exact (hle h).trans_lt (by decide)
  · exact of_decide_eq_true (hmarks r h)

/-- Of the bytes a name may have, the marks that are no letter, digit, hyphen, underscore or period are
those gRPC refuses. -/
theorem nameByte_cases : ∀ c : UInt8, nameChar (Char.ofNat c.toNat) = true → tokenByte c = true ∧
    (metadataByte (if 0x41 ≤ c && c ≤ 0x5A then c + 0x20 else c) = true ↔ c ∉ ofString "!#$%&'*+^`|~") :=
  Url.forall_byte (by decide +kernel)

theorem valueByte_cases :
    ∀ c : UInt8, ((0x20 ≤ c || c = 0x09) && c ≤ 0x7E) = true → visibleByte c = true ∨ isBlank c = true :=
  Url.forall_byte (by decide +kernel)

variable {h : Header} (hc : Checked h)
include hc

theorem Checked.nameChar {c : UInt8} (hmem : c ∈ h.name) : Upstream.nameChar (Char.ofNat c.toNat) = true := by
  have hall : ∀ r ∈ chars h.name, Upstream.nameChar r = true := List.all_eq_true.mp hc.name
  exact hall _ (mem_chars_of_ascii (fun r hr ↦ nameChar_ascii (hall r hr)) hmem)

theorem Checked.visible : ∀ c ∈ h.value, visibleByte c = true ∨ isBlank c = true :=
  fun c hmem ↦ valueByte_cases c (List.all_eq_true.mp hc.value c hmem)

/-- A checked header can be sent both ways exactly when it is portable. -/
theorem Checked.sendable_iff : Metadata h ∧ Field h ↔ Portable h := by
  have hname : (∀ c ∈ toLower h.name, metadataByte c = true) ↔ ∀ c ∈ h.name, c ∉ ofString "!#$%&'*+^`|~" := by
    rw [toLower, List.forall_mem_map]
    exact forall₂_congr (fun c hmem ↦ (nameByte_cases c (hc.nameChar hmem)).2)
  constructor
  · rintro ⟨hmetadata, hfield⟩
    exact ⟨hname.mp hmetadata.name, hfield.opening, hfield.closing⟩
  · intro hp
    exact ⟨⟨hc.nonempty, hname.mpr hp.name, hc.visible⟩,
      ⟨hc.nonempty, fun c hmem ↦ (nameByte_cases c (hc.nameChar hmem)).1, hc.visible, hp.opening, hp.closing⟩⟩

end Sending

/-- The headers of an accepted text can be sent over gRPC and over HTTP exactly when the last header of
every name is portable. -/
theorem accepted_headers_sendable_iff {raw : Bytes} {h : Headers} (hok : parseHeaders raw = .ok h) :
    (∀ p ∈ h.pairs, Metadata p ∧ Field p) ↔ ∀ p, IsLast Header.lowerName (occurrences raw) p →
      Portable p := by
  obtain ⟨hs, rfl, hlast, hchecked⟩ := parseHeaders_eq_ok hok
  have hmem : ∀ p, p ∈ (newHeaders hs).pairs ↔ p ∈ hs := by
    intro p
    rw [pairs_newHeaders]
    exact (List.perm_insertionSort _ hs).mem_iff
  constructor
  · intro hsend p hp
    have hp : p ∈ hs := (hlast.mem_iff p).mpr hp
    exact (hchecked p hp).sendable_iff.mp (hsend p ((hmem p).mpr hp))
  · intro hportable p hp
    have hp : p ∈ hs := (hmem p).mp hp
    exact (hchecked p hp).sendable_iff.mpr (hportable p ((hlast.mem_iff p).mp hp))

theorem plain_headers_sendable :
    parseHeaders (ofString "Authorization=Bearer%20x") = .ok (ofString "Authorization=Bearer+x") ∧
    ∀ p ∈ Headers.pairs (ofString "Authorization=Bearer+x"), Metadata p ∧ Field p := by
  have hok : parseHeaders (ofString "Authorization=Bearer%20x") =
    .ok (ofString "Authorization=Bearer+x") := by rfl
  refine ⟨hok, (accepted_headers_sendable_iff hok).mpr ?_⟩
  intro p hp
  have hoccs : occurrences (ofString "Authorization=Bearer%20x") =
      [⟨ofString "Authorization", ofString "Bearer x"⟩] := by
    decide +kernel
  have hmem := hp.mem
  rw [hoccs, List.mem_singleton] at hmem
  subst hmem
  have hname : ∀ c ∈ ofString "Authorization", decide (c ∉ ofString "!#$%&'*+^`|~") = true :=
    List.all_eq_true.mp (by decide)
  refine ⟨fun c hc ↦ of_decide_eq_true (hname c hc), ?_, ?_⟩
  · intro c hc
    rw [← Option.some.inj hc]
    rfl
  · intro c hc
    rw [← Option.some.inj hc]
    rfl

/-- A name with an exclamation mark and a value that ends in a space are both accepted: gRPC has no such
metadata name, and HTTP no such field value. -/
theorem accepted_headers_unsendable :
    parseHeaders (ofString "x!y=1") = .ok (ofString "x%21y=1") ∧
    ⟨ofString "x!y", ofString "1"⟩ ∈ Headers.pairs (ofString "x%21y=1") ∧
      ¬ Metadata ⟨ofString "x!y", ofString "1"⟩ ∧
    parseHeaders (ofString "a=1%20") = .ok (ofString "a=1+") ∧
    ⟨ofString "a", ofString "1 "⟩ ∈ Headers.pairs (ofString "a=1+") ∧
      ¬ Field ⟨ofString "a", ofString "1 "⟩ := by
  refine ⟨by rfl, by decide +kernel, ?_, by rfl, by decide +kernel, ?_⟩
  · intro h
    exact absurd (h.name 0x21 (by decide)) (by decide)
  · intro h
    exact absurd (h.closing 0x20 (by decide)) (by decide)

end OtlpCollectorOidc.Upstream

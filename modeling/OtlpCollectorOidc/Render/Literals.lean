import OtlpCollectorOidc.Lib.Literal
import OtlpCollectorOidc.Render.Metrics

namespace OtlpCollectorOidc.Render

open Text Strconv Ottl

def quoteMark : Rune := ⟨'"', [0x22]⟩

def escaped (s : Bytes) : Bytes := s.flatMap (fun c ↦ if c = 0x22 || c = 0x5C then [0x5C, c] else [c])

theorem ottlString_append (s t : Bytes) : ottlString s ++ t = 0x22 :: (escaped s ++ 0x22 :: t) := by
  simp [ottlString, escaped]

/-- Nothing in the text needs a backslash. -/
def Verbatim (s : Bytes) : Prop := ∀ c ∈ s, ¬ (c = 0x22 ∨ c = 0x5C)

theorem verbatim_nil : Verbatim [] := List.forall_mem_nil _

theorem Verbatim.concat {s : Bytes} {c : UInt8} (hs : Verbatim s) (hc : ¬ (c = 0x22 ∨ c = 0x5C)) :
    Verbatim (s ++ [c]) := by
  intro d hd
  rcases List.mem_append.mp hd with hd | hd
  · exact hs d hd
  · rw [List.mem_singleton.mp hd]
    exact hc

theorem escaped_special {c : UInt8} (hc : c = 0x22 ∨ c = 0x5C) (s : Bytes) :
    escaped (c :: s) = 0x5C :: c :: escaped s := by
  rw [escaped, List.flatMap_cons, if_pos (by simpa using hc)]
  rfl

theorem escaped_plain {c : UInt8} (hc : ¬ (c = 0x22 ∨ c = 0x5C)) (s : Bytes) :
    escaped (c :: s) = c :: escaped s := by
  rw [escaped, List.flatMap_cons, if_neg (by simpa using hc)]
  rfl

/-- Text with neither quote nor backslash has neither among its characters. -/
theorem Verbatim.runes {p : Bytes} (hp : Verbatim p) {r : Rune} (hr : r ∈ runes p) :
    r.value ≠ '\\' ∧ r.value ≠ '"' := by
  have hmem {b : UInt8} (hb : b ∈ r.raw) : b ∈ p := by
    rw [← flatMap_raw_runes p]
    exact List.mem_flatMap.mpr ⟨r, hr, hb⟩
  have hraw {c : Char} {b : UInt8} (hb : b.toNat = c.toNat) (hc : c.toNat < 0x80) (hv : r.value = c) :
      b ∈ p := by
    apply hmem
    rcases rune_cases hr with h | h
    · rw [h, hv, utf8EncodeChar_ascii hb hc]
      exact List.mem_singleton_self b
    · rw [hv] at h
      rw [h] at hc
      exact absurd hc (by decide)
  constructor
  · intro hv
    exact hp 0x5C (hraw (by decide) (by decide) hv) (Or.inr rfl)
  · intro hv
    exact hp 0x22 (hraw (by decide) (by decide) hv) (Or.inl rfl)

/-- The characters of an escaped text keep within a string token, up to the quote that follows. The
induction carries the plain bytes seen since the last escape, since a character may be several of
them. -/
theorem exists_stringBody {p : Bytes} (hp : Verbatim p) (s t : Bytes) :
    ∃ body, StringBody body ∧ runes (p ++ (escaped s ++ 0x22 :: t)) = body ++ quoteMark :: runes t := by
  induction s generalizing p with
  | nil =>
    have hbody := StringBody.append_plain (fun r hr ↦ hp.runes hr) .nil
    refine ⟨runes p, by simpa using hbody, ?_⟩
    change runes (p ++ 0x22 :: t) = _
    rw [runes_append (by decide), runes_ascii (by decide)]
    rfl
  | cons c s ih =>
    by_cases hc : c = 0x22 ∨ c = 0x5C
    · obtain ⟨body, hbody, hrunes⟩ := ih verbatim_nil
      have hascii : c.toNat < 0x80 := by rcases hc with rfl | rfl <;> decide
      have hvalue : Char.ofNat c.toNat ≠ '\n' := by rcases hc with rfl | rfl <;> decide
      refine ⟨runes p ++ ⟨'\\', [0x5C]⟩ :: ⟨Char.ofNat c.toNat, [c]⟩ :: body,
        .append_plain (fun r hr ↦ hp.runes hr) (.escape rfl hvalue hbody), ?_⟩
      rw [List.nil_append] at hrunes
      rw [escaped_special hc, List.cons_append, List.cons_append, runes_append (by decide),
        runes_ascii (by decide), runes_ascii hascii, hrunes, List.append_assoc]
      rfl
    · obtain ⟨body, hbody, hrunes⟩ := ih (hp.concat hc)
      refine ⟨body, hbody, ?_⟩
      rw [escaped_plain hc, ← hrunes, List.append_assoc]
      rfl

theorem readString_ottlString (s t : Bytes) : readString (ottlString s ++ t) = some (ottlString s, t) := by
  obtain ⟨body, hbody, hrunes⟩ := exists_stringBody verbatim_nil s t
  have hall : runes (ottlString s ++ t) = quoteMark :: body ++ quoteMark :: runes t := by
    rw [ottlString_append, runes_ascii (by decide), ← List.nil_append (escaped s ++ _), hrunes]
    rfl
  have hraw : ottlString s ++ t = (quoteMark :: body ++ [quoteMark]).flatMap Rune.raw ++ t := by
    rw [← flatMap_raw_runes (ottlString s ++ t), hall]
    simp [flatMap_raw_runes]
  refine readString_eq_some_iff.mpr ⟨quoteMark, body, quoteMark, runes t, hall, rfl, hbody, rfl, ?_, ?_⟩
  · exact List.append_cancel_right hraw
  · exact (flatMap_raw_runes t).symm

theorem Verbatim.escaped_eq {s : Bytes} (hs : Verbatim s) : escaped s = s := by
  induction s with
  | nil => rfl
  | cons c s ih =>
    rw [escaped_plain (hs c List.mem_cons_self), ih (fun d hd ↦ hs d (List.mem_cons_of_mem c hd))]

/-- Up to the first quote, an escaped text shows a backslash unless nothing was escaped. -/
theorem verbatim_of_unescaped {s t : Bytes}
    (h : 0x5C ∉ (escaped s ++ 0x22 :: t).takeWhile (fun b ↦ b != 0x22)) :
    Verbatim s := by
  induction s with
  | nil => exact verbatim_nil
  | cons c s ih =>
    by_cases hc : c = 0x22 ∨ c = 0x5C
    · rw [escaped_special hc] at h
      exact absurd List.mem_cons_self h
    · have hquote : (c != 0x22) = true := by simpa using fun hq ↦ hc (Or.inl hq)
      rw [escaped_plain hc, List.cons_append, List.takeWhile_cons, if_pos hquote] at h
      intro d hd
      rcases List.mem_cons.mp hd with rfl | hd
      · exact hc
      · exact ih (List.not_mem_of_not_mem_cons h) d hd

theorem readsAs_escaped {c : Char} (hn : c ≠ '\n') :
    ReadsAs (escaped (String.utf8EncodeChar c)) (String.utf8EncodeChar c) := by
  by_cases hq : c = '"'
  · rw [hq]
    exact readsAs_escape (by decide)
  by_cases hb : c = '\\'
  · rw [hb]
    exact readsAs_escape (by decide)
  have hverbatim : Verbatim (String.utf8EncodeChar c) := by
    rintro d hd (rfl | rfl)
    · exact notMem_utf8EncodeChar (by decide) (fun h ↦ hq (Char.toNat_inj.mp h)) hd
    · exact notMem_utf8EncodeChar (by decide) (fun h ↦ hb (Char.toNat_inj.mp h)) hd
  rw [hverbatim.escaped_eq]
  exact readsAs_char hq hb hn

theorem unquoteRest_escaped {s : Bytes} (hs : Valid s) (hn : 0x0A ∉ s) :
    unquoteRest (escaped s ++ [0x22]) = some (s, []) := by
  have hquote : (0x22 : UInt8) ∈ escaped s ++ [0x22] := by simp
  simp only [unquoteRest, if_pos hquote]
  split_ifs with hshort
  · have hverbatim := verbatim_of_unescaped hshort.1
    have hinner : (s ++ [0x22]).takeWhile (fun b ↦ b != 0x22) = s := by
      rw [List.takeWhile_append_of_pos]
      · simp
      · intro b hb
        simpa using fun h ↦ hverbatim b hb (Or.inl h)
    rw [hverbatim.escaped_eq, hinner]
    simp
  · obtain ⟨cs, rfl⟩ := hs
    have hread : ∀ c ∈ cs, ReadsAs (escaped (String.utf8EncodeChar c)) (String.utf8EncodeChar c) := by
      intro c hc
      apply readsAs_escaped
      rintro rfl
      exact hn (List.mem_flatMap.mpr ⟨'\n', hc, by decide⟩)
    have htext : escaped (ofChars cs) = cs.flatMap (fun c ↦ escaped (String.utf8EncodeChar c)) := by
      rw [escaped, ofChars, List.flatMap_assoc]
      rfl
    have hfuel : cs.length ≤ (cs.flatMap (fun c ↦ escaped (String.utf8EncodeChar c))).length := by
      apply length_le_length_flatMap
      intro c _
      obtain ⟨b, bs, hc⟩ := List.exists_cons_of_ne_nil (utf8EncodeChar_ne_nil c)
      rw [hc]
      by_cases hb : b = 0x22 ∨ b = 0x5C
      · rw [escaped_special hb]
        exact List.cons_ne_nil _ _
      · rw [escaped_plain hb]
        exact List.cons_ne_nil _ _
    rw [htext, unquoteBody_reads hread]
    · rfl
    · rw [List.length_append, List.length_singleton]
      omega

theorem unquote_ottlString {s : Bytes} (hs : Valid s) (hn : 0x0A ∉ s) : unquote (ottlString s) = some s := by
  have htext := ottlString_append s []
  rw [List.append_nil] at htext
  rw [htext, unquote, if_pos rfl, unquoteRest_escaped hs hn, Option.bind_some, if_pos rfl]

theorem literalOf_ottlString {s : Bytes} (hs : Valid s) (hn : 0x0A ∉ s) : LiteralOf s (ottlString s) where
  quoted := rfl
  read rest := by
    have hblank : (ottlString s ++ rest).dropWhile isBlank = ottlString s ++ rest :=
      List.dropWhile_cons_of_neg (by decide)
    rw [readValue, hblank, readString_ottlString, Option.bind_some, unquote_ottlString hs hn, Option.map_some]

theorem readList_ottlList {items : List Bytes} (h : ∀ s ∈ items, Valid s ∧ 0x0A ∉ s) (t : Bytes) :
    readList (ottlList items ++ t) = some (items, t) := by
  have hliteral : ∀ s ∈ items, LiteralOf s (ottlString s) :=
    fun s hs ↦ literalOf_ottlString (h s hs).1 (h s hs).2
  have htext : ottlList items ++ t = 0x5B :: join (ofString ", ") (items.map ottlString) ++ 0x5D :: t := by
    rw [ottlList, List.append_assoc]
    rfl
  rw [htext, readList_literals hliteral]

theorem beginsString_ottlString_iff (s t token rest : Bytes) :
    BeginsString (ottlString s ++ t) token rest ↔ token = ottlString s ∧ rest = t := by
  rw [← readString_eq_some_iff, readString_ottlString, Option.some_inj, Prod.mk.injEq, eq_comm, @eq_comm _ t]

/-- A literal ends where its own text ends, whatever string it holds, and is read as that string; a list
of literals is read as the strings in it. -/
theorem literals_read_back (t : Bytes) :
    (∀ s token rest, BeginsString (ottlString s ++ t) token rest ↔ token = ottlString s ∧ rest = t) ∧
    (∀ s, Valid s → 0x0A ∉ s → unquote (ottlString s) = some s) ∧
    ∀ items : List Bytes, (∀ s ∈ items, Valid s ∧ 0x0A ∉ s) →
      readList (ottlList items ++ t) = some (items, t) := by
  refine ⟨fun s ↦ beginsString_ottlString_iff s t, ?_, ?_⟩
  · intro s hs hn
    exact unquote_ottlString hs hn
  · intro items h
    exact readList_ottlList h t

theorem literals_read_back_injection :
    BeginsString (ottlString "\\d\"] or true" ++ ofString ") or \"x\"")
      (ofString "\"\\\\d\\\"] or true\"") (ofString ") or \"x\"") ∧
    unquote (ottlString "\\d\"] or true") = some (ofString "\\d\"] or true") ∧
    readList (ottlList [ofString "\\d\"] or true", ofString ", "] ++ ofString ")") =
      some ([ofString "\\d\"] or true", ofString ", "], ofString ")") := by
  have hfirst : Valid (ofString "\\d\"] or true") ∧ 0x0A ∉ ofString "\\d\"] or true" :=
    ⟨valid_ofString _, by decide⟩
  have hsecond : Valid (ofString ", ") ∧ 0x0A ∉ ofString ", " := ⟨valid_ofString _, by decide⟩
  have hitems : ∀ s ∈ [ofString "\\d\"] or true", ofString ", "], Valid s ∧ 0x0A ∉ s := by
    intro s hs
    rcases List.mem_pair.mp hs with rfl | rfl
    · exact hfirst
    · exact hsecond
  exact ⟨((literals_read_back _).1 _ _ _).mpr ⟨by decide, rfl⟩,
    (literals_read_back []).2.1 _ hfirst.1 hfirst.2, (literals_read_back _).2.2 _ hitems⟩

/-- The keys a statement keeps are those its text names. -/
theorem keepKeys_reads_back (path : MetricPath) {keys : List Bytes} (h : ∀ k ∈ keys, Valid k ∧ 0x0A ∉ k) :
    ∃ text, (MetricStatement.keepKeys path keys).text = ofString "keep_keys(" ++ path.text ++ ofString ", " ++
      text ∧ readList text = some (keys, ofString ")") := by
  refine ⟨ottlList keys ++ ofString ")", ?_, readList_ottlList h _⟩
  rw [MetricStatement.text, List.append_assoc]

/-- The filter matches against the anchored pattern and nothing else of its text. -/
theorem serviceNameFilter_reads_back {pattern : Bytes} (hv : Valid pattern) (hn : 0x0A ∉ pattern) :
    ∃ text, serviceNameFilter pattern =
        ofString "not IsString(resource.attributes[\"service.name\"]) or " ++
          ofString "not IsMatch(resource.attributes[\"service.name\"], " ++ text ∧
      readValue text = some (anchored pattern, ofString ")") := by
  have hvalid : Valid (anchored pattern) := by
    obtain ⟨cs, rfl⟩ := hv
    refine ⟨"^(?:".toList ++ cs ++ ")$".toList, ?_⟩
    rw [anchored, ofChars_append, ofChars_append, ofString_eq_ofChars, ofString_eq_ofChars]
  have hnewline : 0x0A ∉ anchored pattern := by
    have hhead : 0x0A ∉ ofString "^(?:" := by decide
    have htail : 0x0A ∉ ofString ")$" := by decide
    simp [anchored, hn, hhead, htail]
  refine ⟨ottlString (anchored pattern) ++ ofString ")", ?_, (literalOf_ottlString hvalid hnewline).read _⟩
  rw [serviceNameFilter, List.append_assoc]

end OtlpCollectorOidc.Render

import OtlpCollectorOidc.Lib.Fields
import OtlpCollectorOidc.Render.Startup

namespace OtlpCollectorOidc.Render

open Text Occurrences

namespace KeyValueList

def occurrences (text : Bytes) : List (Bytes × Bytes) := (text.splitOn 0x2C).filterMap occurrence

/-- The list that a series of pairs stands for: every key once, where it was first seen, with its last
value. -/
structure Denotes (occs : List (Bytes × Bytes)) (l : KeyValueList) : Prop where
  nonempty : ∀ kv ∈ l.pairs, kv.key ≠ []
  distinct : (l.pairs.map KeyValue.key).Nodup
  order : l.pairs.map KeyValue.key = (occs.map Prod.fst).eraseDups
  value : ∀ kv ∈ l.pairs, ∃ v, IsLast Prod.fst occs (kv.key, v) ∧ Url.unescape .path v = some kv.value

/-- A key that reads back as it is printed. -/
structure Plain (key : Bytes) : Prop where
  trimmed : trimSpace key = key
  noComma : 0x2C ∉ key
  noEquals : 0x3D ∉ key

section Reading

variable {l : KeyValueList} {occs : List (Bytes × Bytes)}

theorem denotes_empty : Denotes [] empty :=
  ⟨by simp [empty], by simp [empty], by simp [empty], by simp [empty]⟩

theorem Denotes.set (hl : Denotes occs l) {key v value : Bytes} (hkey : key ≠ [])
    (hv : Url.unescape .path v = some value) :
    Denotes (occs ++ [(key, v)]) (l.set ⟨key, value⟩ hkey) := by
  refine ⟨(l.set _ hkey).key_ne, (l.set _ hkey).nodup, ?_, ?_⟩
  · have hmem : key ∈ l.pairs.map KeyValue.key ↔ key ∈ occs.map Prod.fst := by
      rw [hl.order, List.mem_eraseDups]
    rw [pairs_set, keys_put, List.map_append, List.map_singleton, List.eraseDups_append, ← hl.order]
    simp only [hmem]
    split_ifs with hseen
    · simp [List.removeAll, hseen]
    · simp [List.removeAll, hseen, List.eraseDups_cons]
  · intro kv hkv
    rw [pairs_set, mem_put l.nodup] at hkv
    rcases hkv with rfl | ⟨hkv, hne⟩
    · exact ⟨v, isLast_concat.mpr (Or.inl rfl), hv⟩
    · obtain ⟨w, hlast, hw⟩ := hl.value kv hkv
      exact ⟨w, isLast_concat.mpr (Or.inr ⟨hlast, hne⟩), hw⟩

theorem Denotes.addItem (hl : Denotes occs l) {l' : KeyValueList} {n : ℕ} {item : Bytes}
    (h : l.addItem n item = .ok l') :
    Denotes (occs ++ (occurrence item).toList) l' := by
  obtain ⟨hnone, rfl⟩ | ⟨key, v, value, hkey, hsome, hv, rfl, _⟩ := addItem_eq_ok h
  · rw [hnone, Option.toList_none, List.append_nil]
    exact hl
  · rw [hsome]
    exact hl.set hkey hv

theorem Denotes.addItems (hl : Denotes occs l) {l' : KeyValueList} {n : ℕ} {items : List Bytes}
    (h : l.addItems n items = .ok l') : Denotes (occs ++ items.filterMap occurrence) l' := by
  induction items generalizing l n occs with
  | nil =>
    cases h
    simpa using hl
  | cons item items ih =>
    rw [KeyValueList.addItems] at h
    split at h
    · cases h
    · rename_i l₁ hadd
      have hrest := ih (hl.addItem hadd) h
      have hcons : (item :: items).filterMap occurrence = (occurrence item).toList ++
          items.filterMap occurrence := by
        rw [List.filterMap_cons]
        cases occurrence item <;> rfl
      rwa [hcons, ← List.append_assoc]

theorem plain_of_unmarshalText {text : Bytes} (h : unmarshalText text = .ok l) :
    ∀ kv ∈ l.pairs, Plain kv.key := by
  refine forall_key_addItems ?_ (by simp [empty]) h
  intro item hitem before hbefore
  refine ⟨trimSpace_trimSpace before, fun hcomma ↦ ?_, fun hequals ↦ ?_⟩
  · exact notMem_of_mem_splitOn hitem (mem_of_mem_splitOn hbefore (mem_of_mem_trimSpace hcomma))
  · exact notMem_of_mem_splitOn hbefore (mem_of_mem_trimSpace hequals)

end Reading

section Printing

def printed (kv : KeyValue) : Bytes := kv.key ++ ofString "=" ++ Url.pathEscape kv.value

theorem pathEscape_bytes (value : Bytes) :
    ∀ b ∈ Url.pathEscape value, b ≠ 0x2C ∧ b.toNat < 0x80 ∧ isSpace (Char.ofNat b.toNat) = false := by
  intro b hb
  have hkept : ∀ c : UInt8, ((Url.unreserved c || c ∈ ofString "$&+:=@") = true ∨ c = 0x25 ∨
    Url.isUpperhex c = true) →
      c ≠ 0x2C ∧ c.toNat < 0x80 ∧ isSpace (Char.ofNat c.toNat) = false := Url.forall_byte (by decide +kernel)
  exact hkept b (Url.mem_percentEncode hb)

theorem unescape_pathEscape (value : Bytes) :
    Url.unescape .path (trimSpace (Url.pathEscape value)) = some value := by
  rw [trimSpace_of_spaceless (spaceless_of_ascii (fun b hb ↦ (pathEscape_bytes value b hb).2))]
  exact Url.unescape_percentEncode (by decide) value

variable {kv : KeyValue}

theorem notMem_printed (hkey : Plain kv.key) : 0x2C ∉ printed kv := by
  have hequals : 0x2C ∉ ofString "=" := by decide
  have hvalue : 0x2C ∉ Url.pathEscape kv.value := fun h ↦ (pathEscape_bytes kv.value _ h).1 rfl
  simp [printed, hkey.noComma, hequals, hvalue]

theorem printed_eq (kv : KeyValue) : printed kv = kv.key ++ 0x3D :: Url.pathEscape kv.value := by
  rw [printed, show ofString "=" = [0x3D] from by decide, List.append_assoc, List.singleton_append]

theorem addItem_printed (hkey : Plain kv.key) (hne : kv.key ≠ []) (l : KeyValueList) (n : ℕ) :
    l.addItem n (printed kv) = .ok (l.set kv hne) := by
  have hnotBlank : trimSpace (printed kv) ≠ [] := by
    rw [printed_eq]
    refine trimSpace_ne_nil (x := ⟨'=', [0x3D]⟩) ?_ (by decide)
    rw [runes_append (by decide), runes_ascii (by decide)]
    exact List.mem_append_right _ List.mem_cons_self
  rw [addItem, if_neg hnotBlank, printed_eq, cut_append hkey.noEquals]
  simp only [hkey.trimmed, hne, dite_false, unescape_pathEscape]

theorem addItems_printed {kvs : List KeyValue} (hplain : ∀ kv ∈ kvs, Plain kv.key)
    (hne : ∀ kv ∈ kvs, kv.key ≠ []) (l : KeyValueList) (n : ℕ)
    (hnodup : ((l.pairs ++ kvs).map KeyValue.key).Nodup) :
    ∃ l', l.addItems n (kvs.map printed) = .ok l' ∧ l'.pairs = l.pairs ++ kvs := by
  induction kvs generalizing l n with
  | nil => exact ⟨l, rfl, (List.append_nil _).symm⟩
  | cons kv kvs ih =>
    have hkey : kv.key ∉ l.pairs.map KeyValue.key := by
      rw [List.map_append, List.map_cons] at hnodup
      exact fun hmem ↦ (List.nodup_append.mp hnodup).2.2 _ hmem _ List.mem_cons_self rfl
    have hset : (l.set kv (hne kv List.mem_cons_self)).pairs = l.pairs ++ [kv] := by
      rw [pairs_set, put_of_notMem hkey]
    obtain ⟨l', hl', hpairs⟩ := ih (fun x hx ↦ hplain x (List.mem_cons_of_mem kv hx))
      (fun x hx ↦ hne x (List.mem_cons_of_mem kv hx)) (l.set kv (hne kv List.mem_cons_self)) (n + 1)
      (by rw [hset, List.append_assoc]; exact hnodup)
    refine ⟨l', ?_, by rw [hpairs, hset, List.append_assoc]; rfl⟩
    rw [List.map_cons, KeyValueList.addItems,
      addItem_printed (hplain kv List.mem_cons_self) (hne kv List.mem_cons_self)]
    exact hl'

/-- A list whose keys are plain is read back from what it prints. -/
theorem unmarshalText_string {l : KeyValueList} (hplain : ∀ kv ∈ l.pairs, Plain kv.key) :
    unmarshalText l.string = .ok l := by
  have hcomma : ofString "," = [0x2C] := by decide
  obtain ⟨l', hread, hpairs⟩ := addItems_printed hplain l.key_ne empty 1 l.nodup
  have hsame : l' = l := by
    cases l
    cases l'
    cases hpairs
    rfl
  rw [hsame] at hread
  rw [unmarshalText, string, join, hcomma]
  change empty.addItems 1 (([0x2C].intercalate (l.pairs.map printed)).splitOn 0x2C) = .ok l
  by_cases hnil : l.pairs = []
  · rw [hnil] at hread ⊢
    exact hread
  · rw [List.splitOn_intercalate 0x2C _ (by simpa using hnil)]
    · exact hread
    · intro item hitem
      obtain ⟨kv, hkv, rfl⟩ := List.mem_map.mp hitem
      exact notMem_printed (hplain kv hkv)

end Printing

end KeyValueList

/-- A list read from a text has every key of it once, with its last value, and survives its own printing. -/
theorem key_value_list_survives_printing {text : Bytes} {l : KeyValueList}
    (h : KeyValueList.unmarshalText text = .ok l) :
    KeyValueList.Denotes (KeyValueList.occurrences text) l ∧ KeyValueList.unmarshalText l.string = .ok l :=
  ⟨KeyValueList.denotes_empty.addItems h,
    KeyValueList.unmarshalText_string (KeyValueList.plain_of_unmarshalText h)⟩

def repeatedPairs : KeyValueList := ⟨[⟨"a", "2"⟩, ⟨"b", "x,y"⟩], by decide, by decide⟩

/-- A repeated key, a comma in a value and blanks around the pairs. -/
theorem repeated_pairs_survive :
    KeyValueList.unmarshalText (ofString "a=1, b = x%2Cy ,a=2") = .ok repeatedPairs ∧
    repeatedPairs.string = ofString "a=2,b=x%2Cy" ∧
    KeyValueList.Denotes [("a", "1"), ("b", "x%2Cy"), ("a", "2")] repeatedPairs ∧
    KeyValueList.unmarshalText repeatedPairs.string = .ok repeatedPairs := by
  have hread : KeyValueList.unmarshalText (ofString "a=1, b = x%2Cy ,a=2") = .ok repeatedPairs := by rfl
  have hoccs : KeyValueList.occurrences (ofString "a=1, b = x%2Cy ,a=2") =
      [(ofString "a", ofString "1"), (ofString "b", ofString "x%2Cy"), (ofString "a", ofString "2")] := by
    decide +kernel
  obtain ⟨hdenotes, hagain⟩ := key_value_list_survives_printing hread
  rw [hoccs] at hdenotes
  exact ⟨hread, by decide +kernel, hdenotes, hagain⟩

end OtlpCollectorOidc.Render

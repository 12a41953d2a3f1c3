import OtlpCollectorOidc.Lib.Yaml

namespace OtlpCollectorOidc.Render

open Text

def quote (v : Bytes) : Bytes :=
  replaceByte 0x24 (ofString "$$") (trimSuffix [0x0A] (Json.encodeString v ++ [0x0A]))

/-- Whether the collector finds a reference to expand: a `${` that a `}` closes,
after an even number of dollars. -/
def hasReference (dollars : ℕ) : List Char → Bool
  | [] => false
  | '$' :: '{' :: rest => (dollars % 2 = 0 && '}' ∈ rest) || hasReference 0 rest
  | '$' :: rest => hasReference (dollars + 1) rest
  | _ :: rest => hasReference 0 rest

def unescapeDollars : List Char → List Char
  | [] => []
  | '$' :: '$' :: rest => '$' :: unescapeDollars rest
  | c :: rest => c :: unescapeDollars rest

/-- The scalar that `quote` writes is read to its end, whatever follows it, and
comes out of the collector's expansion as the value it was written for. -/
def ReadsBack (admits : Char → Bool) (v : Bytes) : Prop :=
  ∀ rest, ∃ content, Yaml.readScalar admits (chars (quote v ++ rest)) = some (content, chars rest) ∧
    hasReference 0 content = false ∧ ofChars (unescapeDollars content) = v

def doubled (c : Char) : List Char := if c = '$' then ['$', '$'] else [c]

def quoteChar (c : Char) : List Char := (Json.escapeOf c).getD (doubled c)

theorem escapeOf_flatMap_doubled (c : Char) : ((Json.escapeOf c).getD [c]).flatMap doubled = quoteChar c := by
  cases h : Json.escapeOf c with
  | none => simp [quoteChar, h]
  | some e =>
    have hid : ∀ x ∈ e, doubled x = [x] := by
      intro x hx
      apply if_neg
      rintro rfl
      exact Json.dollar_notMem_escapeOf h hx
    simp only [quoteChar, h, Option.getD_some]
    rw [List.flatMap_congr hid, List.flatMap_singleton']

theorem quote_ofChars (cs : List Char) :
    quote (ofChars cs) = ofChars ('"' :: cs.flatMap quoteChar ++ ['"']) := by
  have hd : ofString "$$" = ofChars ['$', '$'] := rfl
  have hb : (0x24 : UInt8).toNat = '$'.toNat := rfl
  rw [quote, trimSuffix_append, Json.encodeString_ofChars, hd, replaceByte_ofChars hb (by decide)]
  change ofChars (('"' :: cs.flatMap (fun c ↦ (Json.escapeOf c).getD [c]) ++ ['"']).flatMap doubled) = _
  rw [List.flatMap_append, List.flatMap_cons, List.flatMap_assoc, funext escapeOf_flatMap_doubled]
  rfl

theorem unescapeDollars_flatMap (cs : List Char) : unescapeDollars (cs.flatMap doubled) = cs := by
  induction cs with
  | nil => rfl
  | cons c cs ih =>
    rw [List.flatMap_cons, doubled]
    split_ifs with hc
    · simp [unescapeDollars, ih, hc]
    · simp [unescapeDollars, ih, hc]

theorem hasReference_of_odd {n : ℕ} (hn : n % 2 = 1) (cs : List Char)
    (h : hasReference n ('$' :: cs) = true) : hasReference (n + 1) cs = true ∨ hasReference 0 cs = true := by
  cases cs with
  | nil => simp [hasReference] at h
  | cons c cs =>
    by_cases hc : c = '{'
    · right
      subst hc
      simpa [hasReference, hn] using h
    · left
      simpa [hasReference, hc] using h

/-- Doubled dollars leave an odd number before each `${`. -/
theorem hasReference_flatMap {n : ℕ} (hn : n % 2 = 0) (cs : List Char) :
    hasReference n (cs.flatMap doubled) = false := by
  induction cs generalizing n with
  | nil => rfl
  | cons c cs ih =>
    rw [List.flatMap_cons, doubled]
    split_ifs with hc
    · change hasReference (n + 1) ('$' :: cs.flatMap doubled) = false
      by_contra h
      obtain h | h := hasReference_of_odd (by omega) _ (Bool.eq_true_of_not_eq_false h)
      · rw [ih (by omega)] at h
        cases h
      · rw [ih rfl] at h
        cases h
    · rw [List.cons_append, List.nil_append, hasReference]
      · exact ih rfl
      · simp [hc]
      · simp [hc]

def folded (c : Char) : Char := if c.toNat = 0x85 then ' ' else c

/-- The characters `quote` can put before the reader: those it escapes, the line
breaks, and what the reader admits. -/
def readable (admits : Char → Bool) (c : Char) : Bool :=
  (Json.escapeOf c).isSome || Yaml.isBreak c || admits c

section Reading

variable {admits : Char → Bool}

theorem folded_of_escapeOf {c : Char} {e : List Char} (h : Json.escapeOf c = some e) :
    doubled (folded c) = [c] := by
  have hne : Json.escapeOf c ≠ none := h ▸ Option.some_ne_none e
  have hfold : folded c = c := by
    apply if_neg
    intro hc
    apply hne
    rw [Json.escapeOf_eq_none, hc]
    refine ⟨?_, ?_, by decide⟩ <;> rintro rfl <;> exact absurd hc (by decide)
  rw [hfold]
  apply if_neg
  rintro rfl
  exact hne rfl

theorem isBreak_of_escapeOf_none {c : Char} (h : Json.escapeOf c = none) :
    Yaml.isBreak c = true ↔ c.toNat = 0x85 := by
  obtain ⟨_, _, hlow, hls, hps⟩ := Json.escapeOf_eq_none.mp h
  simp only [Yaml.isBreak, Bool.or_eq_true, decide_eq_true_eq]
  omega

variable (hadmits : ∀ c : Char, 0x20 ≤ c.toNat → c.toNat ≤ 0x7E → admits c = true)
include hadmits

theorem scalarBody_quoteChar (c : Char) (rest : List Char) :
    Yaml.scalarBody admits (quoteChar c ++ rest) =
      if readable admits c then (Yaml.scalarBody admits rest).map (fun p ↦ (doubled (folded c) ++ p.1, p.2))
      else none := by
  cases he : Json.escapeOf c with
  | some e =>
    rw [quoteChar, he, Option.getD_some, Yaml.scalarBody_escapeOf admits he, folded_of_escapeOf he,
      if_pos (by simp [readable, he])]
    rfl
  | none =>
    obtain ⟨hq, hb, hlow, _, _⟩ := Json.escapeOf_eq_none.mp he
    have hbreak := isBreak_of_escapeOf_none he
    rw [quoteChar, he, Option.getD_none]
    by_cases hc : c = '$'
    · subst hc
      have hd : ∀ cs, Yaml.scalarBody admits ('$' :: cs) =
          (Yaml.scalarBody admits cs).map (fun p ↦ ('$' :: p.1, p.2)) := by
        intro cs
        rw [Yaml.scalarBody_raw admits hq hb, if_neg (by decide),
          if_pos (hadmits '$' (by decide) (by decide))]
      have hr : readable admits '$' = true :=
        Bool.or_eq_true_iff.mpr (Or.inr (hadmits '$' (by decide) (by decide)))
      change Yaml.scalarBody admits ('$' :: '$' :: rest) = _
      rw [hd, hd, if_pos hr, Option.map_map]
      rfl
    · rw [doubled, if_neg hc, List.singleton_append, Yaml.scalarBody_raw admits hq hb, folded]
      by_cases hn : c.toNat = 0x85
      · rw [if_pos (hbreak.mpr hn), if_pos (by simp [readable, hbreak.mpr hn]), if_pos hn]
        rfl
      · have hnb : Yaml.isBreak c = false := Bool.eq_false_iff.mpr (fun h ↦ hn (hbreak.mp h))
        rw [if_neg (by simp [hnb]), if_neg hn, doubled, if_neg hc]
        simp [readable, he, hnb]

theorem scalarBody_quoteChars (cs rest : List Char) :
    Yaml.scalarBody admits (cs.flatMap quoteChar ++ '"' :: rest) =
      if cs.all (readable admits) then some ((cs.map folded).flatMap doubled, rest) else none := by
  induction cs with
  | nil => rfl
  | cons c cs ih =>
    rw [List.flatMap_cons, List.append_assoc, scalarBody_quoteChar hadmits, ih, List.all_cons]
    by_cases hc : readable admits c = true
    · by_cases hcs : cs.all (readable admits) = true
      · simp [hc, hcs]
      · simp [hc, hcs]
    · simp [hc]

theorem readScalar_quote (cs : List Char) (rest : Bytes) :
    Yaml.readScalar admits (chars (quote (ofChars cs) ++ rest)) =
      if cs.all (readable admits) then some ((cs.map folded).flatMap doubled, chars rest) else none := by
  rw [quote_ofChars, chars_ofChars_append, List.cons_append, List.cons_append, List.append_assoc]
  exact scalarBody_quoteChars hadmits cs (chars rest)

omit hadmits in
theorem folded_eq_self_iff {c : Char} : folded c = c ↔ c.toNat ≠ 0x85 := by
  rw [folded]
  split_ifs with hc
  · simp only [hc, ne_eq, not_true_eq_false, iff_false]
    rintro rfl
    exact absurd hc (by decide)
  · simp [hc]

omit hadmits in
theorem reads_as_itself_iff {c : Char} : readable admits c = true ∧ folded c = c ↔
    c = '"' ∨ c = '\\' ∨ c.toNat < 0x20 ∨ c.toNat = 0x2028 ∨ c.toNat = 0x2029 ∨
      (admits c = true ∧ c.toNat ≠ 0x85) := by
  rw [folded_eq_self_iff]
  by_cases he : Json.escapeOf c = none
  · have hb := isBreak_of_escapeOf_none he
    obtain ⟨hq, hs, hlow, hls, hps⟩ := Json.escapeOf_eq_none.mp he
    simp only [readable, he, Option.isSome_none, Bool.false_or, Bool.or_eq_true, hb, hq, hs, hls, hps,
      not_lt.mpr hlow, false_or]
    exact ⟨fun h ↦ ⟨h.1.resolve_left h.2, h.2⟩, fun h ↦ ⟨Or.inr h.1, h.2⟩⟩
  · have hesc : c = '"' ∨ c = '\\' ∨ c.toNat < 0x20 ∨ c.toNat = 0x2028 ∨ c.toNat = 0x2029 := by
      by_contra hcon
      simp only [not_or, not_lt] at hcon
      exact he (Json.escapeOf_eq_none.mpr hcon)
    have hne : c.toNat ≠ 0x85 := by
      obtain rfl | rfl | h | h | h := hesc
      · decide
      · decide
      all_goals omega
    have hr : readable admits c = true := by simp [readable, Option.isSome_iff_ne_none.mpr he]
    simp only [hr, hne, ne_eq, not_false_eq_true, and_self, true_iff]
    tauto

end Reading

/-- A value reads back as itself just when the reader admits every character that
`quote` leaves unescaped and none of them is the line break U+0085. -/
theorem quote_reads_back_iff (admits : Char → Bool)
    (hadmits : ∀ c : Char, 0x20 ≤ c.toNat → c.toNat ≤ 0x7E → admits c = true) (cs : List Char) :
    ReadsBack admits (ofChars cs) ↔ ∀ c ∈ cs, c = '"' ∨ c = '\\' ∨ c.toNat < 0x20 ∨ c.toNat = 0x2028 ∨
      c.toNat = 0x2029 ∨ (admits c = true ∧ c.toNat ≠ 0x85) := by
  have hread (rest : Bytes) := readScalar_quote hadmits cs rest
  simp only [← reads_as_itself_iff]
  constructor
  · intro h c hc
    obtain ⟨content, hcontent, _, hv⟩ := h []
    rw [hread] at hcontent
    split_ifs at hcontent with hall
    cases hcontent
    rw [unescapeDollars_flatMap] at hv
    have hfold : cs.map folded = cs.map id := (ofChars_injective hv).trans (List.map_id cs).symm
    exact ⟨List.all_eq_true.mp hall c hc, List.map_inj_left.mp hfold c hc⟩
  · intro h rest
    have hall : cs.all (readable admits) = true := List.all_eq_true.mpr (fun c hc ↦ (h c hc).1)
    have hfold : cs.map folded = cs := (List.map_inj_left.mpr (fun c hc ↦ (h c hc).2)).trans (List.map_id cs)
    refine ⟨(cs.map folded).flatMap doubled, ?_, hasReference_flatMap rfl _, ?_⟩
    · rw [hread, if_pos hall]
    · rw [unescapeDollars_flatMap, hfold]

def printable (c : Char) : Bool :=
  let n := c.toNat
  (0x20 ≤ n && n ≤ 0x7E) || n = 0x85 || (0xA0 ≤ n && n ≤ 0xD7FF) || (0xE000 ≤ n && n ≤ 0xFFFD) || 0x10000 ≤ n

theorem hostile_value_reads_back : ReadsBack printable (ofChars "$\x7b'a': \"b\"\x7d\\\n#".toList) :=
  (quote_reads_back_iff printable (by simp +contextual [printable]) _).mpr
    (List.forall_iff_forall_mem.mp (by decide))

/-- A next-line character comes back as a space. -/
theorem next_line_reads_back_as_space :
    Yaml.readScalar printable (chars (quote (ofChars ['a', Char.ofNat 0x85, 'b']))) =
      some (['a', ' ', 'b'], []) ∧
    ¬ ReadsBack printable (ofChars ['a', Char.ofNat 0x85, 'b']) := by
  have hread : Yaml.readScalar printable (chars (quote (ofChars ['a', Char.ofNat 0x85, 'b']))) =
      some (['a', ' ', 'b'], []) := by decide +kernel
  refine ⟨hread, fun h ↦ ?_⟩
  obtain ⟨content, hcontent, _, hv⟩ := h []
  rw [List.append_nil, hread] at hcontent
  cases hcontent
  exact absurd hv (by decide)

end OtlpCollectorOidc.Render

import OtlpCollectorOidc.Lib.Regexp.Parser

namespace OtlpCollectorOidc.Regexp

def anchorHead : List Char := ['^', '(', '?', ':']

def anchorTail : List Char := [')', '$']

def anchor (pattern : List Char) : List Char := anchorHead ++ pattern ++ anchorTail

section Stable

variable {α : Type}

/-- Whatever is read is read in front of the closing anchor too. -/
def Stable (f : Reader α) : Prop :=
  ∀ x a rest, f x = some (a, rest) → f (x ++ anchorTail) = some (a, rest ++ anchorTail)

theorem expect_append {c : Char} (h : c ≠ ')') (x : List Char) :
    expect c (x ++ anchorTail) = (expect c x).map (· ++ anchorTail) := by
  cases x with
  | nil => simp [expect, anchorTail, h.symm]
  | cons d t =>
    rw [List.cons_append, expect, expect]
    split_ifs <;> rfl

theorem head_append {p : Char → Bool} (h : p ')' = false) (x : List Char) :
    (x ++ anchorTail).head?.any p = x.head?.any p := by
  cases x with
  | nil => exact h
  | cons c t => rfl

theorem stable_cutAt (sep : Char) : Stable (cutAt sep) := by
  intro x
  induction x with
  | nil => simp [cutAt]
  | cons c t ih =>
    intro a rest h
    rw [cutAt] at h
    rw [List.cons_append, cutAt]
    split_ifs at h ⊢
    · cases h
      rfl
    · obtain ⟨p, hp, he⟩ := Option.map_eq_some_iff.mp h
      cases he
      rw [ih p.1 p.2 hp]
      rfl

theorem cutPair_append (a : Char) {b : Char} (hb : b ∉ anchorTail) (x : List Char) :
    cutPair a b (x ++ anchorTail) = (cutPair a b x).map (fun p ↦ (p.1, p.2 ++ anchorTail)) := by
  have hne : b ≠ ')' ∧ b ≠ '$' := by simpa [anchorTail] using hb
  induction x with
  | nil => simp [anchorTail, cutPair, hne.2.symm]
  | cons c t ih =>
    cases t with
    | nil => simp [anchorTail, cutPair, hne.1.symm, hne.2.symm]
    | cons d t =>
      rw [List.cons_append, List.cons_append, cutPair, cutPair]
      split_ifs
      · rfl
      · rw [← List.cons_append, ih, Option.map_map, Option.map_map]
        rfl

theorem readDigits_append (n : ℕ) (x : List Char) :
    readDigits n (x ++ anchorTail) = ((readDigits n x).1, (readDigits n x).2 ++ anchorTail) := by
  induction x generalizing n with
  | nil => rfl
  | cons c t ih =>
    rw [List.cons_append, readDigits, readDigits]
    split_ifs
    · exact ih _
    · rfl

theorem readInt_append (x : List Char) :
    readInt (x ++ anchorTail) = (readInt x).map (fun p ↦ (p.1, p.2 ++ anchorTail)) := by
  cases x with
  | nil => rfl
  | cons c t =>
    rw [List.cons_append, readInt, readInt, head_append rfl, readDigits_append]
    split_ifs <;> rfl

theorem readMax_append (min : ℕ) (x : List Char) :
    readMax min (x ++ anchorTail) = (readMax min x).map (fun p ↦ (p.1, p.2 ++ anchorTail)) := by
  rw [readMax, readMax, expect_append (by decide), expect_append (by decide)]
  cases expect '}' x with
  | some t => rfl
  | none =>
    cases expect ',' x with
    | none => rfl
    | some t =>
      simp only [Option.map_none, Option.map_some, Option.bind_some, expect_append (show '}' ≠ ')' by decide)]
      cases expect '}' t with
      | some t' => rfl
      | none =>
        rw [readInt_append]
        cases readInt t with
        | none => rfl
        | some p =>
          simp only [Option.map_none, Option.map_some, Option.bind_some,
            expect_append (show '}' ≠ ')' by decide), Option.map_map]
          rfl

theorem readBounds_append (x : List Char) :
    readBounds (x ++ anchorTail) = (readBounds x).map (fun p ↦ (p.1, p.2 ++ anchorTail)) := by
  rw [readBounds, readInt_append]
  cases h : readInt x with
  | none => simp [readBounds, h]
  | some p => simp [readBounds, h, readMax_append]

theorem readOctal_append (r n : ℕ) (x : List Char) :
    readOctal r n (x ++ anchorTail) = ((readOctal r n x).1, (readOctal r n x).2 ++ anchorTail) := by
  induction n generalizing r x with
  | zero => cases x <;> rfl
  | succ n ih =>
    cases x with
    | nil => rfl
    | cons c t =>
      rw [List.cons_append, readOctal, readOctal]
      split_ifs
      · exact ih _ t
      · rfl

theorem stable_readHex (r : ℕ) (seen : Bool) : Stable (readHex r seen) := by
  intro x
  induction x generalizing r seen with
  | nil => simp [readHex]
  | cons c t ih =>
    intro a rest h
    rw [readHex] at h
    rw [List.cons_append, readHex]
    split_ifs at h ⊢
    · cases h
      rfl
    · obtain ⟨v, hv, h⟩ := Option.bind_eq_some_iff.mp h
      split_ifs at h with hmax
      rw [hv, Option.bind_some, if_neg hmax]
      exact ih _ _ a rest h

theorem stable_readHexEscape : Stable readHexEscape := by
  intro x a rest h
  cases x with
  | nil => simp [readHexEscape] at h
  | cons c t =>
    simp only [List.cons_append, readHexEscape] at h ⊢
    split_ifs at h ⊢
    · exact stable_readHex _ _ t a rest h
    · cases t with
      | nil => simp at h
      | cons d t =>
        obtain ⟨y, hy, h⟩ := Option.bind_eq_some_iff.mp h
        obtain ⟨z, hz, h⟩ := Option.map_eq_some_iff.mp h
        cases h
        simp [hy, hz]

theorem stable_readEscape : Stable readEscape := by
  intro x a rest h
  cases x with
  | nil => simp [readEscape] at h
  | cons c t =>
    rw [readEscape] at h
    rw [List.cons_append, readEscape, head_append rfl]
    split_ifs at h ⊢
    · have he := Option.some.inj h
      rw [readOctal_append, he]
    · exact stable_readHexEscape t a rest h
    · obtain ⟨r, hr, h⟩ := Option.map_eq_some_iff.mp h
      cases h
      rw [hr]
      rfl

variable (u : Unicode)

theorem stable_readUnicode (neg : Bool) : Stable (readUnicode u neg) := by
  intro x a rest h
  cases x with
  | nil => simp [readUnicode] at h
  | cons c t =>
    rw [readUnicode] at h
    rw [List.cons_append, readUnicode]
    split_ifs at h ⊢
    · obtain ⟨p, hp, h⟩ := Option.bind_eq_some_iff.mp h
      obtain ⟨item, hitem, h⟩ := Option.map_eq_some_iff.mp h
      cases h
      rw [stable_cutAt _ t p.1 p.2 hp, Option.bind_some, hitem]
      rfl
    · obtain ⟨item, hitem, h⟩ := Option.map_eq_some_iff.mp h
      cases h
      rw [hitem]
      rfl

theorem stable_readClassChar : Stable readClassChar := by
  intro x a rest h
  cases x with
  | nil => simp [readClassChar] at h
  | cons c t =>
    rw [readClassChar] at h
    rw [List.cons_append, readClassChar]
    split_ifs at h ⊢
    · exact stable_readEscape t a rest h
    · cases h
      rfl

/-- A minus at the very end would become the minus of a range up to the parenthesis. -/
theorem readUpper_append {lo : ℕ} {x rest : List Char} {a : ClassItem} (h : readUpper lo x = some (a, rest))
    (hrest : rest ≠ ['-']) : readUpper lo (x ++ anchorTail) = some (a, rest ++ anchorTail) := by
  rw [readUpper] at h
  rw [readUpper, expect_append (by decide)]
  cases he : expect '-' x with
  | none =>
    rw [he] at h
    cases h
    rfl
  | some t =>
    rw [he] at h
    cases t with
    | nil =>
      cases h
      exact absurd (expect_eq_some.mp he) hrest
    | cons c t =>
      simp only [Option.map_some, List.cons_append] at h ⊢
      split_ifs at h ⊢
      · cases h
        rfl
      · obtain ⟨p, hp, h⟩ := Option.bind_eq_some_iff.mp h
        split_ifs at h with hlt
        cases h
        rw [← List.cons_append, stable_readClassChar _ p.1 p.2 hp, Option.bind_some, if_neg hlt]

theorem readRange_append {x rest : List Char} {a : ClassItem} (h : readRange x = some (a, rest))
    (hrest : rest ≠ ['-']) : readRange (x ++ anchorTail) = some (a, rest ++ anchorTail) := by
  obtain ⟨p, hp, h⟩ := Option.bind_eq_some_iff.mp h
  rw [readRange, stable_readClassChar x p.1 p.2 hp, Option.bind_some]
  exact readUpper_append h hrest

theorem readClassEscape_append {c : Char} {x : List Char} {r : Option (ClassItem × List Char)}
    (h : readClassEscape u c x = some r) {a : ClassItem} {rest : List Char} (hr : r = some (a, rest)) :
    readClassEscape u c (x ++ anchorTail) = some (some (a, rest ++ anchorTail)) := by
  rw [hr, readClassEscape] at h
  rw [readClassEscape]
  split_ifs at h ⊢
  · exact congrArg some (stable_readUnicode u _ x a rest (Option.some.inj h))
  · exact congrArg some (stable_readUnicode u _ x a rest (Option.some.inj h))
  · obtain ⟨item, hitem, h⟩ := Option.map_eq_some_iff.mp h
    cases h
    rw [hitem]
    rfl

theorem readClassEscape_none {c : Char} {x : List Char} (h : readClassEscape u c x = none) (y : List Char) :
    readClassEscape u c y = none := by
  rw [readClassEscape] at h ⊢
  split_ifs at h ⊢
  rw [Option.map_eq_none_iff] at h ⊢
  exact h

theorem readItem_append {x rest : List Char} {a : ClassItem} (h : readItem u x = some (a, rest))
    (hrest : rest ≠ ['-']) : readItem u (x ++ anchorTail) = some (a, rest ++ anchorTail) := by
  match x with
  | [] => simp [readItem, readRange, readClassChar] at h
  | [c] =>
    have hrange := readRange_append h hrest
    have hc : c ≠ '\\' := by
      rintro rfl
      simp [readItem, readRange, readClassChar, readEscape] at h
    simpa [anchorTail, readItem, hc] using hrange
  | c :: d :: t =>
    rw [readItem] at h
    rw [List.cons_append, List.cons_append, readItem]
    split_ifs at h ⊢
    · rw [cutPair_append _ (by decide)]
      cases hcut : cutPair ':' ']' t with
      | none =>
        rw [hcut] at h
        exact readRange_append h hrest
      | some p =>
        rw [hcut] at h
        obtain ⟨item, hitem, h⟩ := Option.map_eq_some_iff.mp h
        cases h
        simp [hitem]
    · cases he : readClassEscape u d t with
      | none =>
        rw [he] at h
        rw [readClassEscape_none u he]
        exact readRange_append h hrest
      | some r =>
        rw [he] at h
        rw [readClassEscape_append u he h]
    · exact readRange_append h hrest

theorem readItems_nil (first : Bool) : readItems u first [] = none := by
  rw [readItems]
  simp [readItem, readRange, readClassChar]

theorem readItems_minus : readItems u false ['-'] = none := by
  have hitem : readItem u ['-'] = some (.ranges false [(0x2D, 0x2D)], []) := rfl
  rw [readItems, if_neg (by decide)]
  split
  · rfl
  · next item rest h =>
    cases h.symm.trans hitem
    rw [readItems_nil]
    rfl

theorem stable_readItems (first : Bool) : Stable (readItems u first) := by
  intro x a rest h
  have hne : x ≠ [] := by
    rintro rfl
    cases (readItems_nil u first).symm.trans h
  have hhead : (x ++ anchorTail).head? = x.head? := by
    cases x with
    | nil => exact absurd rfl hne
    | cons c t => rfl
  rw [readItems] at h ⊢
  rw [hhead]
  split_ifs at h ⊢
  · cases h
    cases x with
    | nil => exact absurd rfl hne
    | cons c t => rfl
  · split at h
    · cases h
    · next item rest' hitem =>
      obtain ⟨p, hp, h⟩ := Option.map_eq_some_iff.mp h
      cases h
      have hminus : rest' ≠ ['-'] := by
        rintro rfl
        cases (readItems_minus u).symm.trans hp
      have hlt := consumes_readItem u x item rest' hitem
      have hitem' := readItem_append u hitem hminus
      have hrec := stable_readItems false rest' p.1 p.2 hp
      split
      · next hnone => cases hnone.symm.trans hitem'
      · next item' rest'' hsome =>
        cases hsome.symm.trans hitem'
        rw [hrec]
        rfl
termination_by x => x.length

theorem stable_readClass : Stable (readClass u) := by
  intro x a rest h
  rw [readClass] at h
  rw [readClass, expect_append (by decide)]
  cases he : expect '^' x with
  | none =>
    rw [he] at h
    obtain ⟨p, hp, h⟩ := Option.map_eq_some_iff.mp h
    cases h
    simp [stable_readItems u true x p.1 p.2 hp]
  | some t =>
    rw [he] at h
    obtain ⟨p, hp, h⟩ := Option.map_eq_some_iff.mp h
    cases h
    simp [stable_readItems u true t p.1 p.2 hp]

theorem stable_readFlags (on off : List Flag) (neg seen : Bool) : Stable (readFlags on off neg seen) := by
  intro x
  induction x generalizing on off neg seen with
  | nil => simp [readFlags]
  | cons c t ih =>
    intro a rest h
    rw [readFlags] at h
    rw [List.cons_append, readFlags]
    cases hf : flagOf c with
    | some f =>
      rw [hf] at h
      exact ih _ _ _ _ a rest h
    | none =>
      rw [hf] at h
      dsimp only at h ⊢
      split_ifs at h ⊢
      · exact ih _ _ _ _ a rest h
      · cases h
        rfl

theorem stable_readName : Stable readName := by
  intro x a rest h
  obtain ⟨p, hp, h⟩ := Option.bind_eq_some_iff.mp h
  rw [readName, stable_cutAt _ x p.1 p.2 hp, Option.bind_some]
  split_ifs at h with hname
  cases h
  exact if_pos hname

theorem stable_readOpen : Stable readOpen := by
  intro x a rest h
  rw [readOpen] at h
  rw [readOpen, expect_append (by decide)]
  cases he : expect '?' x with
  | none =>
    rw [he] at h
    cases h
    rfl
  | some t =>
    rw [he] at h
    simp only [Option.map_some, expect_append (show '<' ≠ ')' by decide),
      expect_append (show 'P' ≠ ')' by decide)] at h ⊢
    cases hn : expect '<' t with
    | some t' =>
      rw [hn] at h
      exact stable_readName t' a rest h
    | none =>
      rw [hn] at h
      cases hp : expect 'P' t with
      | none =>
        rw [hp] at h
        exact stable_readFlags _ _ _ _ t a rest h
      | some t' =>
        rw [hp] at h
        simp only [Option.map_some, Option.map_none, Option.bind_some,
          expect_append (show '<' ≠ ')' by decide)] at h ⊢
        cases hq : expect '<' t' with
        | none =>
          rw [hq] at h
          exact stable_readFlags _ _ _ _ t a rest h
        | some t'' =>
          rw [hq] at h
          exact stable_readName t'' a rest h

theorem readTimes_append (min : ℕ) (max : Option ℕ) (x : List Char) :
    readTimes min max (x ++ anchorTail) =
      ((readTimes min max x).1, (readTimes min max x).2 ++ anchorTail) := by
  rw [readTimes, readTimes, expect_append (by decide)]
  cases expect '?' x <;> rfl

theorem stable_readBrace : Stable readBrace := by
  intro x a rest h
  rw [readBrace] at h
  rw [readBrace, readBounds_append]
  cases hb : readBounds x with
  | none =>
    rw [hb] at h
    cases h
    rfl
  | some p =>
    rw [hb] at h
    dsimp only [Option.map_some] at h ⊢
    split_ifs at h ⊢
    rw [readTimes_append, Option.some.inj h]

/-- What is read of a pattern when the closing anchor follows it: the same, unless it is a quotation
without an end, which takes the anchor in. -/
def Extends (p q : Token × List Char) : Prop :=
  q = (p.1, p.2 ++ anchorTail) ∨
    ∃ cs, p = (.quoted cs false, []) ∧ q = (.quoted (cs ++ anchorTail) false, [])

theorem readQuoted_append (x : List Char) : Extends (readQuoted x) (readQuoted (x ++ anchorTail)) := by
  rw [readQuoted, readQuoted, cutPair_append _ (by decide)]
  cases cutPair '\\' 'E' x with
  | some p => exact .inl rfl
  | none => exact .inr ⟨x, rfl, rfl⟩

theorem readBackslash_append {x : List Char} {p : Token × List Char} (h : readBackslash u x = some p) :
    ∃ q, readBackslash u (x ++ anchorTail) = some q ∧ Extends p q := by
  cases x with
  | nil => simp [readBackslash] at h
  | cons c t =>
    simp only [List.cons_append, readBackslash] at h ⊢
    cases hassert : assertion c with
    | some tok =>
      rw [hassert] at h
      cases h
      exact ⟨_, rfl, .inl rfl⟩
    | none =>
      rw [hassert] at h
      dsimp only at h ⊢
      split_ifs at h ⊢
      · rw [← Option.some.inj h]
        exact ⟨_, rfl, readQuoted_append t⟩
      · cases he : readClassEscape u c t with
        | some r =>
          rw [he] at h
          obtain ⟨p, hp, h⟩ := Option.map_eq_some_iff.mp h
          cases h
          rw [readClassEscape_append u he hp]
          exact ⟨_, rfl, .inl rfl⟩
        | none =>
          rw [he] at h
          obtain ⟨p, hp, h⟩ := Option.map_eq_some_iff.mp h
          cases h
          rw [readClassEscape_none u he, ← List.cons_append]
          dsimp only
          rw [stable_readEscape _ p.1 p.2 hp]
          exact ⟨_, rfl, .inl rfl⟩

theorem lex_append {x : List Char} {p : Token × List Char} (h : lex u x = some p) :
    ∃ q, lex u (x ++ anchorTail) = some q ∧ Extends p q := by
  cases x with
  | nil => simp [lex] at h
  | cons c t =>
    simp only [List.cons_append, lex] at h ⊢
    cases hop : operator c with
    | some tok =>
      rw [hop] at h
      cases h
      exact ⟨_, rfl, .inl rfl⟩
    | none =>
      rw [hop] at h
      cases hrep : repetition c with
      | some m =>
        rw [hrep] at h
        dsimp only at h ⊢
        rw [readTimes_append, Option.some.inj h]
        exact ⟨_, rfl, .inl rfl⟩
      | none =>
        rw [hrep] at h
        dsimp only at h ⊢
        split_ifs at h ⊢
        · exact ⟨_, stable_readOpen t p.1 p.2 h, .inl rfl⟩
        · obtain ⟨p, hp, h⟩ := Option.map_eq_some_iff.mp h
          cases h
          rw [stable_readClass u t p.1 p.2 hp]
          exact ⟨_, rfl, .inl rfl⟩
        · exact ⟨_, stable_readBrace t p.1 p.2 h, .inl rfl⟩
        · exact readBackslash_append u h
        · cases h
          exact ⟨_, rfl, .inl rfl⟩

theorem lexAll_nil : lexAll u [] = some [] := by
  rw [lexAll, if_pos rfl]

theorem lexAll_of_lex {x rest : List Char} {tok : Token} (h : lex u x = some (tok, rest)) :
    lexAll u x = (lexAll u rest).map (tok :: ·) := by
  have hne : x ≠ [] := by
    rintro rfl
    cases h
  rw [lexAll, if_neg hne]
  split
  · next hnone => cases hnone.symm.trans h
  · next tok' rest' hsome =>
    cases hsome.symm.trans h
    rfl

theorem lexAll_anchorTail : lexAll u anchorTail = some [.close, .dollar] := by
  have hclose : lex u anchorTail = some (.close, ['$']) := rfl
  have hdollar : lex u ['$'] = some (.dollar, []) := rfl
  rw [lexAll_of_lex u hclose, lexAll_of_lex u hdollar, lexAll_nil]
  rfl

/-- The tokens of a pattern that the closing anchor follows. -/
theorem lexAll_append {x : List Char} {toks : List Token} (h : lexAll u x = some toks) :
    lexAll u (x ++ anchorTail) = some (toks ++ [.close, .dollar]) ∨
      ∃ pre cs, toks = pre ++ [.quoted cs false] ∧
        lexAll u (x ++ anchorTail) = some (pre ++ [.quoted (cs ++ anchorTail) false]) := by
  induction hn : x.length using Nat.strong_induction_on generalizing x toks with
  | _ n ih =>
    by_cases hx : x = []
    · subst hx
      rw [lexAll_nil] at h
      cases h
      exact .inl (lexAll_anchorTail u)
    · cases hlex : lex u x with
      | none =>
        rw [lexAll, if_neg hx] at h
        split at h
        · cases h
        · next hsome => cases hsome.symm.trans hlex
      | some p =>
        obtain ⟨tok, rest⟩ := p
        rw [lexAll_of_lex u hlex] at h
        obtain ⟨toks', hrest, rfl⟩ := Option.map_eq_some_iff.mp h
        obtain ⟨q, hq, rfl | ⟨cs, hp, rfl⟩⟩ := lex_append u hlex
        · rw [lexAll_of_lex u hq]
          obtain hall | ⟨pre, cs, rfl, hall⟩ := ih rest.length (hn ▸ consumes_lex u x tok rest hlex) hrest rfl
          · exact .inl (by rw [hall]; rfl)
          · exact .inr ⟨tok :: pre, cs, rfl, by rw [hall]; rfl⟩
        · cases hp
          rw [lexAll_nil] at hrest
          cases hrest
          exact .inr ⟨[], cs, rfl, by rw [lexAll_of_lex u hq, lexAll_nil]; rfl⟩

end Stable

section Anchored

variable {u : Unicode}

theorem lexAll_anchor (x : List Char) :
    lexAll u (anchor x) = (lexAll u (x ++ anchorTail)).map ([.caret, .flags [] [] true] ++ ·) := by
  have hcaret : lex u (anchor x) = some (.caret, '(' :: '?' :: ':' :: (x ++ anchorTail)) := rfl
  have hopen : lex u ('(' :: '?' :: ':' :: (x ++ anchorTail)) = some (.flags [] [] true, x ++ anchorTail) :=
    rfl
  rw [lexAll_of_lex u hcaret, lexAll_of_lex u hopen, Option.map_map]
  rfl

/-- What the pattern is read into, inside the group that the anchors open. -/
def anchorBase : List Frame := [{ concat := [.beginText] }]

theorem run_anchor (toks : List Token) :
    State.run {} ([.caret, .flags [] [] true] ++ toks) = (State.within {} anchorBase).run toks := rfl

theorem quoted_below {s s' : State} {cs : List Char} {closed : Bool}
    (h : s.step (.quoted cs closed) = some s') :
    s'.below = s.below := by
  cases h
  dsimp only
  induction cs generalizing s with
  | nil => rfl
  | cons c cs ih => exact ih (s := s.push _)

/-- The anchored pattern, where both it and the pattern itself can be read, is the pattern between the
anchors. -/
theorem parse_anchor {x : List Char} {own whole : Node} (hown : parse u x = some own)
    (hwhole : parse u (anchor x) = some whole) :
    whole = .cat .beginText (.cat own (.cat .endText .empty)) := by
  obtain ⟨toks, htoks, hown⟩ := Option.bind_eq_some_iff.mp hown
  obtain ⟨s, hrun, hown⟩ := Option.bind_eq_some_iff.mp hown
  obtain ⟨hbelow, hnode⟩ := Option.ite_none_right_eq_some.mp hown
  rw [parse, lexAll_anchor] at hwhole
  obtain htail | ⟨pre, cs, rfl, htail⟩ := lexAll_append u htoks
  · rw [htail, Option.map_some, Option.bind_some, run_anchor, run_append, run_within hrun,
      Option.bind_some] at hwhole
    obtain ⟨⟨name, saved, alternatives, concat⟩, below, flags, afterTimes⟩ := s
    cases hbelow
    cases hnode
    obtain ⟨rfl, rfl⟩ := Prod.mk.inj (Option.some.inj (run_root hrun))
    exact (Option.some.inj hwhole).symm
  · -- The quotation takes the closing anchor in, and the group stays open.
    rw [htail, Option.map_some, Option.bind_some, run_anchor, run_append] at hwhole
    rw [run_append] at hrun
    obtain ⟨s₁, hpre, hquote⟩ := Option.bind_eq_some_iff.mp hrun
    rw [run_within hpre, Option.bind_some, run_singleton] at hwhole
    obtain ⟨s₂, hstep, hfinish⟩ := Option.bind_eq_some_iff.mp hwhole
    obtain ⟨hopen, -⟩ := Option.ite_none_right_eq_some.mp hfinish
    rw [quoted_below hstep] at hopen
    exact absurd hopen (List.append_ne_nil_of_right_ne_nil _ (List.cons_ne_nil _ _))

end Anchored

end OtlpCollectorOidc.Regexp

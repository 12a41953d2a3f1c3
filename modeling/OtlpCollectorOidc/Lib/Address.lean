import OtlpCollectorOidc.Lib.Url

namespace OtlpCollectorOidc.Url

open Text

variable {several : Bytes → Bool}

section Unescape

theorem unescape_cons {mode : Mode} {c : UInt8} (hc : c ≠ 0x25) (bs : Bytes) :
    unescape mode (c :: bs) = if plainAllowed mode c then (unescape mode bs).map (c :: ·) else none := by
  rw [unescape]
  · simp [hc]
  · simp [hc]

theorem unescape_escape (mode : Mode) (a b : UInt8) (bs : Bytes) :
    unescape mode (0x25 :: a :: b :: bs) = (unhex a).bind (fun x ↦ (unhex b).bind (fun y ↦
      if escapeAllowed mode a b (16 * x + y) then (unescape mode bs).map (UInt8.ofNat (16 * x + y) :: ·)
      else none)) := by
  rw [unescape]
  rfl

/-- A byte that is no hexadecimal digit stands in no escape, so what precedes it is decoded on its own. -/
theorem unescape_append {mode : Mode} {c : UInt8} (hc : unhex c = none) (xs ys : Bytes) :
    unescape mode (xs ++ c :: ys) =
      (unescape mode xs).bind (fun a ↦ (unescape mode (c :: ys)).map (a ++ ·)) := by
  induction hn : xs.length using Nat.strong_induction_on generalizing xs with
  | _ n ih =>
    rcases xs with _ | ⟨d, xs⟩
    · simp [unescape]
    · by_cases hd : d = 0x25
      · subst hd
        rcases xs with _ | ⟨a, _ | ⟨b, xs⟩⟩
        · have hnone : unescape mode [0x25] = none := by
            rw [unescape]
            · simp
            · simp
          rw [hnone]
          cases ys with
          | nil =>
            rw [List.singleton_append, unescape]
            · simp
            · simp
          | cons y ys => rw [List.singleton_append, unescape_escape, hc]; rfl
        · have hnone : unescape mode [0x25, a] = none := by
            rw [unescape]
            · simp
            · simp
          rw [hnone]
          change unescape mode (0x25 :: a :: c :: ys) = none
          rw [unescape_escape, hc]
          cases unhex a <;> rfl
        · have ih := ih xs.length (by simp only [← hn, List.length_cons]; omega) xs rfl
          change unescape mode (0x25 :: a :: b :: (xs ++ c :: ys)) = _
          rw [unescape_escape, unescape_escape, ih]
          cases unhex a with
          | none => rfl
          | some x =>
            cases unhex b with
            | none => rfl
            | some y =>
              simp only [Option.bind_some]
              split_ifs
              · cases unescape mode xs <;> cases unescape mode (c :: ys) <;> rfl
              · rfl
      · have ih := ih xs.length (by simp [← hn]) xs rfl
        rw [List.cons_append, unescape_cons hd, unescape_cons hd, ih]
        split_ifs
        · cases unescape mode xs <;> cases unescape mode (c :: ys) <;> rfl
        · rfl

/-- What is decoded is plain bytes and whole escapes, one after the other. -/
theorem unescape_induction {mode : Mode} {P : Bytes → Bytes → Prop} (nil : P [] [])
    (plain : ∀ c bs decoded, unescape mode bs = some decoded → P bs decoded → P (c :: bs) (c :: decoded))
    (escape : ∀ a b x y bs decoded, unhex a = some x → unhex b = some y → unescape mode bs = some decoded →
      P bs decoded → P (0x25 :: a :: b :: bs) (UInt8.ofNat (16 * x + y) :: decoded))
    {bs decoded : Bytes} (h : unescape mode bs = some decoded) : P bs decoded := by
  induction hn : bs.length using Nat.strong_induction_on generalizing bs decoded with
  | _ n ih =>
    match bs with
    | [] =>
      cases h
      exact nil
    | c :: bs =>
      by_cases hc : c = 0x25
      · subst hc
        match bs with
        | [] | [_] =>
          rw [unescape] at h
          · simp at h
          · simp
        | a :: b :: bs =>
          rw [unescape_escape] at h
          simp only [Option.bind_eq_some_iff] at h
          obtain ⟨x, hx, y, hy, h⟩ := h
          split_ifs at h
          obtain ⟨rest, hrest, rfl⟩ := Option.map_eq_some_iff.mp h
          simp only [List.length_cons] at hn
          exact escape a b x y bs rest hx hy hrest (ih bs.length (by omega) hrest rfl)
      · rw [unescape_cons hc] at h
        split_ifs at h
        obtain ⟨rest, hrest, rfl⟩ := Option.map_eq_some_iff.mp h
        exact plain c bs rest hrest (ih bs.length (by simp [← hn]) hrest rfl)

theorem unescape_eq_nil {mode : Mode} {bs : Bytes} (h : unescape mode bs = some []) : bs = [] := by
  have hnil : ∀ decoded, unescape mode bs = some decoded → decoded = [] → bs = [] := by
    intro decoded h
    refine unescape_induction (P := fun bs decoded ↦ decoded = [] → bs = []) (fun _ ↦ rfl) ?_ ?_ h
    · rintro c bs decoded _ _ ⟨⟩
    · rintro a b x y bs decoded _ _ _ _ ⟨⟩
  exact hnil [] h rfl

end Unescape

/-- An address that has an authority, in its parts as they are written. -/
structure Address where
  scheme : Bytes
  authority : Bytes
  path : Bytes := []
  query : Option Bytes := none
  fragment : Option Bytes := none

/-- A part after its delimiter, or nothing. -/
def led (c : UInt8) (part : Option Bytes) : Bytes := (part.map (c :: ·)).getD []

namespace Address

def bare (a : Address) : Bytes :=
  a.scheme ++ 0x3A :: 0x2F :: 0x2F :: (a.authority ++ (a.path ++ led 0x3F a.query))

def text (a : Address) : Bytes := a.bare ++ led 0x23 a.fragment

/-- The delimiters stand only where they delimit. -/
structure Valid (a : Address) : Prop where
  scheme : IsScheme a.scheme
  authority : ∀ c ∈ a.authority, c ≠ 0x2F ∧ c ≠ 0x3F ∧ c ≠ 0x23
  path : ∀ c ∈ a.path, c ≠ 0x3F ∧ c ≠ 0x23
  slash : ∀ c ∈ a.path.head?, c = 0x2F
  query : ∀ q ∈ a.query, 0x23 ∉ q

def read (several : Bytes → Bool) (a : Address) : Option URL := do
  let host ← parseAuthority (several (toLower a.scheme)) a.authority
  let path ← unescape .path a.path
  let fragment ← unescape .fragment (a.fragment.getD [])
  some { scheme := toLower a.scheme, host := host, path := path, rawQuery := a.query.getD [],
         fragment := fragment }

end Address

section Split

theorem cut_eq_none {sep : UInt8} {bs : Bytes} (h : sep ∉ bs) : cut sep bs = none := by
  cases hc : cut sep bs with
  | none => rfl
  | some p =>
    obtain ⟨hsplit, _⟩ := cut_eq_some hc
    exact absurd (hsplit ▸ List.mem_append_right p.1 List.mem_cons_self) h

theorem cutLast_eq_none {sep : UInt8} {bs : Bytes} (h : sep ∉ bs) : cutLast sep bs = none := by
  rw [cutLast, cut_eq_none (by simpa using h)]
  rfl

theorem cut_led {sep : UInt8} {bs : Bytes} (h : sep ∉ bs) (part : Option Bytes) :
    (cut sep (bs ++ led sep part)).getD (bs ++ led sep part, []) = (bs, part.getD []) := by
  cases part with
  | none => simp [led, cut_eq_none h]
  | some p => simp [led, cut_append h]

/-- Any text is a stretch without the delimiter, and what the delimiter leads if it is there. -/
theorem exists_led (sep : UInt8) (bs : Bytes) :
    ∃ before part, bs = before ++ led sep part ∧ sep ∉ before := by
  by_cases h : sep ∈ bs
  · obtain ⟨before, after, hsplit, hbefore⟩ := List.eq_append_cons_of_mem h
    exact ⟨before, some after, hsplit, hbefore⟩
  · exact ⟨bs, none, (List.append_nil bs).symm, h⟩

theorem span_slash {auth path : Bytes} (hauth : 0x2F ∉ auth) (hpath : ∀ c ∈ path.head?, c = 0x2F) :
    (auth ++ path).span (· ≠ 0x2F) = (auth, path) := by
  have hne : ∀ c ∈ auth, decide (c ≠ 0x2F) = true := fun c hc ↦ decide_eq_true (fun he ↦ hauth (he ▸ hc))
  rw [List.span_eq_takeWhile_dropWhile, List.takeWhile_append_of_pos hne, List.dropWhile_append_of_pos hne]
  cases path with
  | nil => simp
  | cons c path =>
    rw [hpath c rfl]
    simp

end Split

namespace Address

variable {a : Address}

theorem Valid.notMem_scheme (h : a.Valid) {c : UInt8} (hc : schemeByte c = false) : c ∉ a.scheme :=
  fun hmem ↦ Bool.false_ne_true (hc.symm.trans (h.scheme.bytes c hmem))

theorem Valid.noFragment (h : a.Valid) : 0x23 ∉ a.bare := by
  have hauthority : 0x23 ∉ a.authority := fun hmem ↦ (h.authority _ hmem).2.2 rfl
  have hpath : 0x23 ∉ a.path := fun hmem ↦ (h.path _ hmem).2 rfl
  have hquery : 0x23 ∉ led 0x3F a.query := by
    cases hq : a.query with
    | none => simp [led]
    | some q => simpa [led] using h.query q hq
  simp [bare, h.notMem_scheme (c := 0x23) (by decide), hauthority, hpath, hquery]

theorem Valid.noQuery (h : a.Valid) : 0x3F ∉ 0x2F :: 0x2F :: (a.authority ++ a.path) := by
  have hauthority : 0x3F ∉ a.authority := fun hmem ↦ (h.authority _ hmem).2.1 rfl
  have hpath : 0x3F ∉ a.path := fun hmem ↦ (h.path _ hmem).1 rfl
  simp [hauthority, hpath]

/-- An address put together from valid parts is parsed into them. -/
theorem parse_text (h : a.Valid) :
    parseWith several a.text = if a.bare.any (fun c ↦ c < 0x20 || c = 0x7F) then none
      else a.read several := by
  obtain ⟨c, cs, hscheme, _⟩ := h.scheme.letter
  have hlower : toLower a.scheme ≠ [] := by
    rw [hscheme]
    exact List.cons_ne_nil _ _
  have hstar : a.bare ≠ [0x2A] := by
    intro hbare
    have hmem : 0x3A ∈ a.bare := List.mem_append_right _ List.mem_cons_self
    rw [hbare] at hmem
    exact absurd hmem (by decide)
  have hrest : a.bare = a.scheme ++
      0x3A :: (0x2F :: 0x2F :: (a.authority ++ a.path) ++ led 0x3F a.query) := by
    simp [bare]
  have hslash : 0x2F ∉ a.authority := fun hmem ↦ (h.authority _ hmem).1 rfl
  unfold parseWith text
  simp only [cut_led h.noFragment, hstar, if_false]
  split_ifs with hctl
  · rfl
  · rw [hrest, getScheme_append h.scheme]
    simp only [Option.bind_eq_bind, Option.bind_some, cut_led h.noQuery]
    have hhierarchy : parseHierarchy several (toLower a.scheme) (0x2F :: 0x2F :: (a.authority ++ a.path)) =
        (parseAuthority (several (toLower a.scheme)) a.authority).bind
            (fun host ↦ (unescape .path a.path).map (fun path ↦
          { scheme := toLower a.scheme, host := host, path := path })) := by
      rw [parseHierarchy, if_neg (by simp [hlower]), span_slash hslash h.slash]
      dsimp only
      cases parseAuthority (several (toLower a.scheme)) a.authority <;> cases unescape .path a.path <;> rfl
    rw [List.head?_cons, read]
    simp only [if_true]
    change (unescape .fragment (a.fragment.getD [])).bind (fun fragment ↦
      (parseHierarchy several (toLower a.scheme) (0x2F :: 0x2F :: (a.authority ++ a.path))).map (fun u ↦
        { u with rawQuery := a.query.getD [], fragment := fragment })) = _
    rw [hhierarchy]
    cases parseAuthority (several (toLower a.scheme)) a.authority <;> cases unescape .path a.path <;>
      cases unescape .fragment (a.fragment.getD []) <;> rfl

theorem read_eq_some {v : URL} (h : a.read several = some v) :
    parseAuthority (several (toLower a.scheme)) a.authority = some v.host ∧
      unescape .path a.path = some v.path ∧ unescape .fragment (a.fragment.getD []) = some v.fragment ∧
        v.scheme = toLower a.scheme ∧
      v.rawQuery = a.query.getD [] := by
  simp only [read, Option.bind_eq_bind, Option.bind_eq_some_iff] at h
  obtain ⟨host, hhost, path, hpath, fragment, hfragment, h⟩ := h
  cases h
  exact ⟨hhost, hpath, hfragment, rfl, rfl⟩

theorem authority_text (h : a.Valid) : Url.authority a.text = a.authority := by
  obtain ⟨c, cs, hscheme, _⟩ := h.scheme.letter
  have hne : a.scheme ≠ [] := by
    rw [hscheme]
    exact List.cons_ne_nil _ _
  have hrest : a.bare = a.scheme ++
      0x3A :: (0x2F :: 0x2F :: (a.authority ++ a.path) ++ led 0x3F a.query) := by
    simp [bare]
  have hslash : 0x2F ∉ a.authority := fun hmem ↦ (h.authority _ hmem).1 rfl
  have hspan := span_slash hslash h.slash
  rw [List.span_eq_takeWhile_dropWhile] at hspan
  unfold Url.authority text
  rw [cut_led h.noFragment]
  dsimp only
  rw [hrest, getScheme_append h.scheme]
  dsimp only
  rw [cut_led h.noQuery]
  change (if (decide (a.scheme = []) && decide ((a.authority ++ a.path).head? = some 0x2F)) = true then []
    else (a.authority ++ a.path).takeWhile (fun c ↦ decide (c ≠ 0x2F))) = a.authority
  rw [if_neg (by simp [hne])]
  exact congrArg Prod.fst hspan

end Address

/-- Whatever follows the slashes of an address falls into the parts of one, alike for every scheme and every
beginning of the authority. -/
theorem exists_parts (rest : Bytes) : ∃ tail path query fragment, ∀ s front, IsScheme s →
    (∀ c ∈ front, c ≠ 0x2F ∧ c ≠ 0x3F ∧ c ≠ 0x23) →
    Address.Valid ⟨s, front ++ tail, path, query, fragment⟩ ∧
      s ++ 0x3A :: 0x2F :: 0x2F :: (front ++ rest) =
        Address.text ⟨s, front ++ tail, path, query, fragment⟩ := by
  obtain ⟨before, fragment, rfl, hfragment⟩ := exists_led 0x23 rest
  obtain ⟨hier, query, rfl, hquery⟩ := exists_led 0x3F before
  obtain ⟨tail, path, rfl, hslash⟩ := exists_led 0x2F hier
  rw [List.mem_append, not_or] at hfragment
  have hmem {c : UInt8} (hc : c ∈ tail ++ led 0x2F path) : c ≠ 0x3F ∧ c ≠ 0x23 :=
    ⟨fun he ↦ hquery (he ▸ hc), fun he ↦ hfragment.1 (he ▸ hc)⟩
  refine ⟨tail, led 0x2F path, query, fragment, ?_⟩
  intro s front hs hfront
  refine ⟨⟨hs, ?_, ?_, ?_, ?_⟩, by simp [Address.text, Address.bare]⟩
  · intro c hc
    rcases List.mem_append.mp hc with hc | hc
    · exact hfront c hc
    · exact ⟨fun he ↦ hslash (he ▸ hc), hmem (List.mem_append_left _ hc)⟩
  · intro c hc
    exact hmem (List.mem_append_right _ hc)
  · intro c hc
    cases path with
    | none => cases hc
    | some path => exact (Option.some.inj hc).symm
  · rintro q rfl hq
    exact hfragment.2 (List.mem_cons_of_mem _ hq)

theorem host_parseHierarchy {scheme rest : Bytes} {u : URL} (h : parseHierarchy several scheme rest = some u)
    (hhost : u.host ≠ []) : ∃ after, rest = 0x2F :: 0x2F :: after := by
  unfold parseHierarchy at h
  split at h
  · exact ⟨_, rfl⟩
  · obtain ⟨p, _, rfl⟩ := Option.map_eq_some_iff.mp h
    exact absurd rfl hhost

/-- An address with a host has a scheme and slashes before it. -/
theorem slashes_of_parse {raw : Bytes} {u : URL} (h : parseWith several raw = some u)
    (hscheme : u.scheme ≠ []) (hhost : u.host ≠ []) :
    ∃ s after, IsScheme s ∧ raw = s ++ 0x3A :: 0x2F :: 0x2F :: after := by
  obtain ⟨s, rest, hs, rfl, _⟩ := scheme_of_parse h hscheme
  obtain ⟨before, fragment, rfl, hfragment⟩ := exists_led 0x23 rest
  obtain ⟨hier, query, rfl, hquery⟩ := exists_led 0x3F before
  have hnoFragment : 0x23 ∉ s ++ 0x3A :: (hier ++ led 0x3F query) := by
    have hnot : 0x23 ∉ s := fun hmem ↦ absurd (hs.bytes _ hmem) (by decide)
    rw [List.mem_append, List.mem_cons, not_or, not_or]
    exact ⟨hnot, by decide, hfragment⟩
  obtain ⟨after, hafter⟩ : ∃ after, hier = 0x2F :: 0x2F :: after := by
    have hassoc : s ++ 0x3A :: (hier ++ led 0x3F query ++ led 0x23 fragment) =
        s ++ 0x3A :: (hier ++ led 0x3F query) ++ led 0x23 fragment := by simp
    unfold parseWith at h
    rw [hassoc, cut_led hnoFragment] at h
    dsimp only at h
    split_ifs at h
    · obtain ⟨_, _, rfl⟩ := Option.map_eq_some_iff.mp h
      exact absurd rfl hhost
    · rw [getScheme_append hs] at h
      simp only [Option.bind_eq_bind, Option.bind_some, Option.bind_eq_some_iff, cut_led hquery] at h
      obtain ⟨f, _, h⟩ := h
      split_ifs at h
      · obtain ⟨v, hv, rfl⟩ := Option.map_eq_some_iff.mp h
        exact host_parseHierarchy hv hhost
      · cases h
        exact absurd rfl hhost
      · obtain ⟨_, _, rfl⟩ := Option.map_eq_some_iff.mp h
        exact absurd rfl hhost
  exact ⟨s, after ++ led 0x3F query ++ led 0x23 fragment, hs, by rw [hafter]; simp⟩

section Colons

/-- Where one colon is enough, several do no harm. -/
theorem parseHost_several {host decoded : Bytes} (h : parseHost false host = some decoded) :
    parseHost true host = some decoded := by
  unfold parseHost at h ⊢
  split at h
  · exact h
  · cases h
  · simp only [Bool.false_eq_true, if_false, if_true] at h ⊢
    cases hcut : cut 0x3A host with
    | none =>
      have hcolon : 0x3A ∉ host := by
        intro hmem
        obtain ⟨before, after, rfl, hbefore⟩ := List.eq_append_cons_of_mem hmem
        rw [cut_append hbefore] at hcut
        cases hcut
      rw [hcut] at h
      rw [cutLast_eq_none hcolon]
      exact h
    | some p =>
      obtain ⟨before, port⟩ := p
      rw [hcut] at h
      dsimp only at h
      split_ifs at h with hdigits
      have hcolon : 0x3A ∉ port := fun hmem ↦ absurd (List.all_eq_true.mp hdigits _ hmem) (by decide)
      rw [(cut_eq_some hcut).1, cutLast_append before hcolon]
      dsimp only
      rw [if_pos hdigits, ← (cut_eq_some hcut).1]
      exact h

theorem parseAuthority_several {authority host : Bytes} (h : parseAuthority false authority = some host) :
    parseAuthority true authority = some host := by
  unfold parseAuthority at h ⊢
  split at h
  · exact parseHost_several h
  · rename_i userinfo text _
    obtain ⟨decoded, hdecoded, h⟩ := Option.bind_eq_some_iff.mp h
    rw [parseHost_several hdecoded]
    exact h

/-- The rule on colons enters an address by its authority only. -/
theorem parseWith_imp {other : Bytes → Bool} {raw : Bytes} {u : URL}
    (hother : ∀ scheme rest v, v.scheme = u.scheme → parseHierarchy several scheme rest = some v →
      parseHierarchy other scheme rest = some v) (h : parseWith several raw = some u) :
    parseWith other raw = some u := by
  unfold parseWith at h ⊢
  dsimp only at h ⊢
  split_ifs at h ⊢
  · exact h
  · obtain ⟨⟨scheme, rest⟩, hscheme, h⟩ := Option.bind_eq_some_iff.mp h
    obtain ⟨fragment, hfragment, h⟩ := Option.bind_eq_some_iff.mp h
    refine Option.bind_eq_some_iff.mpr ⟨_, hscheme, Option.bind_eq_some_iff.mpr ⟨_, hfragment, ?_⟩⟩
    dsimp only at h ⊢
    split_ifs at h ⊢
    · obtain ⟨v, hv, rfl⟩ := Option.map_eq_some_iff.mp h
      rw [hother _ _ v rfl hv]
      rfl
    · exact h
    · exact h

/-- An address that is read by the strict rule is read alike by any other. -/
theorem parseWith_of_parse {raw : Bytes} {u : URL} (h : parse raw = some u) :
    parseWith several raw = some u := by
  refine parseWith_imp ?_ h
  intro scheme rest v _ hv
  unfold parseHierarchy at hv ⊢
  split at hv
  · rename_i after
    dsimp only at hv ⊢
    split_ifs at hv ⊢
    · exact hv
    · obtain ⟨host, hhost, hv⟩ := Option.bind_eq_some_iff.mp hv
      refine Option.bind_eq_some_iff.mpr ⟨host, ?_, hv⟩
      cases several scheme with
      | false => exact hhost
      | true => exact parseAuthority_several hhost
  · exact hv

/-- By whichever rule an address is read, its scheme may ask for the strict one. -/
theorem parse_of_parseWith {raw : Bytes} {u : URL} (h : parseWith several raw = some u)
    (hu : several u.scheme = false) :
    parse raw = some u := by
  refine parseWith_imp ?_ h
  intro scheme rest v hscheme hv
  unfold parseHierarchy at hv ⊢
  split at hv
  · rename_i after
    dsimp only at hv ⊢
    split_ifs at hv ⊢
    · exact hv
    · obtain ⟨host, hhost, hv⟩ := Option.bind_eq_some_iff.mp hv
      refine Option.bind_eq_some_iff.mpr ⟨host, ?_, hv⟩
      obtain ⟨path, _, hv⟩ := Option.bind_eq_some_iff.mp hv
      obtain rfl := Option.some.inj hv
      rw [← hscheme] at hu
      rwa [hu] at hhost
  · exact hv

end Colons

end OtlpCollectorOidc.Url

import OtlpCollectorOidc.Lib.Address

namespace OtlpCollectorOidc.Url

open Text

variable {several : Bytes → Bool}

section Text

/-- The bytes an encoding leaves as they are. -/
def keeps (mode : Mode) (c : UInt8) : Bool :=
  match mode with
  | .host | .zone => hostAllows c
  | .path => unreserved c || c ∈ ofString "$&+,/:;=@"
  | .userPassword => unreserved c || c ∈ ofString "$&+,;="
  | .fragment => unreserved c || c ∈ ofString "$&+,/:;=?@!()*"

def escape (mode : Mode) (bs : Bytes) : Bytes := percentEncode (keeps mode) bs

def validEncoded (mode : Mode) (bs : Bytes) : Bool :=
  bs.all (fun c ↦ c ∈ ofString "!$&'()*+,;=:@[]%" || keeps mode c)

/-- A part as it was written where that is a valid encoding, or encoded anew. -/
def escaped (mode : Mode) (written : Bytes) : Bytes :=
  if validEncoded mode written then written else escape mode ((unescape mode written).getD [])

def redactedUser (userinfo : Bytes) : Bytes :=
  match cut 0x3A userinfo with
  | some (username, _) =>
    escape .userPassword ((unescape .userPassword username).getD []) ++ ofString ":xxxxx"
  | none => escape .userPassword ((unescape .userPassword userinfo).getD [])

/-- `URL.Redacted`, of an address with user information. -/
def Address.redacted (several : Bytes → Bool) (a : Address) : Bytes :=
  let (userinfo, host) := (cutLast 0x40 a.authority).getD ([], a.authority)
  toLower a.scheme ++ ofString "://" ++ redactedUser userinfo ++ ofString "@" ++
    escape .host ((parseHost (several (toLower a.scheme)) host).getD []) ++ escaped .path a.path ++
      led 0x3F a.query ++
    (if a.fragment.getD [] = [] then [] else 0x23 :: escaped .fragment (a.fragment.getD []))

def address (raw : Bytes) : Address :=
  let before := ((cut 0x23 raw).getD (raw, [])).1
  let (scheme, rest) := (getScheme before).getD ([], before)
  let after := ((cut 0x3F rest).getD (rest, [])).1.drop 2
  { scheme := scheme
    authority := after.takeWhile (· ≠ 0x2F)
    path := after.dropWhile (· ≠ 0x2F)
    query := (cut 0x3F rest).map Prod.snd
    fragment := (cut 0x23 raw).map Prod.snd }

def redactedText (several : Bytes → Bool) (raw : Bytes) : Bytes := (address raw).redacted several

end Text

theorem map_cut_led {sep : UInt8} {bs : Bytes} (h : sep ∉ bs) (part : Option Bytes) :
    (cut sep (bs ++ led sep part)).map Prod.snd = part := by
  cases part with
  | none => simp [led, cut_eq_none h]
  | some p => simp [led, cut_append h]

theorem Address.address_text {a : Address} (h : a.Valid) : address a.text = a := by
  have hrest : a.bare = a.scheme ++
      0x3A :: (0x2F :: 0x2F :: (a.authority ++ a.path) ++ led 0x3F a.query) := by
    simp [bare]
  have hslash : 0x2F ∉ a.authority := fun hmem ↦ (h.authority _ hmem).1 rfl
  have hspan := span_slash hslash h.slash
  rw [List.span_eq_takeWhile_dropWhile, Prod.mk.injEq] at hspan
  unfold address text
  rw [cut_led h.noFragment, map_cut_led h.noFragment]
  dsimp only
  rw [hrest, getScheme_append h.scheme]
  dsimp only [Option.getD_some]
  rw [cut_led h.noQuery, map_cut_led h.noQuery]
  change Address.mk a.scheme ((a.authority ++ a.path).takeWhile _)
    ((a.authority ++ a.path).dropWhile _) a.query
    a.fragment = a
  rw [hspan.1, hspan.2]

section Scheme

theorem getScheme_nil {raw rest : Bytes} (h : getScheme raw = some ([], rest)) : rest = raw := by
  unfold getScheme at h
  split at h
  · cases h
  · split_ifs at h
    · cases h
    · exact (Prod.mk.inj (Option.some.inj h)).2.symm
  · exact (Prod.mk.inj (Option.some.inj h)).2.symm

/-- What parses begins with a scheme, where a colon stands before any other delimiter. -/
theorem isScheme_of_parse {s w : Bytes} (hs : ∀ c ∈ s, c ≠ 0x3A ∧ c ≠ 0x2F ∧ c ≠ 0x3F ∧ c ≠ 0x23) {u : URL}
    (h : parseWith several (s ++ 0x3A :: w) = some u) : IsScheme s := by
  have hcolon : 0x3A ∉ s := fun hmem ↦ (hs _ hmem).1 rfl
  have hquestion : 0x3F ∉ s := fun hmem ↦ (hs _ hmem).2.2.1 rfl
  have hhash : 0x23 ∉ s := fun hmem ↦ (hs _ hmem).2.2.2 rfl
  obtain ⟨before, fragment, rfl, hbefore⟩ := exists_led 0x23 w
  obtain ⟨hier, query, rfl, hhier⟩ := exists_led 0x3F before
  have hassoc : s ++ 0x3A :: (hier ++ led 0x3F query ++ led 0x23 fragment) =
      s ++ 0x3A :: (hier ++ led 0x3F query) ++ led 0x23 fragment := by simp
  have hassoc' : s ++ 0x3A :: (hier ++ led 0x3F query) = s ++ 0x3A :: hier ++ led 0x3F query := by simp
  have hno : 0x23 ∉ s ++ 0x3A :: (hier ++ led 0x3F query) := by simpa [hhash] using hbefore
  have hno' : 0x3F ∉ s ++ 0x3A :: hier := by simpa [hquestion] using hhier
  have hstar : s ++ 0x3A :: (hier ++ led 0x3F query) ≠ [0x2A] := by
    intro hstar
    have hmem : 0x3A ∈ s ++ 0x3A :: (hier ++ led 0x3F query) := List.mem_append_right _ List.mem_cons_self
    rw [hstar] at hmem
    exact absurd hmem (by decide)
  unfold parseWith at h
  rw [hassoc, cut_led hno] at h
  simp only [if_neg hstar] at h
  split_ifs at h
  simp only [Option.bind_eq_bind, Option.bind_eq_some_iff] at h
  obtain ⟨⟨scheme, rest⟩, hscheme, f, _, h⟩ := h
  by_cases hne : scheme = []
  · -- Without a scheme the colon stands in a path's first segment.
    subst hne
    obtain rfl := getScheme_nil hscheme
    have hsegment : 0x3A ∈ (s ++ 0x3A :: hier).takeWhile (fun c ↦ decide (c ≠ 0x2F)) := by
      rw [List.takeWhile_append_of_pos (fun c hc ↦ decide_eq_true (hs c hc).2.1)]
      exact List.mem_append_right _ (by simp)
    have hhead : (s ++ 0x3A :: hier).head? ≠ some 0x2F := by
      cases s with
      | nil => simp
      | cons c cs =>
        have hc := (hs c List.mem_cons_self).2.1
        simpa using hc
    rw [hassoc', cut_led hno'] at h
    dsimp only at h
    rw [if_neg hhead, if_neg (by simp), if_pos hsegment] at h
    cases h
  · obtain ⟨hisScheme, hsplit⟩ := getScheme_eq_some hscheme hne
    have hnot : 0x3A ∉ scheme := fun hmem ↦ absurd (hisScheme.bytes _ hmem) (by decide)
    have hcut := @cut_append 0x3A s (hier ++ led 0x3F query) hcolon
    rw [hsplit, cut_append hnot] at hcut
    cases hcut
    exact hisScheme

end Scheme

section Password

theorem isSome_unescape_append {mode : Mode} {c : UInt8} (hhex : unhex c = none) (hc : c ≠ 0x25)
    (hplain : plainAllowed mode c = true) (xs ys : Bytes) : (unescape mode (xs ++ c :: ys)).isSome =
      ((unescape mode xs).isSome && (unescape mode ys).isSome) := by
  rw [unescape_append hhex, unescape_cons hc, if_pos hplain]
  cases unescape mode xs <;> cases unescape mode ys <;> rfl

/-- The user information ends at the last of the marks, so it begins with whatever precedes the first. -/
theorem exists_cutLast (tail : Bytes) : ∃ more host, (more = [] ∨ ∃ x, more = 0x40 :: x) ∧
    ∀ front, cutLast 0x40 (front ++ 0x40 :: tail) = some (front ++ more, host) := by
  cases hcut : cutLast 0x40 tail with
  | none =>
    have hnot : 0x40 ∉ tail := by
      intro hmem
      have hrev : 0x40 ∈ tail.reverse := List.mem_reverse.mpr hmem
      obtain ⟨before, after, hsplit, hbefore⟩ := List.eq_append_cons_of_mem hrev
      rw [cutLast, hsplit, cut_append hbefore] at hcut
      cases hcut
    exact ⟨[], tail, Or.inl rfl, fun front ↦ by rw [cutLast_append front hnot, List.append_nil]⟩
  | some p =>
    obtain ⟨x, host⟩ := p
    obtain ⟨rfl, hnot⟩ := cutLast_eq_some hcut
    refine ⟨0x40 :: x, host, Or.inr ⟨x, rfl⟩, fun front ↦ ?_⟩
    have hassoc : front ++ 0x40 :: (x ++ 0x40 :: host) = (front ++ 0x40 :: x) ++ 0x40 :: host := by simp
    rw [hassoc, cutLast_append _ hnot]

/-- The user's name ends at the first colon, and what follows it begins alike whatever the password is. -/
theorem exists_cut (user : Bytes) : ∃ username more, (more = [] ∨ ∃ x, more = x ++ [0x3A]) ∧
    ∀ w, cut 0x3A (user ++ 0x3A :: w) = some (username, more ++ w) := by
  by_cases hmem : 0x3A ∈ user
  · obtain ⟨username, x, rfl, hnot⟩ := List.eq_append_cons_of_mem hmem
    refine ⟨username, x ++ [0x3A], Or.inr ⟨x, rfl⟩, fun w ↦ ?_⟩
    have hassoc : username ++ 0x3A :: x ++ 0x3A :: w = username ++ 0x3A :: (x ++ [0x3A] ++ w) := by simp
    rw [hassoc, cut_append hnot]
  · exact ⟨user, [], Or.inl rfl, fun w ↦ cut_append hmem⟩

/-- A password in place of another keeps the authority valid, and its host. -/
theorem parseAuthority_password {colons : Bool} {user password other tail host : Bytes}
    (hother : validUserinfo other = true) (hdecoded : (unescape .userPassword other).isSome = true)
    (h : parseAuthority colons (user ++ 0x3A :: (password ++ 0x40 :: tail)) = some host) :
    parseAuthority colons (user ++ 0x3A :: (other ++ 0x40 :: tail)) = some host := by
  obtain ⟨more, hostText, hmore, hlast⟩ := exists_cutLast tail
  obtain ⟨username, before, hbefore, hcut⟩ := exists_cut user
  have hassoc (w : Bytes) :
      user ++ 0x3A :: (w ++ 0x40 :: tail) = (user ++ 0x3A :: w) ++ 0x40 :: tail := by simp
  have hinfo (w : Bytes) : user ++ 0x3A :: w ++ more = user ++ 0x3A :: (w ++ more) := by simp
  have hdecode (w : Bytes) : (unescape .userPassword (before ++ (w ++ more))).isSome =
      ((unescape .userPassword (before ++ more)).isSome && (unescape .userPassword w).isSome) := by
    have hend : (unescape .userPassword (w ++ more)).isSome =
        ((unescape .userPassword w).isSome && (unescape .userPassword more).isSome) := by
      rcases hmore with rfl | ⟨x, rfl⟩
      · simp [unescape]
      · have hmark := @isSome_unescape_append .userPassword 0x40 rfl (by decide) rfl
        rw [hmark, ← List.nil_append (0x40 :: x), hmark]
        simp [unescape]
    rcases hbefore with rfl | ⟨x, rfl⟩
    · rw [List.nil_append, List.nil_append, hend, Bool.and_comm]
    · have hmark := @isSome_unescape_append .userPassword 0x3A rfl (by decide) rfl
      have hsplit (w : Bytes) : x ++ [0x3A] ++ w = x ++ 0x3A :: w := by simp
      rw [hsplit, hsplit, hmark, hmark, hend]
      cases (unescape .userPassword x).isSome <;> cases (unescape .userPassword w).isSome <;>
        cases (unescape .userPassword more).isSome <;> rfl
  have hvalid (w : Bytes) : validUserinfo (user ++ 0x3A :: (w ++ more)) =
      (validUserinfo (user ++ 0x3A :: more) && validUserinfo w) := by
    simp only [validUserinfo, List.all_append, List.all_cons]
    cases user.all _ <;> cases w.all _ <;> simp
  have hparse (w : Bytes) : parseAuthority colons (user ++ 0x3A :: (w ++ 0x40 :: tail)) = some host ↔
      parseHost colons hostText = some host ∧ validUserinfo (user ++ 0x3A :: (w ++ more)) = true ∧
        (unescape .userPassword username).isSome = true ∧
          (unescape .userPassword (before ++ (w ++ more))).isSome = true := by
    rw [parseAuthority, hassoc, hlast, hinfo]
    simp only [hcut]
    cases parseHost colons hostText <;> cases validUserinfo (user ++ 0x3A :: (w ++ more)) <;>
      cases unescape .userPassword username <;> cases unescape .userPassword (before ++ (w ++ more)) <;> simp
  rw [hparse, hvalid, hdecode, Bool.and_eq_true, Bool.and_eq_true] at h ⊢
  exact ⟨h.1, ⟨h.2.1.1, hother⟩, h.2.2.1, h.2.2.2.1, hdecoded⟩

/-- Nothing of a password is left once it is masked. -/
theorem redactedUser_password (user password other more : Bytes) :
    redactedUser (user ++ 0x3A :: (password ++ more)) = redactedUser (user ++ 0x3A :: (other ++ more)) := by
  obtain ⟨username, before, _, hcut⟩ := exists_cut user
  rw [redactedUser, redactedUser, hcut, hcut]

def withPassword (s user password rest : Bytes) : Bytes :=
  s ++ 0x3A :: 0x2F :: 0x2F :: (user ++ 0x3A :: (password ++ 0x40 :: rest))

def masked : Bytes := "xxxxx"

def Unmarked (bs : Bytes) : Prop := ∀ c ∈ bs, c ≠ 0x2F ∧ c ≠ 0x3F ∧ c ≠ 0x23

theorem masked_bytes {c : UInt8} (hc : c ∈ masked) : c = 0x78 := by
  have hall : masked.all (· = 0x78) = true := by decide
  simpa using List.all_eq_true.mp hall c hc

section Masked

variable {s user password rest : Bytes} (hs : IsScheme s) (huser : Unmarked user)
include hs huser

/-- The parts of an address, whatever the password. -/
theorem exists_address (rest : Bytes) : ∃ tail path query fragment, ∀ w, Unmarked w →
    let a : Address := ⟨s, user ++ 0x3A :: (w ++ 0x40 :: tail), path, query, fragment⟩
    a.Valid ∧ withPassword s user w rest = a.text := by
  obtain ⟨tail, path, query, fragment, hparts⟩ := exists_parts rest
  refine ⟨tail, path, query, fragment, fun w hw ↦ ?_⟩
  have hfront : Unmarked (user ++ 0x3A :: (w ++ [0x40])) := by
    intro c hc
    simp only [List.mem_append, List.mem_cons, List.not_mem_nil, or_false] at hc
    rcases hc with hc | rfl | hc | rfl
    · exact huser c hc
    · decide
    · exact hw c hc
    · decide
  have hassoc (t : Bytes) : user ++ 0x3A :: (w ++ [0x40]) ++ t = user ++ 0x3A :: (w ++ 0x40 :: t) := by simp
  obtain ⟨hvalid, htext⟩ := hparts s _ hs hfront
  rw [hassoc] at hvalid htext
  rw [hassoc] at htext
  exact ⟨hvalid, htext⟩

end Masked

/-- An address is read alike with its password masked, and `URL.Redacted` prints it alike. -/
theorem parse_masked {s user password rest : Bytes}
    (hs : ∀ c ∈ s, c ≠ 0x3A ∧ c ≠ 0x2F ∧ c ≠ 0x3F ∧ c ≠ 0x23) (huser : Unmarked user)
    (hpassword : Unmarked password) {u : URL}
    (h : parseWith several (withPassword s user password rest) = some u) :
    parseWith several (withPassword s user masked rest) = some u ∧
      hasUser (withPassword s user password rest) = true ∧ hasUser (withPassword s user masked rest) = true ∧
      redactedText several (withPassword s user password rest) =
        redactedText several (withPassword s user masked rest) := by
  have hscheme : IsScheme s := isScheme_of_parse hs h
  obtain ⟨tail, path, query, fragment, hparts⟩ := exists_address hscheme huser rest
  have hmasked : Unmarked masked := by
    intro c hc
    rw [masked_bytes hc]
    decide
  obtain ⟨hvalid, htext⟩ := hparts password hpassword
  obtain ⟨hvalid', htext'⟩ := hparts masked hmasked
  obtain ⟨more, host, _, hlast⟩ := exists_cutLast tail
  have hassoc (w : Bytes) :
      user ++ 0x3A :: (w ++ 0x40 :: tail) = (user ++ 0x3A :: w) ++ 0x40 :: tail := by simp
  have hinfo (w : Bytes) : user ++ 0x3A :: w ++ more = user ++ 0x3A :: (w ++ more) := by simp
  rw [htext, htext', hasUser, hasUser, Address.authority_text hvalid, Address.authority_text hvalid',
    redactedText, redactedText, Address.address_text hvalid, Address.address_text hvalid']
  refine ⟨?_, by simp, by simp, ?_⟩
  · rw [htext, Address.parse_text hvalid] at h
    rw [Address.parse_text hvalid']
    split_ifs at h with hcontrol
    have hprintable : ¬ (Address.bare ⟨s, user ++
      0x3A :: (masked ++ 0x40 :: tail), path, query, fragment⟩).any
        (fun c ↦ c < 0x20 || c = 0x7F) = true := by
      rw [List.any_eq_true] at hcontrol ⊢
      rintro ⟨c, hc, hcc⟩
      refine hcontrol ⟨c, ?_, hcc⟩
      have hne : c ∉ masked := by
        intro hmem
        rw [masked_bytes hmem] at hcc
        cases hcc
      simp only [Address.bare, List.mem_append, List.mem_cons] at hc ⊢
      tauto
    rw [if_neg hprintable]
    simp only [Address.read, Option.bind_eq_bind, Option.bind_eq_some_iff] at h ⊢
    obtain ⟨host, hhost, h⟩ := h
    exact ⟨host, parseAuthority_password (by decide) (by decide) hhost, h⟩
  · rw [Address.redacted, Address.redacted]
    dsimp only
    rw [hassoc, hassoc, hlast, hlast, hinfo, hinfo]
    dsimp only [Option.getD_some]
    rw [redactedUser_password user password masked more]

end Password

end OtlpCollectorOidc.Url

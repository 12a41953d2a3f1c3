import OtlpCollectorOidc.Lib.Address
import OtlpCollectorOidc.Render.OwnLogs

namespace OtlpCollectorOidc.Render

open Text Upstream Url

section Slash

/-- An escaped slash at the end of a text. -/
def EndsEscaped (bs : Bytes) : Prop := [0x25, 0x32, 0x46] <:+ bs ∨ [0x25, 0x32, 0x66] <:+ bs

instance : DecidablePred EndsEscaped := fun _ ↦ instDecidableOr

theorem endsEscaped_cons {c : UInt8} {bs : Bytes} (h : EndsEscaped bs) : EndsEscaped (c :: bs) :=
  h.imp (fun h ↦ h.trans (List.suffix_cons c bs)) (fun h ↦ h.trans (List.suffix_cons c bs))

theorem EndsEscaped.append {bs : Bytes} (h : EndsEscaped bs) (xs : Bytes) : EndsEscaped (xs ++ bs) :=
  h.imp (fun h ↦ h.trans (List.suffix_append xs bs)) (fun h ↦ h.trans (List.suffix_append xs bs))

theorem EndsEscaped.split {bs : Bytes} (h : EndsEscaped bs) :
    ∃ init, bs = init ++ [0x25, 0x32, 0x46] ∨ bs = init ++ [0x25, 0x32, 0x66] := by
  obtain ⟨init, h⟩ | ⟨init, h⟩ := h
  · exact ⟨init, Or.inl h.symm⟩
  · exact ⟨init, Or.inr h.symm⟩

theorem endsEscaped_append_slash {xs ys : Bytes} : EndsEscaped (xs ++ 0x2F :: ys) ↔ EndsEscaped ys := by
  have hsuffix {l : Bytes} (hl : 0x2F ∉ l) (h : l <:+ xs ++ 0x2F :: ys) : l <:+ ys := by
    rcases List.suffix_or_suffix_of_suffix h (List.suffix_append xs (0x2F :: ys)) with h | h
    · rcases List.suffix_cons_iff.mp h with rfl | h
      · exact absurd List.mem_cons_self hl
      · exact h
    · exact absurd (h.subset List.mem_cons_self) hl
  constructor
  · exact Or.imp (hsuffix (by decide)) (hsuffix (by decide))
  · intro h
    exact (endsEscaped_cons h).append xs

theorem not_endsEscaped_nil : ¬ EndsEscaped [] := by
  rintro (h | h)
  · exact absurd (List.suffix_nil.mp h) (by decide)
  · exact absurd (List.suffix_nil.mp h) (by decide)

theorem unhex_slash :
    ∀ a : UInt8, (unhex a = some 2 ↔ a = 0x32) ∧ (unhex a = some 15 ↔ a = 0x46 ∨ a = 0x66) :=
  forall_byte (by decide +kernel)

theorem unhex_lt {a : UInt8} {n : ℕ} (h : unhex a = some n) : n < 16 := by
  have hall : ∀ a : UInt8, (unhex a).getD 0 < 16 := forall_byte (by decide +kernel)
  have hlt := hall a
  rwa [h] at hlt

/-- Only one escape stands for a slash. -/
theorem escape_slash {a b : UInt8} {x y : ℕ} (hx : unhex a = some x) (hy : unhex b = some y)
    (h : UInt8.ofNat (16 * x + y) = 0x2F) : a = 0x32 ∧ (b = 0x46 ∨ b = 0x66) := by
  have hxlt := unhex_lt hx
  have hylt := unhex_lt hy
  have hn := congrArg UInt8.toNat h
  rw [UInt8.toNat_ofNat_of_lt' (show 16 * x + y < 256 by omega)] at hn
  have hn : 16 * x + y = 47 := hn
  obtain rfl : x = 2 := by omega
  obtain rfl : y = 15 := by omega
  exact ⟨(unhex_slash a).1.mp hx, (unhex_slash b).2.mp hy⟩

theorem getLast_cons_of_unescape {bs decoded : Bytes} {c : UInt8} (h : unescape .path bs = some decoded)
    (hlast : (c :: decoded).getLast? = some 0x2F) :
    bs = [] ∧ c = 0x2F ∨ bs ≠ [] ∧ decoded.getLast? = some 0x2F := by
  by_cases hbs : bs = []
  · subst hbs
    cases h
    exact Or.inl ⟨rfl, Option.some.inj hlast⟩
  · refine Or.inr ⟨hbs, ?_⟩
    have hne : decoded ≠ [] := by
      rintro rfl
      exact hbs (unescape_eq_nil h)
    obtain ⟨d, ds, rfl⟩ := List.exists_cons_of_ne_nil hne
    rwa [List.getLast?_cons_cons] at hlast

/-- Decoded text ends in a slash only where its source does, or ends in an escaped one. -/
theorem getLast_of_unescape {bs decoded : Bytes} (h : unescape .path bs = some decoded)
    (hlast : decoded.getLast? = some 0x2F) : bs.getLast? = some 0x2F ∨ EndsEscaped bs := by
  have hcons {c : UInt8} {bs : Bytes} (hbs : bs ≠ []) (h : bs.getLast? = some 0x2F ∨ EndsEscaped bs) :
      (c :: bs).getLast? = some 0x2F ∨ EndsEscaped (c :: bs) := by
    obtain ⟨d, ds, rfl⟩ := List.exists_cons_of_ne_nil hbs
    rw [List.getLast?_cons_cons]
    exact h.imp_right endsEscaped_cons
  revert hlast
  refine unescape_induction (P := fun bs decoded ↦ decoded.getLast? = some 0x2F →
    bs.getLast? = some 0x2F ∨ EndsEscaped bs)
    ?_ ?_ ?_ h
  · rintro ⟨⟩
  · intro c bs decoded hdecoded ih hlast
    rcases getLast_cons_of_unescape hdecoded hlast with ⟨rfl, rfl⟩ | ⟨hne, hlast⟩
    · exact Or.inl rfl
    · exact hcons hne (ih hlast)
  · intro a b x y bs decoded hx hy hdecoded ih hlast
    rcases getLast_cons_of_unescape hdecoded hlast with ⟨rfl, hslash⟩ | ⟨hne, hlast⟩
    · obtain ⟨rfl, rfl | rfl⟩ := escape_slash hx hy hslash
      · exact Or.inr (Or.inl (List.suffix_refl _))
      · exact Or.inr (Or.inr (List.suffix_refl _))
    · exact hcons (by simp) (hcons (by simp) (hcons hne (ih hlast)))

theorem unescape_concat_slash {bs decoded : Bytes} (h : unescape .path (bs ++ [0x2F]) = some decoded) :
    ∃ init, unescape .path bs = some init ∧ decoded = init ++ [0x2F] := by
  rw [unescape_append (by decide)] at h
  obtain ⟨init, hinit, h⟩ := Option.bind_eq_some_iff.mp h
  exact ⟨init, hinit, (Option.some.inj h).symm⟩

theorem EndsEscaped.getLast_unescape {bs decoded : Bytes} (hends : EndsEscaped bs)
    (h : unescape .path bs = some decoded) :
    decoded.getLast? = some 0x2F := by
  obtain ⟨init, rfl | rfl⟩ := hends.split
  · rw [unescape_append (by decide)] at h
    obtain ⟨front, _, h⟩ := Option.bind_eq_some_iff.mp h
    rw [← Option.some.inj h]
    simp
  · rw [unescape_append (by decide)] at h
    obtain ⟨front, _, h⟩ := Option.bind_eq_some_iff.mp h
    rw [← Option.some.inj h]
    simp

end Slash

section Host

/-- No host ends in an escaped slash. -/
theorem parseHost_not_endsEscaped {several : Bool} {host decoded : Bytes}
    (h : parseHost several host = some decoded) :
    ¬ EndsEscaped host := by
  intro hends
  have hunescape : unescape .host host = none := by
    obtain ⟨init, rfl | rfl⟩ := hends.split
    · rw [unescape_append (by decide)]
      cases unescape .host init <;> rfl
    · rw [unescape_append (by decide)]
      cases unescape .host init <;> rfl
  unfold parseHost at h
  split at h
  · -- After the bracket stands a port or nothing, and neither ends in a letter.
    rename_i inner hopen
    simp only [Option.bind_eq_bind, Option.bind_eq_some_iff, Prod.exists] at h
    obtain ⟨literal, port, hclose, _, _, h⟩ := h
    obtain ⟨hsplit, _⟩ := cutLast_eq_some hclose
    split_ifs at h with hvalid
    have hport : validOptionalPort port = true := (Bool.and_eq_true_iff.mp hvalid).1
    have hlast : ∀ c ∈ host.getLast?, c ≠ 0x46 ∧ c ≠ 0x66 := by
      rw [(cutLast_eq_some hopen).1, hsplit, List.nil_append, ← List.cons_append, List.getLast?_append]
      intro c hc
      cases port with
      | nil =>
        cases hc
        decide
      | cons d port =>
        simp only [validOptionalPort, Bool.and_eq_true, decide_eq_true_eq] at hport
        have hmem : c ∈ d :: port := List.mem_of_getLast? hc
        rcases List.mem_cons.mp hmem with rfl | hmem
        · rw [hport.1]
          decide
        · have hdigit := List.all_eq_true.mp hport.2 c hmem
          constructor
          · rintro rfl
            cases hdigit
          · rintro rfl
            cases hdigit
    obtain ⟨init, he | he⟩ := hends.split
    · exact (hlast 0x46 (by rw [he]; simp)).1 rfl
    · exact (hlast 0x66 (by rw [he]; simp)).2 rfl
  · cases h
  · split at h
    · split_ifs at h
      rw [hunescape] at h
      cases h
    · rw [hunescape] at h
      cases h

end Host

def signalPath (sig : Signal) : Bytes := ofString "/v1/" ++ sig.string

/-- An address to which a signal's path was appended. -/
structure Appended (base u : URL) (sig : Signal) : Prop where
  scheme : u.scheme = base.scheme
  host : u.host = base.host
  query : u.rawQuery = []
  fragment : u.fragment = []
  path : u.path = trimSuffix [0x2F] base.path ++ signalPath sig

/-- An address without a mark that begins a query or a fragment, and not ending in an escaped slash. -/
structure PathLast (raw : Bytes) : Prop where
  query : 0x3F ∉ raw
  fragment : 0x23 ∉ raw
  slash : ¬ EndsEscaped raw

structure Base (raw : Bytes) (a : Address) (u : URL) : Prop where
  valid : a.Valid
  text : raw = a.text
  parsed : parse raw = some u
  printable : a.bare.any (fun c ↦ c < 0x20 || c = 0x7F) = false
  read : a.read (fun _ ↦ false) = some u
  query : a.query.getD [] = []
  fragment : a.fragment.getD [] = []
  authority : a.authority ≠ []
  host : ∃ host, parseHost false a.authority = some host

theorem base_of_setEndpoint {raw : Bytes} {parts : EndpointParts}
    (h : setEndpoint .httpProtobuf raw false = .ok parts) :
    ∃ a u, Base raw a u ∧ parts.endpoint = raw ∧ parts.signalPath = true := by
  unfold setEndpoint at h
  dsimp only at h
  split at h
  · cases h
  · rename_i u hu
    split_ifs at h with hscheme hbare
    cases h
    simp only [Bool.or_eq_true, decide_eq_true_eq, not_or, not_not] at hscheme hbare
    obtain ⟨hhttp, hhostname⟩ := hscheme
    obtain ⟨⟨huser, hquery⟩, hfragment⟩ := hbare
    have hne : u.scheme ≠ [] := by
      rintro he
      rw [he] at hhttp
      exact hhttp (by decide)
    have hhost : u.host ≠ [] := by
      rintro he
      exact hhostname (by rw [URL.hostname, he]; rfl)
    obtain ⟨s, after, hs, rfl⟩ := slashes_of_parse hu hne hhost
    obtain ⟨tail, path, query, fragment, hparts⟩ := exists_parts after
    obtain ⟨hvalid, htext⟩ := hparts s [] hs (by simp)
    rw [List.nil_append, List.nil_append] at htext
    rw [List.nil_append] at hvalid
    have hread := hu
    rw [parse, htext, Address.parse_text hvalid] at hread
    split_ifs at hread with hprintable
    have hauthority : hasUser (s ++ 0x3A :: 0x2F :: 0x2F :: after) = false := by simpa using huser
    rw [hasUser, htext, Address.authority_text hvalid] at hauthority
    unfold Address.read at hread
    simp only [Option.bind_eq_bind, Option.bind_eq_some_iff] at hread
    obtain ⟨host, hparse, decoded, hpath, frag, hfrag, he⟩ := hread
    cases he
    have hnoUser : 0x40 ∉ tail := of_decide_eq_false hauthority
    have hparseHost : parseHost false tail = some host := by
      rw [parseAuthority, cutLast_eq_none hnoUser] at hparse
      exact hparse
    refine ⟨_, _, ⟨hvalid, htext, hu, Bool.eq_false_iff.mpr hprintable, ?_, hquery, ?_, ?_, host, hparseHost⟩,
      rfl, rfl⟩
    · rw [Address.read, hparse, hpath, hfrag]
      rfl
    · have hnil : frag = [] := hfragment
      exact unescape_eq_nil (hnil ▸ hfrag)
    · rintro rfl
      cases hparseHost
      exact hhost rfl

theorem signalURL_eq (base : Bytes) (sig : Signal) :
    signalURL base sig = trimSuffix [0x2F] base ++ signalPath sig := by
  rw [signalURL, ← trimSuffix_slash, List.append_assoc, List.append_assoc]
  rfl

theorem trimSuffix_eq_self {bs : Bytes} (h : bs.getLast? ≠ some 0x2F) : trimSuffix [0x2F] bs = bs := by
  rw [trimSuffix, if_neg]
  rw [List.isSuffixOf_iff_suffix]
  rintro ⟨init, rfl⟩
  exact h (by simp)

theorem trimSuffix_append_right {ys : Bytes} (h : ys ≠ []) (xs : Bytes) :
    trimSuffix [0x2F] (xs ++ ys) = xs ++ trimSuffix [0x2F] ys := by
  by_cases hlast : ys.getLast? = some 0x2F
  · obtain ⟨init, rfl⟩ := List.getLast?_eq_some_iff.mp hlast
    rw [trimSuffix_append, ← List.append_assoc, trimSuffix_append]
  · rw [trimSuffix_eq_self hlast, trimSuffix_eq_self]
    rwa [List.getLast?_append_of_ne_nil _ h]

section Appending

variable {raw : Bytes} {a : Address} {u : URL}

theorem signalPath_ne_nil (sig : Signal) : signalPath sig ≠ [] := by cases sig <;> decide

/-- After a fragment's mark the signal's path is a fragment. -/
theorem Base.signalURL_fragment (h : Base raw a u) {f : Bytes} (hf : a.fragment = some f) (sig : Signal) :
    signalURL raw sig = Address.text { a with fragment := some (signalPath sig) } := by
  have hnil : f = [] := by
    have hget := h.fragment
    rwa [hf] at hget
  have hraw : raw = a.bare ++ [0x23] := by rw [h.text, Address.text, hf, hnil]; rfl
  rw [signalURL_eq, trimSuffix_eq_self (by simp [hraw]), hraw, List.append_assoc]
  rfl

/-- After a query's mark it is a query. -/
theorem Base.signalURL_query (h : Base raw a u) (hf : a.fragment = none) {q : Bytes} (hq : a.query = some q)
    (sig : Signal) : signalURL raw sig = Address.text { a with query := some (signalPath sig) } := by
  have hnil : q = [] := by
    have hget := h.query
    rwa [hq] at hget
  have hraw : raw = a.scheme ++ 0x3A :: 0x2F :: 0x2F :: (a.authority ++ a.path) ++ [0x3F] := by
    rw [h.text, Address.text, Address.bare, hf, hq, hnil]
    simp [led]
  rw [signalURL_eq, trimSuffix_eq_self (by rw [hraw, List.getLast?_concat]; decide), hraw]
  simp [Address.text, Address.bare, hf, led]

theorem Base.raw_eq (h : Base raw a u) (hf : a.fragment = none) (hq : a.query = none) :
    raw = a.scheme ++ 0x3A :: 0x2F :: 0x2F :: (a.authority ++ a.path) := by
  rw [h.text, Address.text, Address.bare, hf, hq]
  simp [led]

theorem Base.signalURL_path (h : Base raw a u) (hf : a.fragment = none) (hq : a.query = none) (sig : Signal) :
    signalURL raw sig = Address.text { a with path := trimSuffix [0x2F] a.path ++ signalPath sig } := by
  have htrim : trimSuffix [0x2F] (a.authority ++ a.path) = a.authority ++ trimSuffix [0x2F] a.path := by
    by_cases hpath : a.path = []
    · have hlast : a.authority.getLast? ≠ some 0x2F := fun hl ↦
        (h.valid.authority _ (List.mem_of_getLast? hl)).1 rfl
      rw [hpath, List.append_nil, trimSuffix_eq_self hlast]
      exact (List.append_nil _).symm
    · exact trimSuffix_append_right hpath _
  have hfront : raw = (a.scheme ++ [0x3A, 0x2F, 0x2F]) ++ (a.authority ++ a.path) := by
    rw [h.raw_eq hf hq]
    simp
  rw [signalURL_eq, hfront, trimSuffix_append_right (by simp [h.authority]), htrim]
  simp [Address.text, Address.bare, hf, hq, led]

theorem Base.endsEscaped_iff (h : Base raw a u) (hf : a.fragment = none) (hq : a.query = none) :
    EndsEscaped raw ↔ EndsEscaped a.path := by
  have hfront : raw = (a.scheme ++ [0x3A, 0x2F]) ++ 0x2F :: (a.authority ++ a.path) := by
    rw [h.raw_eq hf hq]
    simp
  rw [hfront, endsEscaped_append_slash]
  have hslash := h.valid.slash
  cases hpath : a.path with
  | nil =>
    obtain ⟨host, hhost⟩ := h.host
    rw [List.append_nil]
    exact iff_of_false (parseHost_not_endsEscaped hhost) not_endsEscaped_nil
  | cons c path =>
    rw [hpath] at hslash
    obtain rfl : c = 0x2F := hslash c rfl
    rw [endsEscaped_append_slash]
    exact (@endsEscaped_append_slash [] path).symm

theorem Base.pathLast_iff (h : Base raw a u) (hf : a.fragment = none) (hq : a.query = none) :
    PathLast raw ↔ ¬ EndsEscaped a.path := by
  rw [← h.endsEscaped_iff hf hq]
  refine ⟨PathLast.slash, fun hslash ↦ ⟨?_, ?_, hslash⟩⟩
  · have hquery := h.valid.noQuery
    have hscheme := h.valid.notMem_scheme (c := 0x3F) (by decide)
    rw [h.raw_eq hf hq, List.mem_append, List.mem_cons, not_or, not_or]
    exact ⟨hscheme, by decide, hquery⟩
  · have hfragment := h.valid.noFragment
    rwa [h.text, Address.text, hf, led, Option.map_none, Option.getD_none, List.append_nil]

theorem unescape_signalPath (sig : Signal) : unescape .path (signalPath sig) = some (signalPath sig) := by
  cases sig <;> decide +kernel

/-- The signal's path is decoded apart from what it follows. -/
theorem unescape_append_signalPath {bs decoded : Bytes} (h : unescape .path bs = some decoded)
    (sig : Signal) :
    unescape .path (bs ++ signalPath sig) = some (decoded ++ signalPath sig) := by
  have hcons : signalPath sig = 0x2F :: (ofString "v1/" ++ sig.string) := rfl
  rw [hcons, unescape_append (by decide), ← hcons, unescape_signalPath, h]
  rfl

theorem signalPath_bytes (sig : Signal) {c : UInt8} (hc : c ∈ signalPath sig) :
    (c ≠ 0x3F ∧ c ≠ 0x23) ∧ (c < 0x20 || c = 0x7F) = false := by
  have hall : (signalPath sig).all (fun c ↦ c ≠ 0x3F && c ≠ 0x23 && !(c < 0x20 || c = 0x7F)) = true := by
    cases sig <;> decide +kernel
  simpa using List.all_eq_true.mp hall c hc

theorem trimSuffix_isPrefix (suffix bs : Bytes) : trimSuffix suffix bs <+: bs := by
  unfold trimSuffix
  split_ifs
  · exact List.take_prefix _ bs
  · exact List.prefix_refl _

theorem Base.valid_path (h : Base raw a u) (sig : Signal) :
    Address.Valid { a with path := trimSuffix [0x2F] a.path ++ signalPath sig } := by
  have htrim := trimSuffix_isPrefix [0x2F] a.path
  refine ⟨h.valid.scheme, h.valid.authority, ?_, ?_, h.valid.query⟩
  · intro c hc
    rcases List.mem_append.mp hc with hc | hc
    · exact h.valid.path c (htrim.subset hc)
    · exact (signalPath_bytes sig hc).1
  · intro c hc
    have hslash := h.valid.slash
    dsimp only at hc
    cases ht : trimSuffix [0x2F] a.path with
    | nil =>
      rw [ht] at hc
      exact (Option.some.inj hc).symm
    | cons d ds =>
      rw [ht] at htrim hc
      obtain ⟨rest, hrest⟩ := htrim
      rw [← hrest] at hslash
      exact hslash c hc

theorem Base.printable_path (h : Base raw a u) (sig : Signal) :
    (Address.bare { a with path := trimSuffix [0x2F] a.path ++ signalPath sig }).any
      (fun c ↦ c < 0x20 || c = 0x7F) = false := by
  have hold := List.any_eq_false.mp h.printable
  rw [List.any_eq_false]
  intro c hc
  have hcases : c ∈ a.bare ∨ c ∈ signalPath sig := by
    have htrim : c ∈ trimSuffix [0x2F] a.path → c ∈ a.path := fun hc ↦ (trimSuffix_isPrefix _ _).subset hc
    simp only [Address.bare, List.mem_append, List.mem_cons] at hc ⊢
    tauto
  rcases hcases with hc | hc
  · exact hold c hc
  · simpa using (signalPath_bytes sig hc).2

theorem Base.not_appended_fragment (h : Base raw a u) {f : Bytes} (hf : a.fragment = some f)
    {sig : Signal} {v : URL} (hv : parse (signalURL raw sig) = some v) : ¬ Appended u v sig := by
  intro happ
  have hvalid : Address.Valid { a with fragment := some (signalPath sig) } :=
    ⟨h.valid.scheme, h.valid.authority, h.valid.path, h.valid.slash, h.valid.query⟩
  rw [parse, h.signalURL_fragment hf, Address.parse_text hvalid] at hv
  split_ifs at hv
  obtain ⟨_, _, hfragment, _⟩ := Address.read_eq_some hv
  rw [happ.fragment] at hfragment
  exact signalPath_ne_nil sig (unescape_eq_nil hfragment)

theorem Base.not_appended_query (h : Base raw a u) (hf : a.fragment = none) {q : Bytes}
    (hq : a.query = some q) {sig : Signal} {v : URL} (hv : parse (signalURL raw sig) = some v) :
    ¬ Appended u v sig := by
  intro happ
  have hvalid : Address.Valid { a with query := some (signalPath sig) } := by
    refine ⟨h.valid.scheme, h.valid.authority, h.valid.path, h.valid.slash, ?_⟩
    rintro q ⟨⟩ hmem
    exact (signalPath_bytes sig hmem).1.2 rfl
  rw [parse, h.signalURL_query hf hq, Address.parse_text hvalid] at hv
  split_ifs at hv
  obtain ⟨_, _, _, _, hquery⟩ := Address.read_eq_some hv
  rw [happ.query] at hquery
  exact signalPath_ne_nil sig hquery.symm

/-- What the base with the signal's path parses to, its path in two parts that are decoded apart. -/
theorem Base.parse_path (h : Base raw a u) (hf : a.fragment = none) (hq : a.query = none) {decoded : Bytes}
    (hdecoded : unescape .path (trimSuffix [0x2F] a.path) = some decoded) (sig : Signal) :
    parse (signalURL raw sig) = some { u with opaqueData := [], path := decoded ++ signalPath sig } := by
  obtain ⟨hhost, _, hfragment, hscheme, hquery⟩ := Address.read_eq_some h.read
  rw [parse, h.signalURL_path hf hq, Address.parse_text (h.valid_path sig), h.printable_path, Address.read]
  dsimp only
  rw [hhost, unescape_append_signalPath hdecoded, hfragment, ← hscheme, ← hquery]
  rfl

theorem Base.appended_path_iff (h : Base raw a u) (hf : a.fragment = none) (hq : a.query = none)
    (sig : Signal) :
    (∃ v, parse (signalURL raw sig) = some v ∧ Appended u v sig) ↔ ¬ EndsEscaped a.path := by
  obtain ⟨_, hpath, hfragment, _, hquery⟩ := Address.read_eq_some h.read
  have hnoFragment : u.fragment = [] := by
    rw [hf] at hfragment
    exact (Option.some.inj hfragment).symm
  have hnoQuery : u.rawQuery = [] := by rw [hquery, hq]; rfl
  have happended {decoded : Bytes} (hdecoded : unescape .path (trimSuffix [0x2F] a.path) = some decoded) :
      (∃ v, parse (signalURL raw sig) = some v ∧ Appended u v sig) ↔ decoded = trimSuffix [0x2F] u.path := by
    rw [h.parse_path hf hq hdecoded]
    constructor
    · rintro ⟨v, ⟨⟩, happ⟩
      exact List.append_cancel_right happ.path
    · intro he
      exact ⟨_, rfl, rfl, rfl, hnoQuery, hnoFragment, congrArg (· ++ signalPath sig) he⟩
  by_cases hlast : a.path.getLast? = some 0x2F
  · obtain ⟨init, hinit⟩ := List.getLast?_eq_some_iff.mp hlast
    rw [hinit] at hpath happended ⊢
    obtain ⟨decoded, hdecoded, hu⟩ := unescape_concat_slash hpath
    rw [trimSuffix_append] at happended
    rw [happended hdecoded, hu, trimSuffix_append, eq_self, true_iff, endsEscaped_append_slash]
    exact not_endsEscaped_nil
  · rw [trimSuffix_eq_self hlast] at happended
    rw [happended hpath]
    by_cases hslash : u.path.getLast? = some 0x2F
    · obtain ⟨init, hinit⟩ := List.getLast?_eq_some_iff.mp hslash
      refine iff_of_false ?_ (not_not_intro ((getLast_of_unescape hpath hslash).resolve_left hlast))
      rw [hinit, trimSuffix_append]
      simp
    · rw [trimSuffix_eq_self hslash, eq_self, true_iff]
      exact fun hends ↦ hslash (hends.getLast_unescape hpath)

/-- The signal's path after an accepted base is appended to the base's own path exactly when the base
ends in it. -/
theorem Base.appended_iff (h : Base raw a u) (sig : Signal) :
    (∃ v, parse (signalURL raw sig) = some v ∧ Appended u v sig) ↔ PathLast raw := by
  cases hf : a.fragment with
  | some f =>
    refine iff_of_false (fun ⟨v, hv, happ⟩ ↦ h.not_appended_fragment hf hv happ)
      (fun hlast ↦ hlast.fragment ?_)
    rw [h.text, Address.text, hf]
    simp [led]
  | none =>
    cases hq : a.query with
    | some q =>
      refine iff_of_false (fun ⟨v, hv, happ⟩ ↦ h.not_appended_query hf hq hv happ)
        (fun hlast ↦ hlast.query ?_)
      rw [h.text, Address.text, Address.bare, hq]
      simp [led]
    | none => rw [h.pathLast_iff hf hq, h.appended_path_iff hf hq]

end Appending

/-- A signal's path is appended to the path of an accepted base endpoint, for otlp_http and for the
own-logs exporter alike, exactly when the base ends in its path and not in an escaped slash. -/
theorem signal_path_appended_iff {raw : Bytes} {parts : EndpointParts}
    (h : setEndpoint .httpProtobuf raw false = .ok parts) :
    ∃ u, parse raw = some u ∧
      (∀ cfg : ExporterConfig, cfg.protocol = .httpProtobuf → cfg.endpoint = parts.endpoint →
        cfg.signalPath = parts.signalPath → (selfLogsExporter cfg).endpoint = signalURL raw .logs) ∧
      ∀ sig, (∃ v, parse (signalURL raw sig) = some v ∧ Appended u v sig) ↔ PathLast raw := by
  obtain ⟨a, u, hbase, hendpoint, hpath⟩ := base_of_setEndpoint h
  refine ⟨u, hbase.parsed, ?_, hbase.appended_iff⟩
  intro cfg hprotocol hend hsignal
  rw [selfLogsExporter]
  dsimp only
  rw [hprotocol, hsignal, hpath, hend, hendpoint, if_pos rfl, signalURL_logs]

theorem plain_base_appended : ∃ u, parse "https://collector/otlp/" = some u ∧
    ∀ sig, ∃ v, parse (signalURL "https://collector/otlp/" sig) = some v ∧ Appended u v sig := by
  have haccepted : setEndpoint .httpProtobuf "https://collector/otlp/" false =
    .ok ⟨false, "https://collector/otlp/", true⟩ := by rfl
  obtain ⟨u, hu, _, hiff⟩ := signal_path_appended_iff haccepted
  exact ⟨u, hu, fun sig ↦ (hiff sig).mpr ⟨by decide +kernel, by decide +kernel, by decide +kernel⟩⟩

/-- Accepted bases whose signal path lands in the query, in the fragment, or after two slashes. -/
theorem marked_bases_misplaced :
    (setEndpoint .httpProtobuf "http://h:4318?" false = .ok ⟨true, "http://h:4318?", true⟩ ∧
      parse (signalURL "http://h:4318?" .logs) =
        some { scheme := "http", host := "h:4318", path := [], rawQuery := "/v1/logs", fragment := [] }) ∧
    (setEndpoint .httpProtobuf "http://h:4318#" false = .ok ⟨true, "http://h:4318#", true⟩ ∧
      parse (signalURL "http://h:4318#" .logs) =
        some { scheme := "http", host := "h:4318", path := [], rawQuery := [], fragment := "/v1/logs" }) ∧
    (setEndpoint .httpProtobuf "http://h:4318/a%2F" false = .ok ⟨true, "http://h:4318/a%2F", true⟩ ∧
      parse "http://h:4318/a%2F" =
        some { scheme := "http", host := "h:4318", path := "/a/", rawQuery := [], fragment := [] } ∧
      parse (signalURL "http://h:4318/a%2F" .logs) =
        some { scheme := "http", host := "h:4318", path := "/a//v1/logs", rawQuery := [], fragment := [] }) :=
  ⟨⟨rfl, rfl⟩, ⟨rfl, rfl⟩, rfl, rfl, rfl⟩

end OtlpCollectorOidc.Render

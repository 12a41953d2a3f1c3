import OtlpCollectorOidc.Auth.Claims
import OtlpCollectorOidc.Auth.Config
import OtlpCollectorOidc.Lib.Fields

namespace OtlpCollectorOidc.Auth

open Text

theorem Config.Valid.requiredScope {cfg : Config} (h : cfg.Valid) :
    cfg.requiredScope ≠ [] ∧ (0x20 : UInt8) ∉ cfg.requiredScope := by
  simp only [Config.Valid, Config.validate, List.append_eq_nil_iff] at h
  have hscope := h.1.1.1.1.1.1.1.2
  rw [check, ite_eq_right_iff] at hscope
  have hgood : (decide (cfg.requiredScope = []) || cfg.requiredScope.any (· ∈ ofString " \t\r\n")) ≠ true :=
    fun hbad ↦ List.cons_ne_nil _ _ (hscope hbad)
  simp only [ne_eq, Bool.or_eq_true, decide_eq_true_eq, List.any_eq_true, not_or, not_exists,
    not_and] at hgood
  exact ⟨hgood.1, fun hsp ↦ hgood.2 0x20 hsp (by decide)⟩

section Listed

variable {c : Claims} {r s : Bytes}

/-- A scope without white space that stands between white space in a list stands between spaces there, and one
with white space does not stand between spaces. -/
def SpaceDelimited (r s : Bytes) : Prop :=
  (Spaceless r → Between isSpace r s → Between (· = ' ') r s) ∧ (¬Spaceless r → ¬Between (· = ' ') r s)

theorem isSpace_of_eq_space (c : Char) (h : decide (c = ' ') = true) : isSpace c = true := by
  rw [of_decide_eq_true h]
  decide

theorem mem_fields_iff_mem_pieces (hne : r ≠ []) (hr : (0x20 : UInt8) ∉ r) :
    (r ∈ fields s ↔ r ∈ pieces s) ↔ SpaceDelimited r s := by
  rw [mem_fields_iff, mem_pieces_iff, SpaceDelimited]
  by_cases hs : Spaceless r
  · simp only [hne, hr, hs, ne_eq, not_false_eq_true, true_and, forall_const, not_true_eq_false,
      IsEmpty.forall_iff, and_true]
    exact ⟨Iff.mp, fun h ↦ ⟨h, fun hb ↦ hb.mono isSpace_of_eq_space⟩⟩
  · simp [hne, hr, hs]

theorem grantsScope_scope (hs : c.get "scope" = some (.str s)) (hp : c.get "scp" = none) :
    grantsScope c r = true ↔ r ∈ fields s := by
  rw [grantsScope_iff, hs, hp]
  simp

theorem grantsScope_scp (hs : c.get "scope" = none) (hp : c.get "scp" = some (.str s)) :
    grantsScope c r = true ↔ r ∈ fields s := by
  rw [grantsScope_iff, hs, hp]
  simp

theorem grantsScope_array {scopes : List Bytes} (hs : c.get "scope" = none)
    (hp : c.get "scp" = some (.arr (scopes.map .str))) : grantsScope c r = true ↔ r ∈ scopes := by
  rw [grantsScope_iff, hs, hp]
  simp

theorem mem_pieces_intercalate {scopes : List Bytes} (hne : r ≠ []) (h : ∀ x ∈ scopes, (0x20 : UInt8) ∉ x) :
    r ∈ pieces (List.intercalate [0x20] scopes) ↔ r ∈ scopes := by
  rw [pieces, List.mem_filter]
  cases scopes with
  | nil => simp [hne]
  | cons x xs =>
    rw [List.splitOn_intercalate 0x20 h (List.cons_ne_nil x xs)]
    simp [hne]

theorem between_self (sep : Char → Bool) (r : Bytes) : Between sep r r :=
  ⟨[], [], by simp, Or.inl rfl, Or.inl rfl⟩

/-- In a list whose only white space is U+0020 every scope without it is space-delimited. -/
theorem spaceDelimited_of_plain (hr : (0x20 : UInt8) ∉ r) (h : ∀ c ∈ chars s, isSpace c = true → c = ' ') :
    SpaceDelimited r s := by
  have hsep {x y : Bytes} {c : Char} (he : s = x ++ (String.utf8EncodeChar c ++ y)) (hc : isSpace c = true) :
      c = ' ' := by
    refine h c ?_ hc
    rw [he, chars, runes_append_char]
    simp
  constructor
  · rintro - ⟨a, b, rfl, ha, hb⟩
    refine ⟨a, b, rfl, ha.imp_right ?_, hb.imp_right ?_⟩
    · rintro ⟨a', c, hc, rfl⟩
      exact ⟨a', c, decide_eq_true (hsep (x := a') (y := r ++ b) (by simp) hc), rfl⟩
    · rintro ⟨c, b', hc, rfl⟩
      exact ⟨c, b', decide_eq_true (hsep rfl hc), rfl⟩
  · intro hno hb
    obtain ⟨A, B, hruns, -, -⟩ := (hb.mono isSpace_of_eq_space).runes
    refine hno fun c hc ↦ Bool.eq_false_iff.mpr fun hsp ↦ hr ?_
    obtain ⟨x, hx, rfl⟩ := List.mem_map.mp hc
    have hmem : x ∈ runes s := by
      rw [hruns]
      simp [hx]
    have hspace : x.value = ' ' := h x.value (List.mem_map_of_mem hmem) hsp
    rw [← flatMap_raw_runes r, List.mem_flatMap]
    exact ⟨x, hx, by rw [raw_of_isSpace hx hsp, hspace]; decide⟩

end Listed

/-- What becomes of a required scope as one entry of a list: the `scope` and `scp` texts, the scope
alone, and the two forms of `scp`. -/
structure ListedScope (r : Bytes) : Prop where
  scope : ∀ (c : Claims) s, c.get "scope" = some (.str s) → c.get "scp" = none →
    ((grantsScope c r = true ↔ r ∈ pieces s) ↔ SpaceDelimited r s)
  scp : ∀ (c : Claims) s, c.get "scope" = none → c.get "scp" = some (.str s) →
    ((grantsScope c r = true ↔ r ∈ pieces s) ↔ SpaceDelimited r s)
  alone : ∀ c : Claims, c.get "scope" = some (.str r) → c.get "scp" = none →
    (grantsScope c r = true ↔ Spaceless r)
  forms : ∀ (c c' : Claims) scopes, (∀ x ∈ scopes, (0x20 : UInt8) ∉ x) → c.get "scope" = none →
    c.get "scp" = some (.arr (scopes.map .str)) → c'.get "scope" = none →
    c'.get "scp" = some (.str (List.intercalate [0x20] scopes)) →
    ((grantsScope c' r = true ↔ grantsScope c r = true) ↔ SpaceDelimited r (List.intercalate [0x20] scopes))
  plain : ∀ s, (∀ c ∈ chars s, isSpace c = true → c = ' ') → SpaceDelimited r s

theorem required_scope_listed (cfg : Config) (hv : cfg.Valid) : ListedScope cfg.requiredScope := by
  obtain ⟨hne, hr⟩ := hv.requiredScope
  refine ⟨?_, ?_, ?_, ?_, fun s ↦ spaceDelimited_of_plain hr⟩
  · intro c s hs hp
    rw [grantsScope_scope hs hp]
    exact mem_fields_iff_mem_pieces hne hr
  · intro c s hs hp
    rw [grantsScope_scp hs hp]
    exact mem_fields_iff_mem_pieces hne hr
  · intro c hs hp
    rw [grantsScope_scope hs hp, mem_fields_iff]
    exact ⟨fun h ↦ h.2.1, fun h ↦ ⟨hne, h, between_self _ _⟩⟩
  · intro c c' scopes hfree hs hp hs' hp'
    rw [grantsScope_array hs hp, grantsScope_scp hs' hp', ← mem_pieces_intercalate hne hfree]
    exact mem_fields_iff_mem_pieces hne hr

def scopeClaims (s : Bytes) : Claims := ofMembers [("scope", .str s)]

theorem write_scope_granted :
    exampleConfig.Valid ∧
      grantsScope (scopeClaims "telemetry:read telemetry:write") exampleConfig.requiredScope = true := by
  have hlisted := required_scope_listed exampleConfig exampleConfig_valid
  refine ⟨exampleConfig_valid, ?_⟩
  refine ((hlisted.scope _ (ofString "telemetry:read telemetry:write") rfl rfl).mpr
    (hlisted.plain _ ?_)).mpr ?_
  · have hplain : (chars "telemetry:read telemetry:write").all (fun c ↦ !isSpace c || c = ' ') = true := by
      decide +kernel
    intro c hc hsp
    simpa [hsp] using List.all_eq_true.mp hplain c hc
  · decide +kernel

def noBreakConfig : Config := { exampleConfig with requiredScope := "telemetry\u00a0write" }

/-- No token grants an accepted scope with a no-break space in it, and a tab ends a scope. -/
theorem white_space_not_space :
    noBreakConfig.Valid ∧ noBreakConfig.requiredScope ∈ pieces noBreakConfig.requiredScope ∧
      grantsScope (scopeClaims noBreakConfig.requiredScope) noBreakConfig.requiredScope = false ∧
    exampleConfig.Valid ∧ exampleConfig.requiredScope ∉ pieces "telemetry:write\ttelemetry:read" ∧
      grantsScope (scopeClaims "telemetry:write\ttelemetry:read") exampleConfig.requiredScope = true := by
  refine ⟨by unfold Config.Valid; decide +kernel, ?_, ?_, exampleConfig_valid, ?_, ?_⟩
  · decide +kernel
  · decide +kernel
  · decide +kernel
  · decide +kernel

end OtlpCollectorOidc.Auth

import OtlpCollectorOidc.Lib.Regexp.Anchor
import OtlpCollectorOidc.Lib.Regexp.Semantics
import OtlpCollectorOidc.Render.Settings

namespace OtlpCollectorOidc.Render

open Text Regexp Upstream

/-- What `regexp` brings beyond its grammar: the Unicode tables, the regular expressions it has room for
(their size, their depth, how often they repeat, each capture name once), and the codes of its
errors. -/
structure Engine where
  unicode : Unicode
  fits : Node → Bool
  code : Bytes → Option Bytes

namespace Engine

variable (E : Engine)

/-- A pattern is UTF-8 throughout. -/
def compile (pattern : Bytes) : Option Node :=
  if ofChars (chars pattern) = pattern then (parse E.unicode (chars pattern)).filter E.fits else none

def library (go : Library) : Library :=
  { go with compile := fun pattern ↦ if (E.compile pattern).isSome then none else some (E.code pattern) }

variable {E}

theorem parse_of_compile {pattern : Bytes} {x : Node} (h : E.compile pattern = some x) :
    parse E.unicode (chars pattern) = some x := by
  obtain ⟨-, h⟩ := Option.ite_none_right_eq_some.mp h
  exact (Option.filter_eq_some_iff.mp h).1

theorem compile_library {go : Library} {pattern : Bytes} (h : (E.library go).compile pattern = none) :
    ∃ x, E.compile pattern = some x := by
  cases hx : E.compile pattern with
  | some x => exact ⟨x, rfl⟩
  | none => simp [library, hx] at h

end Engine

theorem servicePattern_ok {go : Library} {p q : Bytes} (h : servicePattern go p = .ok q) :
    q = p ∧ go.compile p = none ∧ go.compile (anchored p) = none := by
  rw [servicePattern] at h
  split_ifs at h
  split at h
  · cases h
  · next hown =>
    split at h
    · cases h
    · next hwhole =>
      cases h
      exact ⟨rfl, hown, hwhole⟩

theorem chars_anchored {p : Bytes} (h : ofChars (chars p) = p) : chars (anchored p) = anchor (chars p) := by
  have hhead : ofString "^(?:" = ofChars anchorHead := rfl
  have htail : ofString ")$" = ofChars anchorTail := rfl
  rw [anchored, hhead, htail, ← h, ← ofChars_append, ← ofChars_append, chars_ofChars, chars_ofChars]
  rfl

/-- The anchored pattern finds a match in a name exactly when the pattern, read on its own, matches the
whole name. -/
theorem anchored_admits_whole (E : Engine) (go : Library) {p q : Bytes}
    (h : servicePattern (E.library go) p = .ok q) :
    q = p ∧ ∃ own whole, E.compile p = some own ∧ E.compile (anchored p) = some whole ∧
      ∀ n, whole.Finds E.unicode (chars n) ↔ own.MatchesWhole E.unicode (chars n) := by
  obtain ⟨hq, hown, hwhole⟩ := servicePattern_ok h
  obtain ⟨own, hown⟩ := Engine.compile_library hown
  obtain ⟨whole, hwhole⟩ := Engine.compile_library hwhole
  refine ⟨hq, own, whole, hown, hwhole, fun n ↦ ?_⟩
  obtain ⟨hvalid, -⟩ := Option.ite_none_right_eq_some.mp hown
  have hparse := Engine.parse_of_compile hwhole
  rw [chars_anchored hvalid] at hparse
  rw [parse_anchor (Engine.parse_of_compile hown) hparse]
  exact finds_between_anchors E.unicode (chars n) own

def asciiEngine : Engine where
  unicode := { table := fun _ ↦ none, orbit := fun _ ↦ [] }
  fits := fun _ ↦ true
  code := fun _ ↦ none

theorem api_or_web_admits_whole : ∃ own whole,
    servicePattern (asciiEngine.library exampleLibrary) (ofString "api|(?i)web-[a-z]+") =
      .ok (ofString "api|(?i)web-[a-z]+") ∧
      asciiEngine.compile (ofString "api|(?i)web-[a-z]+") = some own ∧
      asciiEngine.compile (ofString "^(?:api|(?i)web-[a-z]+)$") = some whole ∧
      ∀ n, whole.Finds asciiEngine.unicode (chars n) ↔ own.MatchesWhole asciiEngine.unicode (chars n) := by
  have hok : servicePattern (asciiEngine.library exampleLibrary) (ofString "api|(?i)web-[a-z]+") =
      .ok (ofString "api|(?i)web-[a-z]+") := by decide +kernel
  have hanchored : anchored (ofString "api|(?i)web-[a-z]+") = ofString "^(?:api|(?i)web-[a-z]+)$" := by
    decide +kernel
  obtain ⟨-, own, whole, hown, hwhole, hmatch⟩ := anchored_admits_whole asciiEngine exampleLibrary hok
  rw [hanchored] at hwhole
  exact ⟨own, whole, hok, hown, hwhole, hmatch⟩

-- The first would say something else once anchored; the quotation of the second would take the closing
-- anchor in.
example :
    ["a)|(b", "\\Qapi"].map (fun p ↦
      (servicePattern (asciiEngine.library exampleLibrary) (ofString p)).toOption) =
    [none, none] := by decide +kernel

end OtlpCollectorOidc.Render

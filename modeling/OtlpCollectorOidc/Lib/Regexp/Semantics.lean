import OtlpCollectorOidc.Lib.Regexp.Parser

namespace OtlpCollectorOidc.Regexp

section Characters

variable (u : Unicode)

def inRanges (rs : Ranges) (c : Char) : Bool := rs.any (fun r ↦ r.1 ≤ c.toNat && c.toNat ≤ r.2)

/-- A character is in a set, or one it equals when case is folded is. -/
def Unicode.folded (fold : Bool) (set : Char → Bool) (c : Char) : Bool :=
  set c || fold && (u.orbit c).any set

def ClassItem.accepts (fold : Bool) (c : Char) : ClassItem → Bool
  | .ranges neg rs => u.folded fold (inRanges rs) c ^^ neg
  | .table neg set => u.folded fold set c ^^ neg

def CharClass.accepts (cls : CharClass) (fold : Bool) (c : Char) : Bool :=
  cls.items.any (ClassItem.accepts u fold c) ^^ cls.neg

def isWord (c : Char) : Bool := inRanges wordRanges c

end Characters

section Positions

variable (text : List Char)

def one (set : Char → Bool) (i j : ℕ) : Prop := j = i + 1 ∧ text[i]?.any set

def before (i : ℕ) : Option Char := if i = 0 then none else text[i - 1]?

def atWordBoundary (i : ℕ) : Bool := (before text i).any isWord != text[i]?.any isWord

/-- A relation between positions followed by itself, so many times. -/
def iterate (R : ℕ → ℕ → Prop) : ℕ → ℕ → ℕ → Prop
  | 0, i, j => i = j
  | n + 1, i, j => ∃ k, R i k ∧ iterate R n k j

end Positions

section Matching

variable (u : Unicode) (text : List Char)

/-- What lies between two positions of the text is matched. -/
def Node.Matches : Node → ℕ → ℕ → Prop
  | .empty, i, j => i = j
  | .literal r fold, i, j => one text (u.folded fold (fun c ↦ c.toNat = r)) i j
  | .charClass cls fold, i, j => one text (cls.accepts u fold) i j
  | .anyChar, i, j => one text (fun _ ↦ true) i j
  | .anyCharNotNewline, i, j => one text (· ≠ '\n') i j
  | .beginText, i, j => i = j ∧ i = 0
  | .endText, i, j => i = j ∧ i = text.length
  | .beginLine, i, j => i = j ∧ (i = 0 ∨ before text i = some '\n')
  | .endLine, i, j => i = j ∧ (i = text.length ∨ text[i]? = some '\n')
  | .wordBoundary, i, j => i = j ∧ atWordBoundary text i = true
  | .noWordBoundary, i, j => i = j ∧ atWordBoundary text i = false
  | .capture _ sub, i, j => sub.Matches i j
  | .times min max _ sub, i, j => ∃ n, min ≤ n ∧ (∀ m ∈ max, n ≤ m) ∧ iterate sub.Matches n i j
  | .cat first second, i, j => ∃ k, first.Matches i k ∧ second.Matches k j
  | .alt first second, i, j => first.Matches i j ∨ second.Matches i j

def Node.Finds (x : Node) : Prop := ∃ i ≤ text.length, ∃ j, x.Matches u text i j

def Node.MatchesWhole (x : Node) : Prop := x.Matches u text 0 text.length

theorem finds_between_anchors (x : Node) :
    (Node.cat .beginText (.cat x (.cat .endText .empty))).Finds u text ↔ x.MatchesWhole u text := by
  constructor
  · rintro ⟨_, -, j, _, ⟨rfl, rfl⟩, k, hx, _, ⟨rfl, rfl⟩, rfl⟩
    exact hx
  · intro hx
    exact ⟨0, Nat.zero_le _, text.length, 0, ⟨rfl, rfl⟩, text.length, hx, text.length, ⟨rfl, rfl⟩, rfl⟩

end Matching

end OtlpCollectorOidc.Regexp

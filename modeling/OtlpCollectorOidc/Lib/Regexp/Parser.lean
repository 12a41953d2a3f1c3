import OtlpCollectorOidc.Lib.Regexp.Lexer

namespace OtlpCollectorOidc.Regexp

structure Flags where
  foldCase : Bool := false
  multiLine : Bool := false
  dotNewline : Bool := false
  nonGreedy : Bool := false

def Flags.set (on : Bool) (f : Flags) : Flag → Flags
  | .foldCase => { f with foldCase := on }
  | .multiLine => { f with multiLine := on }
  | .dotNewline => { f with dotNewline := on }
  | .nonGreedy => { f with nonGreedy := on }

inductive Node where
  | empty
  | literal (rune : ℕ) (fold : Bool)
  | charClass (cls : CharClass) (fold : Bool)
  | anyChar
  | anyCharNotNewline
  | beginText
  | endText
  | beginLine
  | endLine
  | wordBoundary
  | noWordBoundary
  | capture (name : List Char) (sub : Node)
  | times (min : ℕ) (max : Option ℕ) (greedy : Bool) (sub : Node)
  | cat (first second : Node)
  | alt (first second : Node)

/-- An open group: its capture name unless it only groups, the flags to go back to when it closes, the
alternatives it has so far and the one being read, both latest first. -/
structure Frame where
  name : Option (List Char) := none
  saved : Flags := {}
  alternatives : List Node := []
  concat : List Node := []

def concatenation (xs : List Node) : Node := xs.foldl (fun acc x ↦ .cat x acc) .empty

def Frame.node (f : Frame) : Node := f.alternatives.foldl (fun acc x ↦ .alt x acc) (concatenation f.concat)

def Frame.push (f : Frame) (x : Node) : Frame := { f with concat := x :: f.concat }

def Frame.closed (f : Frame) : Node :=
  match f.name with
  | none => f.node
  | some name => .capture name f.node

/-- The groups that are open, the innermost first; what the pattern is read into is the last of them. -/
structure State where
  top : Frame := {}
  below : List Frame := []
  flags : Flags := {}
  afterTimes : Bool := false

namespace State

def push (s : State) (x : Node) : State := { s with top := s.top.push x, afterTimes := false }

def openGroup (s : State) (name : Option (List Char)) (flags : Flags) : State where
  top := { name := name, saved := s.flags }
  below := s.top :: s.below
  flags := flags

def step (s : State) : Token → Option State
  | .literal r => some (s.push (.literal r s.flags.foldCase))
  | .quoted cs _ =>
    some { cs.foldl (fun s c ↦ s.push (.literal c.toNat s.flags.foldCase)) s with afterTimes := false }
  | .charClass cls => some (s.push (.charClass cls s.flags.foldCase))
  | .dot => some (s.push (if s.flags.dotNewline then .anyChar else .anyCharNotNewline))
  | .caret => some (s.push (if s.flags.multiLine then .beginLine else .beginText))
  | .dollar => some (s.push (if s.flags.multiLine then .endLine else .endText))
  | .beginText => some (s.push .beginText)
  | .endText => some (s.push .endText)
  | .wordBoundary => some (s.push .wordBoundary)
  | .noWordBoundary => some (s.push .noWordBoundary)
  | .bar =>
    some { s with
      top := { s.top with alternatives := concatenation s.top.concat :: s.top.alternatives, concat := [] }
      afterTimes := false }
  | .capture name => some (s.openGroup (some name) s.flags)
  | .flags on off group =>
    let flags := off.foldl (Flags.set false) (on.foldl (Flags.set true) s.flags)
    some (if group then s.openGroup none flags else { s with flags := flags, afterTimes := false })
  | .close =>
    match s.below with
    | [] => none
    | f :: below => some { top := f.push s.top.closed, below := below, flags := s.top.saved }
  | .times min max lazy =>
    match s.afterTimes, s.top.concat with
    | false, x :: xs =>
      some { s with
        top := { s.top with concat := .times min max (lazy == s.flags.nonGreedy) x :: xs }
        afterTimes := true }
    | _, _ => none

def run (s : State) (toks : List Token) : Option State := toks.foldlM step s

def finish (s : State) : Option Node := if s.below = [] then some s.top.node else none

end State

def parse (u : Unicode) (pattern : List Char) : Option Node :=
  (lexAll u pattern).bind (fun toks ↦ (State.run {} toks).bind State.finish)

/-- A repetition takes the last expression read, and no other repetition. -/
theorem step_times {s s' : State} {min : ℕ} {max : Option ℕ} {lazy : Bool}
    (h : s.step (.times min max lazy) = some s') :
    ∃ x xs, s.afterTimes = false ∧ s.top.concat = x :: xs ∧ s' = { s with
      top := { s.top with concat := .times min max (lazy == s.flags.nonGreedy) x :: xs }
      afterTimes := true } := by
  rw [State.step] at h
  split at h
  · next x xs hafter hconcat =>
    cases h
    exact ⟨x, xs, hafter, hconcat, rfl⟩
  · cases h

section Frames

def State.within (s : State) (base : List Frame) : State := { s with below := s.below ++ base }

theorem pushAll_within (cs : List Char) (s : State) (base : List Frame) :
    cs.foldl (fun s c ↦ s.push (.literal c.toNat s.flags.foldCase)) (s.within base) =
      (cs.foldl (fun s c ↦ s.push (.literal c.toNat s.flags.foldCase)) s).within base := by
  induction cs generalizing s with
  | nil => rfl
  | cons c cs ih => exact ih (s.push (.literal c.toNat s.flags.foldCase))

/-- A token that closes none of the groups around does the same inside them. -/
theorem step_within {s s' : State} {tok : Token} (h : s.step tok = some s') (base : List Frame) :
    (s.within base).step tok = some (s'.within base) := by
  cases tok with
  | quoted cs closed =>
    cases h
    exact congrArg some (congrArg (fun s ↦ ({ s with afterTimes := false } : State))
      (pushAll_within cs s base))
  | flags on off group =>
    cases h
    cases group <;> rfl
  | close =>
    obtain ⟨top, below, flags, afterTimes⟩ := s
    cases below with
    | nil => cases h
    | cons f below =>
      cases h
      rfl
  | times min max lazy =>
    obtain ⟨x, xs, hafter, hconcat, rfl⟩ := step_times h
    simp only [State.step, State.within, hafter, hconcat]
  | _ =>
    cases h
    rfl

theorem run_within {toks : List Token} {s s' : State} (h : s.run toks = some s') (base : List Frame) :
    (s.within base).run toks = some (s'.within base) := by
  induction toks generalizing s with
  | nil =>
    cases h
    rfl
  | cons tok toks ih =>
    rw [State.run, List.foldlM_cons, Option.bind_eq_bind, Option.bind_eq_some_iff] at h ⊢
    obtain ⟨s₁, hstep, hrun⟩ := h
    exact ⟨s₁.within base, step_within hstep base, ih hrun⟩

theorem run_append (s : State) (xs ys : List Token) : s.run (xs ++ ys) = (s.run xs).bind (·.run ys) := by
  rw [State.run, List.foldlM_append]
  rfl

theorem run_singleton (s : State) (tok : Token) : s.run [tok] = s.step tok := by
  rw [State.run, List.foldlM_cons]
  exact bind_pure (s.step tok)

end Frames

section Root

/-- What the outermost group, which no token opens, says of its name and of the flags it saved. -/
def State.root (s : State) : Option (Option (List Char) × Flags) :=
  ((s.top :: s.below).map (fun f ↦ (f.name, f.saved))).getLast?

theorem pushAll_root (cs : List Char) (s : State) :
    (cs.foldl (fun s c ↦ s.push (.literal c.toNat s.flags.foldCase)) s).root = s.root := by
  induction cs generalizing s with
  | nil => rfl
  | cons c cs ih => exact ih (s.push _)

theorem openGroup_root (s : State) (name : Option (List Char)) (flags : Flags) :
    (s.openGroup name flags).root = s.root := by
  exact List.getLast?_cons_cons

theorem step_root {s s' : State} {tok : Token} (h : s.step tok = some s') : s'.root = s.root := by
  cases tok with
  | quoted cs closed =>
    cases h
    exact pushAll_root cs s
  | capture name =>
    cases h
    exact openGroup_root s _ _
  | flags on off group =>
    cases h
    cases group with
    | false => rfl
    | true => exact openGroup_root s _ _
  | close =>
    obtain ⟨top, below, flags, afterTimes⟩ := s
    cases below with
    | nil => cases h
    | cons f below =>
      cases h
      exact List.getLast?_cons_cons.symm
  | times min max lazy =>
    obtain ⟨x, xs, -, -, rfl⟩ := step_times h
    rfl
  | _ =>
    cases h
    rfl

theorem run_root {toks : List Token} {s s' : State} (h : s.run toks = some s') : s'.root = s.root := by
  induction toks generalizing s with
  | nil =>
    cases h
    rfl
  | cons tok toks ih =>
    rw [State.run, List.foldlM_cons, Option.bind_eq_bind, Option.bind_eq_some_iff] at h
    obtain ⟨s₁, hstep, hrun⟩ := h
    exact (ih hrun).trans (step_root hstep)

end Root

end OtlpCollectorOidc.Regexp

import Mathlib.Logic.Function.Basic
import OtlpCollectorOidc.Lib.Text

namespace OtlpCollectorOidc.FileSystem

open Text

inductive Errno where
  | noEntry
  | notDirectory
  | isDirectory
  | notPermitted
  | notEmpty
  | alreadyExists
  | other (text : Bytes)
  deriving DecidableEq

def Errno.string : Errno → Bytes
  | noEntry => "no such file or directory"
  | notDirectory => "not a directory"
  | isDirectory => "is a directory"
  | notPermitted => "operation not permitted"
  | notEmpty => "directory not empty"
  | alreadyExists => "file exists"
  | other text => text

inductive Content where
  | file (bytes : Bytes)
  | symlink (target : Bytes)
  | directory (empty : Bool)

/-- An inode. The bits are those of everyone but its owner. -/
structure Node (υ : Type) where
  owner : υ
  othersRead : Bool
  othersWrite : Bool
  content : Content

def Node.setFile {υ : Type} (n : Node υ) (bytes : Bytes) : Node υ :=
  match n.content with
  | .file _ => { n with content := .file bytes }
  | _ => n

/-- A directory that every user may write to. Names lead to inodes, numbered as they were made. -/
structure Directory (υ : Type) where
  owner : υ
  sticky : Bool
  entries : Bytes → Option ℕ
  nodes : List (Node υ)

/-- What a process of another user may do in it. -/
inductive Foreign where
  | create (name : Bytes) (othersRead othersWrite : Bool) (content : Content)
  | link (name : Bytes) (i : ℕ)
  | unlink (name : Bytes)
  | rmdir (name : Bytes)
  | rename (old new : Bytes)
  | write (i : ℕ) (bytes : Bytes)
  | chmod (i : ℕ) (othersRead othersWrite : Bool)

namespace Directory

variable {υ : Type}

def isDirectory (d : Directory υ) (i : ℕ) : Bool :=
  match d.nodes[i]? with
  | some ⟨_, _, _, .directory _⟩ => true
  | _ => false

def isEmpty (d : Directory υ) (i : ℕ) : Bool :=
  match d.nodes[i]? with
  | some ⟨_, _, _, .directory empty⟩ => empty
  | _ => false

def append (d : Directory υ) (i : ℕ) (bytes : Bytes) : Directory υ :=
  { d with nodes := d.nodes.modify i (fun n ↦
      match n.content with
      | .file old => { n with content := .file (old ++ bytes) }
      | _ => n) }

def drop (d : Directory υ) (name : Bytes) : Directory υ :=
  { d with entries := Function.update d.entries name none }

/-- Creation with `O_EXCL`: whatever has the name already, a symbolic link too, makes it fail. -/
def create (d : Directory υ) (name : Bytes) (n : Node υ) : Except Errno (Directory υ) :=
  match d.entries name with
  | some _ => .error .alreadyExists
  | none =>
    .ok { d with entries := Function.update d.entries name (some d.nodes.length), nodes := d.nodes ++ [n] }

/-- The node is a file of the user's that nobody else may read or write. -/
def HasFile (d : Directory υ) (me : υ) (i : ℕ) (bytes : Bytes) : Prop :=
  d.nodes[i]? = some ⟨me, false, false, .file bytes⟩

def hide (d : Directory υ) (i : ℕ) : Directory υ :=
  { d with nodes := d.nodes.modify i (fun n ↦ { n with content := .file [] }) }

theorem HasFile.append {d : Directory υ} {me : υ} {i : ℕ} {old : Bytes} (h : d.HasFile me i old)
    (bytes : Bytes) :
    (d.append i bytes).HasFile me i (old ++ bytes) := by
  rw [HasFile, Directory.append, List.getElem?_modify_eq, h]
  rfl

theorem length_append (d : Directory υ) (i : ℕ) (bytes : Bytes) :
    (d.append i bytes).nodes.length = d.nodes.length :=
  List.length_modify ..

variable [DecidableEq υ]

/-- In a sticky directory an entry is removed by the owner of what it names, or of the directory. -/
def mayRemove (d : Directory υ) (u : υ) (i : ℕ) : Bool :=
  !d.sticky || d.owner = u || (d.nodes[i]?.map Node.owner) = some u

def unlink (d : Directory υ) (u : υ) (name : Bytes) : Except Errno (Directory υ) :=
  match d.entries name with
  | none => .error .noEntry
  | some i =>
    if !d.mayRemove u i then .error .notPermitted
    else if d.isDirectory i then .error .isDirectory
    else .ok (d.drop name)

def rmdir (d : Directory υ) (u : υ) (name : Bytes) : Except Errno (Directory υ) :=
  match d.entries name with
  | none => .error .noEntry
  | some i =>
    if !d.mayRemove u i then .error .notPermitted
    else if !d.isDirectory i then .error .notDirectory
    else if !d.isEmpty i then .error .notEmpty
    else .ok (d.drop name)

def rename (d : Directory υ) (u : υ) (old new : Bytes) : Option (Directory υ) :=
  match d.entries old with
  | none => none
  | some i =>
    if d.mayRemove u i && (d.entries new).all (d.mayRemove u) then
      some { d with entries := Function.update (Function.update d.entries old none) new (some i) }
    else none

/-- A change of a node that its owner may always make, and anyone else where the bit allows it. -/
def change (d : Directory υ) (u : υ) (i : ℕ) (allowed : Node υ → Bool) (f : Node υ → Node υ) :
    Option (Directory υ) :=
  match d.nodes[i]? with
  | none => none
  | some n => if n.owner = u || allowed n then some { d with nodes := d.nodes.set i (f n) } else none

def foreign (d : Directory υ) (u : υ) : Foreign → Option (Directory υ)
  | .create name r w content => (d.create name ⟨u, r, w, content⟩).toOption
  | .link name i =>
    if (d.entries name).isNone && i < d.nodes.length then
      some { d with entries := Function.update d.entries name (some i) }
    else none
  | .unlink name => (d.unlink u name).toOption
  | .rmdir name => (d.rmdir u name).toOption
  | .rename old new => d.rename u old new
  | .write i bytes => d.change u i Node.othersWrite (fun n ↦ n.setFile bytes)
  | .chmod i r w => d.change u i (fun _ ↦ false) (fun n ↦ { n with othersRead := r, othersWrite := w })

section Foreign

variable {d e : Directory υ} {u me : υ} {a : Foreign} {i : ℕ} {bytes : Bytes}

/-- What can come of another user's call. -/
inductive ForeignStep (d : Directory υ) (u : υ) : Directory υ → Prop where
  | create {name : Bytes} (n : Node υ) : d.entries name = none → ForeignStep d u
      { d with entries := Function.update d.entries name (some d.nodes.length), nodes := d.nodes ++ [n] }
  | link {name : Bytes} (i : ℕ) : d.entries name = none → ForeignStep d u
      { d with entries := Function.update d.entries name (some i) }
  | drop {name : Bytes} {i : ℕ} : d.entries name = some i → d.mayRemove u i = true →
    ForeignStep d u (d.drop name)
  | rename {old new : Bytes} {i : ℕ} : d.entries old = some i → d.mayRemove u i = true →
      (∀ j, d.entries new = some j → d.mayRemove u j = true) → ForeignStep d u
      { d with entries := Function.update (Function.update d.entries old none) new (some i) }
  | change {i : ℕ} {n : Node υ} (n' : Node υ) : d.nodes[i]? = some n → n.owner = u ∨ n.othersWrite = true →
      ForeignStep d u { d with nodes := d.nodes.set i n' }

omit [DecidableEq υ] in
theorem create_ok {name : Bytes} {n : Node υ} (h : d.create name n = .ok e) : d.entries name = none ∧
    e = { d with
      entries := Function.update d.entries name (some d.nodes.length), nodes := d.nodes ++ [n] } := by
  unfold create at h
  split at h
  · cases h
  · rename_i hnone
    exact ⟨hnone, (Except.ok.inj h).symm⟩

theorem unlink_ok {name : Bytes} (h : d.unlink u name = .ok e) :
    ∃ i, d.entries name = some i ∧ d.mayRemove u i = true ∧ e = d.drop name := by
  unfold unlink at h
  split at h
  · cases h
  · rename_i i hi
    split_ifs at h with hmay hdir
    exact ⟨i, hi, by simpa using hmay, (Except.ok.inj h).symm⟩

theorem rmdir_ok {name : Bytes} (h : d.rmdir u name = .ok e) :
    ∃ i, d.entries name = some i ∧ d.mayRemove u i = true ∧ e = d.drop name := by
  unfold rmdir at h
  split at h
  · cases h
  · rename_i i hi
    split_ifs at h with hmay hdir hempty
    exact ⟨i, hi, by simpa using hmay, (Except.ok.inj h).symm⟩

theorem change_inv {allowed : Node υ → Bool} {f : Node υ → Node υ} (h : d.change u i allowed f = some e) :
    ∃ n, d.nodes[i]? = some n ∧ (n.owner = u ∨ allowed n = true) ∧
      e = { d with nodes := d.nodes.set i (f n) } := by
  unfold change at h
  split at h
  · cases h
  · rename_i n hn
    split_ifs at h with hmay
    exact ⟨n, hn, by simpa using hmay, (Option.some.inj h).symm⟩

theorem toOption_ok {α ε : Type} {x : Except ε α} {y : α} (h : x.toOption = some y) : x = .ok y := by
  cases x with
  | ok z => exact congrArg Except.ok (Option.some.inj h)
  | error e => cases h

theorem foreign_inv (h : d.foreign u a = some e) : ForeignStep d u e := by
  cases a with
  | create name r w content =>
    obtain ⟨hnone, rfl⟩ := create_ok (toOption_ok h)
    exact .create _ hnone
  | link name j =>
    simp only [foreign] at h
    split_ifs at h with hlink
    cases h
    simp only [Bool.and_eq_true, Option.isNone_iff_eq_none] at hlink
    exact .link j hlink.1
  | unlink name =>
    obtain ⟨j, hj, hmay, rfl⟩ := unlink_ok (toOption_ok h)
    exact .drop hj hmay
  | rmdir name =>
    obtain ⟨j, hj, hmay, rfl⟩ := rmdir_ok (toOption_ok h)
    exact .drop hj hmay
  | rename old new =>
    simp only [foreign, rename] at h
    split at h
    · cases h
    · rename_i j hj
      split_ifs at h with hmay
      cases h
      rw [Bool.and_eq_true, Option.all_eq_true] at hmay
      exact .rename hj hmay.1 hmay.2
  | write j bytes =>
    obtain ⟨n, hn, hmay, rfl⟩ := change_inv h
    exact .change _ hn hmay
  | chmod j r w =>
    obtain ⟨n, hn, hmay, rfl⟩ := change_inv h
    exact .change _ hn (hmay.imp id nofun)

theorem ForeignStep.length_le (h : ForeignStep d u e) : d.nodes.length ≤ e.nodes.length := by
  cases h with
  | create n => simp
  | change n' => simp
  | link | drop | rename => exact le_rfl

theorem ForeignStep.owner (h : ForeignStep d u e) : e.owner = d.owner ∧ e.sticky = d.sticky := by
  cases h <;> exact ⟨rfl, rfl⟩

/-- Nobody else changes a private file. -/
theorem ForeignStep.hasFile (h : ForeignStep d u e) (hu : u ≠ me) (hfile : d.HasFile me i bytes) :
    e.HasFile me i bytes := by
  obtain ⟨hlt, -⟩ := List.getElem?_eq_some_iff.mp hfile
  cases h with
  | create n => exact (List.getElem?_append_left hlt).trans hfile
  | link | drop | rename => exact hfile
  | @change j n n' hn hmay =>
    have hne : j ≠ i := by
      rintro rfl
      cases hn.symm.trans hfile
      exact hmay.elim (fun h ↦ hu h.symm) nofun
    exact (List.getElem?_set_ne hne).trans hfile

theorem mayRemove_hasFile (hsticky : d.sticky = true) (howner : d.owner ≠ u) (hu : u ≠ me)
    (hfile : d.HasFile me i bytes) : d.mayRemove u i = false := by
  rw [HasFile] at hfile
  simp [mayRemove, hsticky, howner, hfile, hu.symm]

/-- In a sticky directory nobody else moves the name away from a private file. -/
theorem ForeignStep.entries (h : ForeignStep d u e) {name : Bytes} (hsticky : d.sticky = true)
    (howner : d.owner ≠ u) (hu : u ≠ me) (hfile : d.HasFile me i bytes) (hname : d.entries name = some i) :
    e.entries name = some i := by
  have hkept := mayRemove_hasFile hsticky howner hu hfile
  have hupdate {name' : Bytes} (hne : name' ≠ name) (v : Option ℕ) :
      Function.update d.entries name' v name = some i := by
    rw [Function.update_of_ne hne.symm]
    exact hname
  cases h with
  | change => exact hname
  | @create name' n hnone | @link name' j hnone =>
    refine hupdate ?_ _
    rintro rfl
    rw [hnone] at hname
    cases hname
  | @drop name' j hj hmay =>
    refine hupdate ?_ _
    rintro rfl
    cases hj.symm.trans hname
    rw [hkept] at hmay
    cases hmay
  | @rename old new j hj hmay hnew =>
    have hold : old ≠ name := by
      rintro rfl
      cases hj.symm.trans hname
      rw [hkept] at hmay
      cases hmay
    have hne : new ≠ name := by
      rintro rfl
      have hover := hnew i hname
      rw [hkept] at hover
      cases hover
    exact (Function.update_of_ne hne.symm _ _).trans (hupdate hold _)

end Foreign

section Hide

variable {d : Directory υ} {u me : υ} {i : ℕ} {bytes : Bytes}

omit [DecidableEq υ] in
theorem nodes_hide (d : Directory υ) (i j : ℕ) : (d.hide i).nodes[j]? =
    if i = j then d.nodes[j]?.map (fun n ↦ { n with content := .file [] }) else d.nodes[j]? := by
  rw [hide, List.getElem?_modify]
  split_ifs <;> simp_all

omit [DecidableEq υ] in
theorem nodes_hide_ne {j : ℕ} (h : i ≠ j) : (d.hide i).nodes[j]? = d.nodes[j]? := by rw [nodes_hide, if_neg h]

omit [DecidableEq υ] in
theorem length_hide (d : Directory υ) (i : ℕ) : (d.hide i).nodes.length = d.nodes.length :=
  List.length_modify ..

omit [DecidableEq υ] in
theorem entries_hide (d : Directory υ) (i : ℕ) : (d.hide i).entries = d.entries := rfl

theorem mayRemove_hide (d : Directory υ) (i : ℕ) (u : υ) (j : ℕ) :
    (d.hide i).mayRemove u j = d.mayRemove u j := by
  have howner : (d.hide i).nodes[j]?.map Node.owner = d.nodes[j]?.map Node.owner := by
    rw [nodes_hide]
    split_ifs
    · rw [Option.map_map]
      rfl
    · rfl
  rw [mayRemove, mayRemove, howner]
  rfl

omit [DecidableEq υ] in
theorem append_hide (d : Directory υ) (i : ℕ) (bytes : Bytes) : (d.append i bytes).hide i = d.hide i := by
  rw [hide, hide, append]
  congr 1
  rw [List.modify_modify_eq]
  congr 1
  funext n
  dsimp only [Function.comp_apply]
  split <;> rfl

variable (hfile : d.HasFile me i bytes)
include hfile

omit [DecidableEq υ] in
theorem isDirectory_hide (j : ℕ) : (d.hide i).isDirectory j = d.isDirectory j := by
  rw [isDirectory, isDirectory, nodes_hide]
  split_ifs with hij
  · subst hij
    rw [hfile]
    rfl
  · rfl

omit [DecidableEq υ] in
theorem isEmpty_hide (j : ℕ) : (d.hide i).isEmpty j = d.isEmpty j := by
  rw [isEmpty, isEmpty, nodes_hide]
  split_ifs with hij
  · subst hij
    rw [hfile]
    rfl
  · rfl

theorem unlink_hide (name : Bytes) :
    ((d.hide i).unlink u name).toOption = (d.unlink u name).toOption.map (·.hide i) := by
  rw [unlink, unlink, entries_hide]
  cases d.entries name with
  | none => rfl
  | some j =>
    simp only [mayRemove_hide, isDirectory_hide hfile]
    split_ifs <;> rfl

theorem rmdir_hide (name : Bytes) :
    ((d.hide i).rmdir u name).toOption = (d.rmdir u name).toOption.map (·.hide i) := by
  rw [rmdir, rmdir, entries_hide]
  cases d.entries name with
  | none => rfl
  | some j =>
    simp only [mayRemove_hide, isDirectory_hide hfile, isEmpty_hide hfile]
    split_ifs <;> rfl

theorem change_hide {j : ℕ} (hu : u ≠ me) {allowed : Node υ → Bool}
    (hallowed : ∀ b, allowed ⟨me, false, false, .file b⟩ = false) (f : Node υ → Node υ) :
    (d.hide i).change u j allowed f = (d.change u j allowed f).map (·.hide i) := by
  by_cases hij : i = j
  · subst hij
    rw [change, change, nodes_hide, if_pos rfl, hfile]
    simp [hu.symm, hallowed]
  · rw [change, change, nodes_hide_ne hij]
    cases hn : d.nodes[j]? with
    | none => rfl
    | some n =>
      dsimp only
      split_ifs with hmay
      · rw [Option.map_some, Option.some_inj, hide, hide]
        congr 1
        apply List.ext_getElem?
        intro k
        simp only [List.getElem?_set, List.getElem?_modify, List.length_modify]
        split_ifs <;> simp_all
      · rfl

omit [DecidableEq υ] in
theorem create_hide (name : Bytes) (n : Node υ) :
    ((d.hide i).create name n).toOption = (d.create name n).toOption.map (·.hide i) := by
  obtain ⟨hlt, -⟩ := List.getElem?_eq_some_iff.mp hfile
  rw [create, create, entries_hide]
  cases d.entries name with
  | some j => rfl
  | none =>
    have hnodes : (d.nodes ++ [n]).modify i (fun n ↦ { n with content := .file [] }) =
        d.nodes.modify i (fun n ↦ { n with content := .file [] }) ++ [n] := by
      apply List.ext_getElem?
      intro k
      grind
    simp only [Except.toOption, Option.map_some, hide, List.length_modify, hnodes]

/-- What others can do, and what comes of it, does not depend on what a private file holds. -/
theorem foreign_hide (hu : u ≠ me) (a : Foreign) :
    (d.hide i).foreign u a = (d.foreign u a).map (·.hide i) := by
  cases a with
  | create name r w content => exact create_hide hfile name _
  | link name j =>
    simp only [foreign, length_hide, entries_hide]
    split_ifs <;> rfl
  | unlink name => exact unlink_hide hfile name
  | rmdir name => exact rmdir_hide hfile name
  | rename old new =>
    have hmay : (d.hide i).mayRemove u = d.mayRemove u := funext (mayRemove_hide d i u)
    simp only [foreign, rename, hmay, entries_hide]
    cases d.entries old with
    | none => rfl
    | some j =>
      dsimp only
      split_ifs <;> rfl
  | write j b => exact change_hide hfile hu (fun _ ↦ rfl) _
  | chmod j r w => exact change_hide hfile hu (fun _ ↦ rfl) _

end Hide

end Directory

end OtlpCollectorOidc.FileSystem

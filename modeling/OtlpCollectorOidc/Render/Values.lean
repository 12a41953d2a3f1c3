import OtlpCollectorOidc.Lib.Occurrences
import OtlpCollectorOidc.Lib.Url

namespace OtlpCollectorOidc.Render

open Text

structure KeyValue where
  key : Bytes
  value : Bytes
  deriving DecidableEq

/-- Where an environment variable holds a list of pairs: no key is empty and
none stands twice. -/
structure KeyValueList where
  pairs : List KeyValue
  nodup : (pairs.map KeyValue.key).Nodup
  key_ne : ∀ kv ∈ pairs, kv.key ≠ []

inductive PairError where
  | notKeyValue (n : ℕ)
  | malformedEncoding (n : ℕ)
  deriving DecidableEq

def PairError.error : PairError → Bytes
  | .notKeyValue n => ofString "pair " ++ ofString (toString n) ++ ofString " is not key=value"
  | .malformedEncoding n =>
    ofString "pair " ++ ofString (toString n) ++ ofString " has a malformed percent-encoding"

/-- Replaces the value of the pair's key in place, or appends the pair. -/
def setPair (kv : KeyValue) : List KeyValue → List KeyValue
  | [] => [kv]
  | x :: xs => if x.key = kv.key then kv :: xs else x :: setPair kv xs

theorem setPair_eq (kv : KeyValue) (xs : List KeyValue) :
    setPair kv xs = Occurrences.put KeyValue.key kv xs := by
  induction xs with
  | nil => rfl
  | cons x xs ih => rw [setPair, Occurrences.put, ih]

theorem mem_setPair {kv x : KeyValue} {xs : List KeyValue} (h : x ∈ setPair kv xs) : x = kv ∨ x ∈ xs := by
  rw [setPair_eq] at h
  exact Occurrences.mem_of_mem_put h

namespace KeyValueList

def empty : KeyValueList := ⟨[], List.nodup_nil, fun _ h ↦ (nomatch h)⟩

def set (l : KeyValueList) (kv : KeyValue) (h : kv.key ≠ []) : KeyValueList where
  pairs := setPair kv l.pairs
  nodup := by
    rw [setPair_eq]
    exact Occurrences.nodup_put kv l.nodup
  key_ne := by
    intro x hx
    obtain rfl | hx := mem_setPair hx
    · exact h
    · exact l.key_ne x hx

theorem pairs_set (l : KeyValueList) (kv : KeyValue) (h : kv.key ≠ []) :
    (l.set kv h).pairs = Occurrences.put KeyValue.key kv l.pairs := setPair_eq kv l.pairs

/-- One item of the list, the `n`th, into the pairs before it. A blank item is skipped. -/
def addItem (l : KeyValueList) (n : ℕ) (item : Bytes) : Except PairError KeyValueList :=
  if trimSpace item = [] then .ok l
  else match cut 0x3D item with
    | none => .error (.notKeyValue n)
    | some (k, v) =>
      if h : trimSpace k = [] then .error (.notKeyValue n)
      else match Url.unescape .path (trimSpace v) with
        | none => .error (.malformedEncoding n)
        | some value => .ok (l.set ⟨trimSpace k, value⟩ h)

def addItems (l : KeyValueList) (n : ℕ) : List Bytes → Except PairError KeyValueList
  | [] => .ok l
  | item :: items =>
    match l.addItem n item with
    | .error e => .error e
    | .ok l' => l'.addItems (n + 1) items

def unmarshalText (text : Bytes) : Except PairError KeyValueList := empty.addItems 1 (text.splitOn 0x2C)

def occurrence (item : Bytes) : Option (Bytes × Bytes) :=
  if trimSpace item = [] then none else (cut 0x3D item).map (fun p ↦ (trimSpace p.1, trimSpace p.2))

theorem addItem_eq_ok {l l' : KeyValueList} {n : ℕ} {item : Bytes} (h : l.addItem n item = .ok l') :
    occurrence item = none ∧ l' = l ∨
    ∃ key v value, ∃ hkey : key ≠ [], occurrence item = some (key, v) ∧ Url.unescape .path v = some value ∧
      l' = l.set ⟨key, value⟩ hkey ∧ ∃ before ∈ item.splitOn 0x3D, key = trimSpace before := by
  unfold addItem at h
  unfold occurrence
  split_ifs at h ⊢ with hblank
  · cases h
    exact Or.inl ⟨rfl, rfl⟩
  · split at h
    · cases h
    · rename_i k v hcut
      split_ifs at h with hkey
      split at h
      · cases h
      · rename_i value hvalue
        cases h
        exact Or.inr ⟨_, _, value, hkey, by rw [hcut]; rfl, hvalue, rfl, k, mem_splitOn_of_cut hcut, rfl⟩

/-- Every key is the trimmed text before an equals sign. -/
theorem forall_key_addItems {P : Bytes → Prop} {l l' : KeyValueList} {n : ℕ} {items : List Bytes}
    (hitems : ∀ item ∈ items, ∀ before ∈ item.splitOn 0x3D, P (trimSpace before))
    (hl : ∀ kv ∈ l.pairs, P kv.key) (h : l.addItems n items = .ok l') : ∀ kv ∈ l'.pairs, P kv.key := by
  induction items generalizing l n with
  | nil =>
    cases h
    exact hl
  | cons item items ih =>
    rw [addItems] at h
    split at h
    · cases h
    · rename_i l₁ hadd
      refine ih (fun x hx ↦ hitems x (List.mem_cons_of_mem _ hx)) ?_ h
      obtain ⟨_, rfl⟩ | ⟨key, v, value, hkey, _, _, rfl, before, hbefore, rfl⟩ := addItem_eq_ok hadd
      · exact hl
      · intro kv hkv
        obtain rfl | hkv := mem_setPair hkv
        · exact hitems item List.mem_cons_self before hbefore
        · exact hl kv hkv

/-- The keys of a well-formed text are well-formed. -/
theorem valid_key {text : Bytes} (ht : Valid text) {l : KeyValueList} (h : unmarshalText text = .ok l) :
    ∀ kv ∈ l.pairs, Valid kv.key := by
  refine forall_key_addItems ?_ (by simp [empty]) h
  intro item hitem before hbefore
  have hvalid : Valid item := ht.splitOn (c := ',') rfl (by decide) hitem
  have hbefore : Valid before := hvalid.splitOn (c := '=') rfl (by decide) hbefore
  exact hbefore.trimSpace

end KeyValueList

end OtlpCollectorOidc.Render

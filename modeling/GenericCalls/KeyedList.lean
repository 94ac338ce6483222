/-! # Keyed lists in insertion order

A finite map that remembers the order in which its keys were first put. Putting a key again replaces
its value in place; the order of the keys never changes otherwise. -/

namespace GenericCalls

universe u v w

/-- Values under distinct keys, in the order in which the keys were first put. -/
structure KeyedList (κ : Type u) (ν : Type v) where
  entries : List (κ × ν)
  distinct : (entries.map Prod.fst).Nodup

namespace KeyedList

variable {κ : Type u} {ν : Type v} [DecidableEq κ]

/-! ### Entries -/

def lookup (k : κ) : List (κ × ν) → Option ν
  | [] => none
  | (j, x) :: rest => if j = k then some x else lookup k rest

/-- The entries with `x` under `k`: in place of the old value, or at the end. -/
def putEntry (k : κ) (x : ν) : List (κ × ν) → List (κ × ν)
  | [] => [(k, x)]
  | (j, y) :: rest => if j = k then (j, x) :: rest else (j, y) :: putEntry k x rest

theorem fst_putEntry (k : κ) (x : ν) (l : List (κ × ν)) :
    (putEntry k x l).map Prod.fst =
      if k ∈ l.map Prod.fst then l.map Prod.fst else l.map Prod.fst ++ [k] := by
  induction l with
  | nil => simp [putEntry]
  | cons e rest ih =>
    obtain ⟨j, y⟩ := e
    by_cases h : j = k
    · simp [putEntry, h]
    · have h' : k ≠ j := fun e => h e.symm
      by_cases hk : k ∈ rest.map Prod.fst
      · simp only [putEntry, h, if_false, List.map_cons, ih, hk, if_true, List.mem_cons, or_true]
      · simp only [putEntry, h, if_false, List.map_cons, ih, hk, List.mem_cons, h', or_self,
          List.cons_append]

theorem nodup_putEntry {k : κ} {x : ν} {l : List (κ × ν)} (h : (l.map Prod.fst).Nodup) :
    ((putEntry k x l).map Prod.fst).Nodup := by
  rw [fst_putEntry]
  split
  · exact h
  · rename_i hk
    refine List.nodup_append.2 ⟨h, by simp, ?_⟩
    intro a ha b hb
    simp only [List.mem_singleton] at hb
    exact fun e => hk (hb ▸ e ▸ ha)

theorem lookup_putEntry (k j : κ) (x : ν) (l : List (κ × ν)) :
    lookup j (putEntry k x l) = if k = j then some x else lookup j l := by
  induction l with
  | nil => simp [putEntry, lookup]
  | cons e rest ih =>
    obtain ⟨i, y⟩ := e
    by_cases hi : i = k
    · subst hi
      by_cases hj : i = j <;> simp [putEntry, lookup, hj]
    · by_cases hk : k = j
      · subst hk
        simp [putEntry, lookup, hi, ih]
      · simp [putEntry, lookup, hi, ih, hk]

theorem lookup_eq_none_iff {k : κ} {l : List (κ × ν)} :
    lookup k l = none ↔ k ∉ l.map Prod.fst := by
  induction l with
  | nil => simp [lookup]
  | cons e rest ih =>
    obtain ⟨j, y⟩ := e
    by_cases h : j = k
    · simp [lookup, h]
    · have h' : k ≠ j := fun e => h e.symm
      simp only [lookup, h, if_false, ih, List.map_cons, List.mem_cons, h', false_or]

theorem mem_iff_lookup_eq_some {k : κ} {x : ν} {l : List (κ × ν)} (h : (l.map Prod.fst).Nodup) :
    (k, x) ∈ l ↔ lookup k l = some x := by
  induction l with
  | nil => simp [lookup]
  | cons e rest ih =>
    obtain ⟨j, y⟩ := e
    simp only [List.map_cons, List.nodup_cons] at h
    have ih := ih h.2
    by_cases hj : j = k
    · subst hj
      have hk : (j, x) ∉ rest := fun hm => h.1 (List.mem_map.2 ⟨(j, x), hm, rfl⟩)
      simp [lookup, hk, eq_comm]
    · have hk : ¬k = j := fun e => hj e.symm
      simp [lookup, hj, hk, ih]

theorem lookup_map {ω : Type w} (f : ν → ω) (k : κ) (l : List (κ × ν)) :
    lookup k (l.map fun e => (e.1, f e.2)) = (lookup k l).map f := by
  induction l with
  | nil => rfl
  | cons e rest ih =>
    rw [List.map_cons, lookup, lookup, ih]
    split <;> rfl

/-! ### Operations -/

def empty : KeyedList κ ν := ⟨[], List.nodup_nil⟩

instance : EmptyCollection (KeyedList κ ν) := ⟨empty⟩

instance : Inhabited (KeyedList κ ν) := ⟨empty⟩

def get? (m : KeyedList κ ν) (k : κ) : Option ν := lookup k m.entries

def contains (m : KeyedList κ ν) (k : κ) : Bool := (m.get? k).isSome

/-- The list with `x` under `k`; a new key goes to the end. -/
def put (m : KeyedList κ ν) (k : κ) (x : ν) : KeyedList κ ν :=
  ⟨putEntry k x m.entries, nodup_putEntry m.distinct⟩

/-- The list with the value under `k` changed, if there is one. -/
def modify (m : KeyedList κ ν) (k : κ) (f : ν → ν) : KeyedList κ ν :=
  match m.get? k with
  | none => m
  | some x => m.put k (f x)

def putAll (m : KeyedList κ ν) (entries : List (κ × ν)) : KeyedList κ ν :=
  entries.foldl (fun m e => m.put e.1 e.2) m

def ofList (entries : List (κ × ν)) : KeyedList κ ν := empty.putAll entries

def keys (m : KeyedList κ ν) : List κ := m.entries.map Prod.fst

def size (m : KeyedList κ ν) : Nat := m.entries.length

def isEmpty (m : KeyedList κ ν) : Bool := m.entries.isEmpty

/-- Whether two lists hold the same values, as `eqv` sees them, under the same keys in any order. -/
def agrees (eqv : ν → ν → Bool) (a b : KeyedList κ ν) : Bool :=
  a.size == b.size && a.entries.all fun e =>
    match b.get? e.1 with
    | some y => eqv e.2 y
    | none => false

/-! ### The view by keys -/

@[simp] theorem get?_empty (k : κ) : (empty : KeyedList κ ν).get? k = none := rfl

theorem get?_put (m : KeyedList κ ν) (k j : κ) (x : ν) :
    (m.put k x).get? j = if k = j then some x else m.get? j :=
  lookup_putEntry k j x m.entries

theorem get?_putAll (m : KeyedList κ ν) {l : List (κ × ν)} (h : (l.map Prod.fst).Nodup) (k : κ) :
    (m.putAll l).get? k = (lookup k l).or (m.get? k) := by
  unfold putAll
  induction l generalizing m with
  | nil => rfl
  | cons e rest ih =>
    obtain ⟨j, y⟩ := e
    simp only [List.map_cons, List.nodup_cons] at h
    rw [List.foldl_cons, ih (m.put j y) h.2, get?_put]
    by_cases hj : j = k
    · subst hj
      have hn : lookup j rest = none := lookup_eq_none_iff.2 h.1
      simp [lookup, hn]
    · simp [lookup, hj]

theorem mem_entries_iff {m : KeyedList κ ν} {k : κ} {x : ν} :
    (k, x) ∈ m.entries ↔ m.get? k = some x :=
  mem_iff_lookup_eq_some m.distinct

theorem keys_put (m : KeyedList κ ν) (k : κ) (x : ν) :
    (m.put k x).keys = if k ∈ m.keys then m.keys else m.keys ++ [k] :=
  fst_putEntry k x m.entries

theorem get?_eq_none_iff {m : KeyedList κ ν} {k : κ} : m.get? k = none ↔ k ∉ m.keys :=
  lookup_eq_none_iff

theorem get?_modify (m : KeyedList κ ν) (k j : κ) (f : ν → ν) :
    (m.modify k f).get? j = if k = j then (m.get? j).map f else m.get? j := by
  unfold modify
  split
  · rename_i hk
    split
    · rename_i hkj
      rw [← hkj, hk, Option.map_none]
    · rfl
  · rename_i x hk
    rw [get?_put]
    split
    · rename_i hkj
      rw [← hkj, hk, Option.map_some]
    · rfl

omit [DecidableEq κ] in
theorem keys_nodup (m : KeyedList κ ν) : m.keys.Nodup := m.distinct

omit [DecidableEq κ] in
@[simp] theorem length_keys (m : KeyedList κ ν) : m.keys.length = m.size := by
  simp [keys, size]

theorem size_put_of_new {m : KeyedList κ ν} {k : κ} (h : m.get? k = none) (x : ν) :
    (m.put k x).size = m.size + 1 := by
  rw [← length_keys, keys_put, if_neg (get?_eq_none_iff.1 h), List.length_append, length_keys]
  rfl

theorem size_modify (m : KeyedList κ ν) (k : κ) (f : ν → ν) : (m.modify k f).size = m.size := by
  unfold modify
  split
  · rfl
  · rename_i x hk
    have hmem : k ∈ m.keys := Decidable.of_not_not fun hmem => by
      rw [get?_eq_none_iff.2 hmem] at hk
      cases hk
    rw [← length_keys, keys_put, if_pos hmem, length_keys]

end KeyedList

end GenericCalls

import GenericCalls.Lub

/-! # The classes that two types have in common

The classes reached from a type are collected once each, and the order of classes in an intersection
is total, so that sorting does not depend on how the classes came: the nearest common classes are
the same list for both orders of the two types. -/

namespace GenericCalls.Store

variable {s : Store}

/-! ### Collecting -/

theorem nodup_reverse {cs : List ClassId} (h : cs.Nodup) : cs.reverse.Nodup :=
  List.pairwise_reverse.2 (h.imp Ne.symm)

theorem not_mem_of_dropWhile {queue found rest : List ClassId} {c : ClassId}
    (h : queue.dropWhile (found.contains ·) = c :: rest) : c ∉ found := by
  have hhead := List.head?_dropWhile_not (found.contains ·) queue
  rw [h] at hhead
  simpa using hhead

theorem collectClasses_nodup (n : Nat) (queue found : List ClassId) (hfound : found.Nodup) :
    (s.collectClasses n queue found).Nodup := by
  induction n generalizing queue found with
  | zero => exact nodup_reverse hfound
  | succ n ih =>
    simp only [collectClasses]
    split
    · exact nodup_reverse hfound
    · rename_i hc
      exact ih _ _ (List.nodup_cons.2 ⟨not_mem_of_dropWhile hc, hfound⟩)

theorem reachable_nodup (starts : List ClassId) : (s.reachable starts).Nodup :=
  collectClasses_nodup _ _ _ List.nodup_nil

/-! ### Sorting -/

theorem classBefore_eq (s : Store) (c d : ClassId) :
    s.classBefore c d =
      if (s.class? c).any ClassDecl.isInterface = (s.class? d).any ClassDecl.isInterface then
        decide (c ≤ d)
      else (s.class? d).any ClassDecl.isInterface := by
  unfold classBefore
  dsimp only
  cases (s.class? c).any ClassDecl.isInterface <;> cases (s.class? d).any ClassDecl.isInterface <;>
    rfl

theorem classBefore_total (s : Store) (c d : ClassId) :
    s.classBefore c d = true ∨ s.classBefore d c = true := by
  have hle := Nat.le_total c d
  rw [classBefore_eq, classBefore_eq]
  cases (s.class? c).any ClassDecl.isInterface <;>
    cases (s.class? d).any ClassDecl.isInterface <;> simp [hle]

theorem classBefore_antisymm {c d : ClassId} (hcd : s.classBefore c d = true)
    (hdc : s.classBefore d c = true) : c = d := by
  rw [classBefore_eq] at hcd hdc
  cases hc : (s.class? c).any ClassDecl.isInterface <;>
    cases hd : (s.class? d).any ClassDecl.isInterface <;>
    simp [hc, hd] at hcd hdc <;> exact Nat.le_antisymm hcd hdc

theorem classBefore_trans {c d e : ClassId} (hcd : s.classBefore c d = true)
    (hde : s.classBefore d e = true) : s.classBefore c e = true := by
  rw [classBefore_eq] at hcd hde ⊢
  cases hc : (s.class? c).any ClassDecl.isInterface <;>
    cases hd : (s.class? d).any ClassDecl.isInterface <;>
    cases he : (s.class? e).any ClassDecl.isInterface <;>
    simp [hc, hd, he] at hcd hde ⊢ <;> exact Nat.le_trans hcd hde

theorem insertClass_comm (c d : ClassId) (cs : List ClassId) :
    s.insertClass c (s.insertClass d cs) = s.insertClass d (s.insertClass c cs) := by
  have htotal := s.classBefore_total
  induction cs with
  | nil =>
    rcases htotal c d with h | h
    · by_cases h' : s.classBefore d c = true
      · rw [classBefore_antisymm h h']
      · simp [insertClass, h, h']
    · by_cases h' : s.classBefore c d = true
      · rw [classBefore_antisymm h h']
      · simp [insertClass, h, h']
  | cons e cs ih =>
    by_cases hce : s.classBefore c e = true <;> by_cases hde : s.classBefore d e = true
    · rcases htotal c d with h | h
      · by_cases h' : s.classBefore d c = true
        · rw [classBefore_antisymm h h']
        · simp [insertClass, hce, hde, h, h']
      · by_cases h' : s.classBefore c d = true
        · rw [classBefore_antisymm h' h]
        · simp [insertClass, hce, hde, h, h']
    · have hdc : ¬s.classBefore d c = true := fun h => hde (classBefore_trans h hce)
      simp [insertClass, hce, hde, hdc]
    · have hcd : ¬s.classBefore c d = true := fun h => hce (classBefore_trans h hde)
      simp [insertClass, hce, hde, hcd]
    · simp [insertClass, hce, hde, ih]

theorem sortClasses_eq_of_perm {cs ds : List ClassId} (h : cs.Perm ds) :
    s.sortClasses cs = s.sortClasses ds := by
  unfold sortClasses
  exact h.foldr_eq' (fun c _ d _ es => insertClass_comm d c es) []

theorem mem_insertClass {c d : ClassId} {cs : List ClassId} :
    c ∈ s.insertClass d cs ↔ c = d ∨ c ∈ cs := by
  induction cs with
  | nil => simp [insertClass]
  | cons e cs ih =>
    simp only [insertClass]
    split
    · rw [List.mem_cons]
    · rw [List.mem_cons, ih, List.mem_cons]
      exact or_left_comm

theorem mem_sortClasses {c : ClassId} {cs : List ClassId} : c ∈ s.sortClasses cs ↔ c ∈ cs := by
  induction cs with
  | nil => exact Iff.rfl
  | cons d cs ih =>
    show c ∈ s.insertClass d (s.sortClasses cs) ↔ c ∈ d :: cs
    rw [mem_insertClass, ih, List.mem_cons]

/-! ### Common classes -/

theorem minimalClasses_perm {cs ds : List ClassId} (h : cs.Perm ds) :
    (s.minimalClasses cs).Perm (s.minimalClasses ds) := by
  unfold minimalClasses
  have hany (c : ClassId) : (cs.any fun d => d != c && s.isSubclass d c) =
      ds.any fun d => d != c && s.isSubclass d c := by
    rw [Bool.eq_iff_iff, List.any_eq_true, List.any_eq_true]
    simp only [h.mem_iff]
  simp only [hany]
  exact h.filter _

theorem commonClasses_comm (a b : Ty) : s.commonClasses a b = s.commonClasses b a := by
  unfold commonClasses
  refine sortClasses_eq_of_perm (minimalClasses_perm ?_)
  rw [List.perm_ext_iff_of_nodup ((reachable_nodup _).filter _) ((reachable_nodup _).filter _)]
  intro c
  simp only [List.mem_filter, List.contains_iff_mem]
  exact and_comm

theorem mem_reachable_of_mem_commonClasses {a b : Ty} {c : ClassId}
    (hc : c ∈ s.commonClasses a b) :
    c ∈ s.reachable (rootClasses a) ∧ c ∈ s.reachable (rootClasses b) := by
  unfold commonClasses minimalClasses at hc
  have hmin := mem_sortClasses.1 hc
  have hboth := (List.mem_filter.1 hmin).1
  simpa only [List.mem_filter, List.contains_iff_mem] using hboth

end GenericCalls.Store

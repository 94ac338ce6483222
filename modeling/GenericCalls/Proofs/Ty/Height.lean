import GenericCalls.Proofs.Ty.Substitution

/-! # The height and the spine of a type

The height of a type is how deep constructors are nested in it. Its spine are the types that are met
in it on the way inwards, through components of arrays, bounds of wildcards and first components of
intersections; there are no more of them than the type is high. -/

namespace GenericCalls

namespace Ty

/-! ### Height -/

mutual
def height : Ty → Nat
  | .prim _ => 1
  | .array t => height t + 1
  | .cls _ args => heightAll args + 1
  | .param _ => 1
  | .wild _ none => 1
  | .wild _ (some b) => height b + 1
  | .captured _ _ none => 1
  | .captured _ _ (some b) => height b + 1
  | .inter ts => heightAll ts + 1
  | .null => 1
  | .unknown => 1
def heightAll : List Ty → Nat
  | [] => 0
  | t :: ts => max (height t) (heightAll ts)
end

variable {t u : Ty} {ts us : List Ty} {n : Nat}

theorem height_pos (t : Ty) : 0 < height t := by
  cases t with
  | wild k b => cases b <;> simp [height]
  | captured i k b => cases b <;> simp [height]
  | _ => simp [height]

theorem heightAll_le_iff : heightAll ts ≤ n ↔ ∀ t ∈ ts, height t ≤ n := by
  induction ts with
  | nil => simp [heightAll]
  | cons t ts ih => rw [heightAll, Nat.max_le, ih, List.forall_mem_cons]

theorem height_le_heightAll (h : t ∈ ts) : height t ≤ heightAll ts :=
  heightAll_le_iff.1 (Nat.le_refl _) t h

theorem height_le_size (t : Ty) : height t ≤ t.size := by
  have hall {ts : List Ty} (h : ∀ t ∈ ts, height t ≤ t.size) : heightAll ts ≤ sizeAll ts :=
    heightAll_le_iff.2 fun t ht => Nat.le_trans (h t ht) (size_le_sizeAll ht)
  induction t using Ty.induct with
  | array t ih => exact Nat.succ_le_succ ih
  | cls c args ih => exact Nat.succ_le_succ (hall ih)
  | wild k b ih => exact Nat.succ_le_succ ih
  | captured i k b ih => exact Nat.succ_le_succ ih
  | inter ts ih => exact Nat.succ_le_succ (hall ih)
  | _ => exact Nat.le_refl 1

theorem heightAll_le_sizeAll (ts : List Ty) : heightAll ts ≤ sizeAll ts :=
  heightAll_le_iff.2 fun t ht => Nat.le_trans (height_le_size t) (size_le_sizeAll ht)

/-! ### Spine -/

/-- A type, its component, bound or first component, and so on inwards. -/
def spine : Ty → List Ty
  | .array t => .array t :: spine t
  | .wild k (some b) => .wild k (some b) :: spine b
  | .captured i k (some b) => .captured i k (some b) :: spine b
  | .inter (t :: ts) => .inter (t :: ts) :: spine t
  | t => [t]

theorem mem_spine_self (t : Ty) : t ∈ spine t := by
  unfold spine
  split <;> exact List.mem_cons_self

theorem length_spine_le_height (t : Ty) : (spine t).length ≤ height t := by
  fun_induction spine t with
  | case1 t ih => exact Nat.succ_le_succ ih
  | case2 k b ih => exact Nat.succ_le_succ ih
  | case3 i k b ih => exact Nat.succ_le_succ ih
  | case4 t ts ih =>
    have hhead := height_le_heightAll (List.mem_cons_self (a := t) (l := ts))
    rw [List.length_cons, height]
    omega
  | case5 t => exact height_pos t

theorem spine_subset (h : u ∈ spine t) : spine u ⊆ spine t := by
  fun_induction spine t with
  | case5 t =>
    rw [List.mem_singleton.1 h]
    unfold spine
    split <;> simp_all
  | _ =>
    rename_i ih
    rcases List.mem_cons.1 h with rfl | h
    · exact List.Subset.refl _
    · exact List.subset_cons_of_subset _ (ih h)

end Ty

/-! ### Substitution -/

namespace Substitution

open Ty

variable {f : ParamId → Option Binding} {n : Nat}

theorem height_rewrap {k : WildcardKind} {b : Option Ty} (h : ∀ t, b = some t → height t ≤ n) :
    height (rewrap k b) ≤ n + 1 := by
  have hopen : height anything ≤ n + 1 := Nat.succ_le_succ (Nat.zero_le n)
  unfold rewrap
  split
  · exact hopen
  · split
    · exact Nat.le_succ_of_le (h _ rfl)
    · exact hopen
  · exact Nat.succ_le_succ (h _ rfl)

theorem heightAll_applyAll_of {ts us : List Ty}
    (ih : ∀ t ∈ ts, ∀ u, apply f t = some u → height u ≤ height t + n)
    (h : applyAll f ts = some us) : heightAll us ≤ heightAll ts + n := by
  refine heightAll_le_iff.2 fun u hu => ?_
  obtain ⟨t, ht, happly⟩ := exists_mem_of_forall₂ (applyAll_eq_some_iff.1 h).flip hu
  exact Nat.le_trans (ih t ht u happly) (Nat.add_le_add_right (height_le_heightAll ht) n)

/-- A type grows at most by the height of what is put in. -/
theorem height_apply (hf : ∀ p t, f p = some (.bound t) → height t ≤ n) (t : Ty) :
    ∀ u, apply f t = some u → height u ≤ height t + n := by
  induction t using Ty.induct with
  | array t ih =>
    intro u h
    obtain ⟨v, hv, rfl⟩ := Option.map_eq_some_iff.1 h
    have hle := ih v hv
    simp only [height]
    omega
  | cls c args ih =>
    intro u h
    cases h
    cases hus : applyAll f args with
    | none => exact Nat.le_add_right_of_le (Nat.succ_le_succ (Nat.zero_le _))
    | some us =>
      have hle := heightAll_applyAll_of ih hus
      simp only [height, Option.getD_some]
      omega
  | param p =>
    intro u h
    rw [apply] at h
    split at h
    · rename_i v hv
      cases h
      exact Nat.le_add_left_of_le (hf p u hv)
    · cases h
    · cases h
      exact Nat.le_add_right 1 n
  | wild k b ih =>
    intro u h
    cases h
    have hle := height_rewrap (k := k) ih
    simp only [height]
    omega
  | inter ts ih =>
    intro u h
    obtain ⟨us, hus, rfl⟩ := Option.map_eq_some_iff.1 h
    have hle := heightAll_applyAll_of ih hus
    simp only [height]
    omega
  | _ =>
    intro u h
    cases h
    simp [height, anything]

theorem heightAll_applyAll (hf : ∀ p t, f p = some (.bound t) → height t ≤ n) {ts us : List Ty}
    (h : applyAll f ts = some us) : heightAll us ≤ heightAll ts + n :=
  heightAll_applyAll_of (fun t _ => height_apply hf t) h

end Substitution

end GenericCalls

import GenericCalls.Proofs.Store.Views
import GenericCalls.Proofs.Ty.Height
import Mathlib.Algebra.Order.BigOperators.Group.List
import Mathlib.Algebra.Order.Ring.Nat

/-! # How deep declared types are nested

The weight of a store bounds how deep constructors are nested in declared bounds and supertypes. The
type arguments of a supertype are nested at most so much deeper than those of the class type, and
those of an ancestor deeper by so much for each class that the search may visit. -/

namespace GenericCalls.Store

open Ty

variable {s : Store}

/-! ### Weight -/

theorem weight_eq_sum (s : Store) : s.weight = (s.decls.toList.map declWeight).sum := by
  unfold weight
  rw [← Array.foldl_toList, List.sum_eq_foldl, List.foldl_map]

theorem mem_decls {i : Nat} {d : Decl} (h : s.decl? i = some d) : d ∈ s.decls.toList := by
  cases i with
  | zero => cases h
  | succ i => exact Array.mem_toList_iff.2 (Array.mem_of_getElem? h)

theorem declWeight_le_weight {d : Decl} (h : d ∈ s.decls.toList) : declWeight d ≤ s.weight := by
  rw [weight_eq_sum]
  exact List.single_le_sum (fun _ _ => Nat.zero_le _) _ (List.mem_map_of_mem h)

theorem exists_decl_of_bounds {p : ParamId} (h : s.bounds p ≠ []) :
    ∃ d : ParamDecl, d.bounds = s.bounds p ∧ s.decl? p = some (.param d) := by
  unfold bounds at h ⊢
  cases hd : s.param? p with
  | none =>
    rw [hd] at h
    exact absurd rfl h
  | some d => exact ⟨d, rfl, param?_eq_some_iff.1 hd⟩

theorem sizeAll_bounds_lt {p : ParamId} (h : s.bounds p ≠ []) :
    sizeAll (s.bounds p) < s.weight := by
  obtain ⟨d, hbounds, hd⟩ := exists_decl_of_bounds h
  rw [← hbounds]
  exact declWeight_le_weight (mem_decls hd)

/-! ### Bounds -/

theorem height_wildcardUpper (s : Store) (k : WildcardKind) (b : Option Ty) :
    height (s.wildcardUpper ⟨k, b⟩) ≤ height (.wild k b) := by
  cases k with
  | upper =>
    cases b with
    | none => exact Nat.le_refl 1
    | some b => exact Nat.le_succ b.height
  | lower => exact height_pos (.wild .lower b)

theorem height_upperBound (s : Store) (t : Ty) :
    height (s.upperBound t) ≤ max (height t) s.weight := by
  cases t with
  | param p =>
    cases hb : s.bounds p with
    | nil =>
      rw [upperBound_of_nil hb]
      exact Nat.le_max_left _ _
    | cons b bs =>
      have hlt := sizeAll_bounds_lt (hb ▸ List.cons_ne_nil b bs)
      refine Nat.le_trans ?_ (Nat.le_max_right _ _)
      cases bs with
      | nil =>
        have hle := size_le_sizeAll (hb ▸ List.mem_cons_self : b ∈ s.bounds p)
        rw [upperBound_of_single hb]
        exact Nat.le_trans (height_le_size b) (Nat.le_of_lt (Nat.lt_of_le_of_lt hle hlt))
      | cons b' bs =>
        rw [upperBound_of_several hb, ← hb]
        exact Nat.lt_of_le_of_lt (heightAll_le_sizeAll _) hlt
  | wild k b => exact Nat.le_trans (s.height_wildcardUpper k b) (Nat.le_max_left _ _)
  | captured i k b =>
    have hsame : height (.captured i k b) = height (.wild k b) := by cases b <;> rfl
    rw [hsame]
    exact Nat.le_trans (s.height_wildcardUpper k b) (Nat.le_max_left _ _)
  | _ => exact Nat.le_max_left _ _

/-! ### Supertypes -/

theorem heightAll_superWith (d : ClassDecl) (args : List Ty) (t : ClassTy) :
    heightAll (superWith d args t).args ≤ heightAll t.args + heightAll args := by
  by_cases hbare : args = [] ∨ args.length ≠ d.params.length
  · rw [superWith_of_bare t hbare]
    exact Nat.zero_le _
  · rw [not_or, ne_eq, Decidable.not_not] at hbare
    obtain ⟨us, hus, _, hsuper⟩ := superWith_of_args t hbare.1 hbare.2
    rw [hsuper]
    refine Substitution.heightAll_applyAll (fun p u hu => ?_) hus
    obtain ⟨_, v, hv, heq⟩ := Substitution.get?_ofArgs hu
    cases heq
    exact height_le_heightAll hv

theorem heightAll_directSupertypes {c t : ClassTy} (ht : t ∈ s.directSupertypes c) :
    heightAll t.args ≤ heightAll c.args + s.weight := by
  cases hd : s.class? c.id with
  | none =>
    simp only [directSupertypes, hd] at ht
    cases ht
  | some d =>
    rw [directSupertypes_eq hd] at ht
    obtain ⟨u, hu, rfl⟩ := List.mem_map.1 ht
    have hwith := heightAll_superWith d c.args u
    have hdeclared := declWeight_le_weight (mem_decls (class?_eq_some_iff.1 hd))
    have hsize : sizeAll u.args + 1 ≤ sizeAll (d.supertypes.map ClassTy.toTy) :=
      size_le_sizeAll (List.mem_map_of_mem (f := ClassTy.toTy) hu)
    have hheight := heightAll_le_sizeAll u.args
    rw [declWeight] at hdeclared
    omega

theorem heightAll_searchAncestor {d : ClassId} {n h : Nat} {queue : List ClassTy}
    {visited : List ClassId} {args : List Ty} (hqueue : ∀ c ∈ queue, heightAll c.args ≤ h)
    (hfound : s.searchAncestor d n queue visited = some args) :
    heightAll args ≤ h + n * s.weight := by
  induction n generalizing h queue visited with
  | zero => cases hfound
  | succ n ih =>
    cases queue with
    | nil => cases hfound
    | cons c queue =>
      have hsuper (t : ClassTy) (ht : t ∈ s.directSupertypes c) :
          heightAll t.args ≤ h + s.weight :=
        Nat.le_trans (heightAll_directSupertypes ht)
          (Nat.add_le_add_right (hqueue c List.mem_cons_self) s.weight)
      rw [Nat.succ_mul, Nat.add_comm _ s.weight, ← Nat.add_assoc]
      rw [searchAncestor] at hfound
      cases hsight : sight d (s.directSupertypes c) visited [] with
      | found found =>
        rw [hsight] at hfound
        cases hfound
        obtain ⟨t, ht, _, rfl⟩ := sight_found hsight
        exact Nat.le_add_right_of_le (hsuper t ht)
      | full =>
        rw [hsight] at hfound
        cases hfound
      | missed noted fresh =>
        rw [hsight] at hfound
        obtain ⟨new, hfresh, hnoted⟩ := sight_missed hsight
        refine ih (fun t ht => ?_) hfound
        rcases List.mem_append.1 ht with ht | ht
        · exact Nat.le_add_right_of_le (hqueue t (List.mem_cons_of_mem c ht))
        · rw [hfresh] at ht
          exact hsuper t (hnoted.among t ht)

theorem heightAll_ancestorArgs {c : ClassTy} {d : ClassId} {args : List Ty}
    (h : s.ancestorArgs c d = some args) :
    heightAll args ≤ heightAll c.args + Limits.hierarchy * s.weight := by
  unfold ancestorArgs at h
  split at h
  · cases h
    exact Nat.le_add_right _ _
  · split at h
    · cases h
      exact Nat.zero_le _
    · refine heightAll_searchAncestor (fun e he => ?_) h
      rw [List.mem_singleton.1 he]

end GenericCalls.Store

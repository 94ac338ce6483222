import GenericCalls.Proofs.Assignable.Object
import GenericCalls.Proofs.Lub.Calls

/-! # Common classes accept both types

A class that two types have in common accepts each of them when its type arguments hold those with
which it is seen from the type. The least type argument that holds two of them does hold both, as
long as the least upper bound of their bounds is one. -/

namespace GenericCalls.Store

open Ty

variable {s : Store} {boxing : Bool} {a b c x y z : Ty} {d : Nat}

/-! ### Views -/

theorem exists_argsAt_of_any {c : ClassId} {args ts : List Ty}
    (h : argsAtAny s c ts = some args) : ∃ t ∈ ts, argsAt s c t = some args := by
  induction ts with
  | nil => cases h
  | cons t ts ih =>
    rw [argsAtAny] at h
    cases ht : argsAt s c t with
    | none =>
      rw [ht] at h
      obtain ⟨u, hu, hargs⟩ := ih h
      exact ⟨u, List.mem_cons_of_mem t hu, hargs⟩
    | some found =>
      rw [ht] at h
      cases h
      exact ⟨t, List.mem_cons_self, ht⟩

theorem argsAtAny_isSome {c : ClassId} {t : Ty} {ts : List Ty} (ht : t ∈ ts)
    (h : (argsAt s c t).isSome = true) : (argsAtAny s c ts).isSome = true := by
  induction ts with
  | nil => cases ht
  | cons u ts ih =>
    rw [argsAtAny]
    cases hu : argsAt s c u with
    | some found => rfl
    | none =>
      rcases List.mem_cons.1 ht with rfl | ht
      · rw [hu] at h
        cases h
      · exact ih ht

theorem exists_rootClasses_of_all {d : ClassId} {ts : List Ty} (h : d ∈ rootClassesAll ts) :
    ∃ t ∈ ts, d ∈ rootClasses t := by
  induction ts with
  | nil => cases h
  | cons t ts ih =>
    rw [rootClassesAll, List.mem_append] at h
    rcases h with h | h
    · exact ⟨t, List.mem_cons_self, h⟩
    · obtain ⟨u, hu, h⟩ := ih h
      exact ⟨u, List.mem_cons_of_mem t hu, h⟩

theorem Regular.argsAt_isSome (hs : s.Regular) {c d : ClassId} (t : Ty) (hd : d ∈ rootClasses t)
    (hreach : d = c ∨ Ancestor s d c) : (argsAt s c t).isSome = true := by
  induction t using Ty.induct with
  | cls e brgs _ =>
    have hd : d = e := List.mem_singleton.1 hd
    subst hd
    rcases hreach with rfl | hanc
    · rw [argsAt, ancestorArgs_self]
      rfl
    · exact ancestorArgs_isSome (c := ⟨d, brgs⟩) (hs.few d) hanc
  | inter ts ih =>
    obtain ⟨t, ht, hdt⟩ := exists_rootClasses_of_all hd
    exact argsAtAny_isSome ht (ih t ht hdt)
  | _ => cases hd

theorem Regular.regular_argsAt (hs : s.Regular) {c : ClassId} {args : List Ty} (t : Ty)
    (ht : t.regular = true) (h : argsAt s c t = some args) : regularAll args = true := by
  induction t using Ty.induct with
  | cls d brgs _ => exact hs.regular_ancestorArgs (c := ⟨d, brgs⟩) ht h
  | inter ts ih =>
    obtain ⟨u, hu, hargs⟩ := exists_argsAt_of_any h
    exact ih u hu ((regular_inter_iff.1 ht).2 u hu).2 hargs
  | _ => cases h

/-! ### Containment -/

/-- The type argument `arg` falls under the type argument `want`. -/
structure Under (s : Store) (boxing : Bool) (want arg : Ty) : Prop where
  met : s.demand want arg ≠ .never
  checked : ∀ t u, s.demand want arg = .check t u → Accepts s boxing t u

theorem under_of_always (h : s.demand x y = .always) : Under s boxing x y := by
  refine ⟨?_, fun t u htu => ?_⟩
  · rw [h]
    exact nofun
  · rw [h] at htu
    cases htu

theorem under_of_check {t u : Ty} (h : s.demand x y = .check t u) (htu : Accepts s boxing t u) :
    Under s boxing x y := by
  refine ⟨?_, fun t' u' h' => ?_⟩
  · rw [h]
    exact nofun
  · rw [h] at h'
    cases h'
    exact htu

theorem under_anything (x : Ty) : Under s boxing Ty.anything x := under_of_always rfl

theorem under_same (hx : x.regular = true) (h : (x == y) = true) : Under s boxing x y := by
  cases x with
  | wild k b =>
    cases b with
    | none => exact under_of_always rfl
    | some b =>
      have hknown := isUnknown_of_regular (regular_wild_iff.1 hx).2
      cases y with
      | wild l b' =>
        cases b' with
        | none => cases h
        | some b' =>
          rw [Ty.beq_eq_same, Ty.same, Bool.and_eq_true, beq_iff_eq] at h
          obtain ⟨rfl, h⟩ := h
          have h : (b == b') = true := h
          cases k with
          | upper => exact under_of_check rfl (accepts_same hknown h)
          | lower =>
            rw [isUnknown_eq_of_beq h] at hknown
            rw [Ty.beq_comm] at h
            exact under_of_check rfl (accepts_same hknown h)
      | _ => cases h
  | _ => exact under_of_always (by rw [demand_of_not_wild rfl, h]; rfl)

theorem under_above {p q : Ty} (hx : lowerBound? x = some p) (h : Accepts s boxing p q) :
    Under s boxing (Ty.above q) x := by
  have hdemand : s.demand (Ty.above q) x = .check p q := by
    unfold lowerBound? at hx
    obtain ⟨w, hw, hp⟩ := Option.bind_eq_some_iff.1 hx
    simp only [demand, Ty.above, hw, hp]
  exact under_of_check hdemand h

/-- What accepts the upper bound of a type argument, and the argument itself where it is a type
parameter, holds the argument as `?` with that bound does. -/
theorem under_extending {m : Ty} (hknown : x.isUnknown = false)
    (hm : Accepts s boxing m (s.upperBound x))
    (hobject : s.upperBound x = s.object → s.isObject m = true)
    (hparam : ∀ p, x = .param p → Accepts s boxing m x) :
    Under s boxing (Ty.extending m) x := by
  have hopen {w : Wildcard} (hw : x.openWildcard? = some w)
      (hupper : s.upperBound x = s.wildcardUpper w) : Under s boxing (Ty.extending m) x := by
    cases hb : w.extendsBound? with
    | some b =>
      rw [hupper, wildcardUpper, hb, Option.getD_some] at hm
      exact under_of_check (by simp only [demand, Ty.extending, hw, hb]) hm
    | none =>
      rw [wildcardUpper, hb] at hupper
      exact under_of_always (by simp only [demand, Ty.extending, hw, hb, hobject hupper, if_true])
  cases x with
  | wild k b => exact hopen rfl rfl
  | captured i k b => exact hopen rfl rfl
  | param p => exact under_of_check rfl (hparam p rfl)
  | unknown => cases hknown
  | _ => exact under_of_check rfl hm

/-! ### Classes -/

theorem accepts_of_argsAt {c : ClassId} {args lifted : List Ty} (t : Ty)
    (h : argsAt s c t = some lifted) (hunder : ∀ p ∈ args.zip lifted, Under s boxing p.1 p.2) :
    Accepts s boxing (.cls c args) t := by
  induction t using Ty.induct with
  | cls d brgs _ =>
    exact accepts_iff.2 (.args h (fun p hp => (hunder p hp).met) fun p hp => (hunder p hp).checked)
  | inter ts ih =>
    obtain ⟨u, hu, hargs⟩ := exists_argsAt_of_any h
    exact accepts_iff.2 (.component rfl hu (ih u hu hargs))
  | _ => cases h

theorem Regular.accepts_raw (hs : s.Regular) {c : ClassId} {t : Ty} (hsolid : t.solid = true)
    (hregular : t.regular = true) (hc : c ∈ s.reachable (rootClasses t)) :
    Accepts s boxing (.raw c) t := by
  have hobject (h : c = s.root) : Accepts s boxing (.raw c) t := by
    refine hs.accepts_of_isObject ?_ (primFree_of_solid hsolid) hregular
    rw [h]
    exact beq_self_eq_true s.root
  obtain ⟨d, hd, hreach⟩ := mem_reachable hc
  rcases hd with hd | rfl
  · have hsome := hs.argsAt_isSome t hd hreach
    obtain ⟨lifted, hlifted⟩ := Option.isSome_iff_exists.1 hsome
    refine accepts_of_argsAt t hlifted fun p hp => ?_
    rw [List.zip_nil_left] at hp
    cases hp
  · rcases hreach with h | h
    · exact hobject h.symm
    · exact absurd h (not_ancestor_of_supers_eq_nil hs.rootBare)

end GenericCalls.Store

import GenericCalls.Lub
import GenericCalls.Proofs.Assignable.Solid

/-! # What the root class accepts

In a regular store the root class accepts every type that is not around a primitive one, because
bounds end somewhere and what they end in inherits from it. A solid target that accepts the root
class therefore accepts whatever a chain of bounds stands for, also where the chain is too long to
be followed. -/

namespace GenericCalls.Store

open Ty

variable {s : Store} {boxing : Bool} {t u : Ty}

theorem accepts_object_of_bounds (ht : s.isObject t = true) (u : Ty) (hfree : u.primFree = true)
    (hregular : u.regular = true)
    (hbounds : ∀ p ∈ u.exposed, ∀ b ∈ s.bounds p, Accepts s boxing t b) :
    Accepts s boxing t u := by
  obtain ⟨args, rfl⟩ := eq_cls_of_isObject ht
  have hobject : Accepts s boxing (.cls s.root args) s.object := accepts_iff.2 .object
  induction u using Ty.induct with
  | array u _ => exact accepts_iff.2 .arrayObject
  | cls c us _ => exact accepts_iff.2 .object
  | param p =>
    cases hp : s.bounds p with
    | nil => exact accepts_iff.2 (.unbounded hp ht)
    | cons b bs =>
      have hb : b ∈ s.bounds p := hp ▸ List.mem_cons_self
      exact accepts_iff.2 (.param rfl hb (hbounds p List.mem_cons_self b hb))
  | wildOpen k =>
    refine accepts_iff.2 (.upper rfl rfl ?_)
    cases k <;> exact hobject
  | wild k b ih =>
    cases k with
    | lower => exact accepts_iff.2 (.upper rfl rfl hobject)
    | upper =>
      obtain ⟨hbound, hbregular⟩ := regular_wild_iff.1 hregular
      have hbfree := hbound.resolve_left (by simpa [primFree] using hfree)
      exact accepts_iff.2 (.upper rfl rfl (ih hbfree hbregular hbounds))
  | capturedOpen i k =>
    refine accepts_iff.2 (.upper rfl rfl ?_)
    cases k <;> exact hobject
  | captured i k b ih =>
    obtain ⟨hbfree, hbregular⟩ := regular_captured_iff.1 hregular
    cases k with
    | upper => exact accepts_iff.2 (.upper rfl rfl (ih hbfree hbregular hbounds))
    | lower => exact accepts_iff.2 (.upper rfl rfl hobject)
  | inter us ih =>
    obtain ⟨hne, hus⟩ := regular_inter_iff.1 hregular
    obtain ⟨u, hu⟩ := List.exists_mem_of_ne_nil us hne
    have hufree := primFree_of_solid (hus u hu).1
    refine accepts_iff.2 (.component rfl hu (ih u hu hufree (hus u hu).2 ?_))
    exact fun p hp => hbounds p (mem_exposedAll hu hp)
  | prim p => cases hfree
  | null => exact accepts_iff.2 (.null rfl)
  | unknown => cases hregular

theorem Regular.accepts_of_isObject (hs : s.Regular) (ht : s.isObject t = true)
    (hfree : u.primFree = true) (hregular : u.regular = true) : Accepts s boxing t u := by
  -- Induction on a type ends at its parameters, whose bounds are no part of it.
  have hbounds (p : ParamId) : ∀ b ∈ s.bounds p, Accepts s boxing t b := by
    induction p using hs.wellFounded.induction with
    | _ p ih =>
      intro b hb
      obtain ⟨hbsolid, hbregular⟩ := hs.bounds p b hb
      exact accepts_object_of_bounds ht b (primFree_of_solid hbsolid) hbregular fun q hq =>
        ih q ⟨b, hb, hq⟩
  exact accepts_object_of_bounds ht u hfree hregular fun p _ => hbounds p

theorem Regular.accepts_of_accepts_object (hs : s.Regular) (t : Ty) (ht : t.solid = true)
    (h : Accepts s boxing t s.object) (hfree : u.primFree = true) (hregular : u.regular = true) :
    Accepts s boxing t u := by
  have hplain {t : Ty} (hplain : t.isPlain = true) (h : Accepts s boxing t s.object) :
      Accepts s boxing t u :=
    hs.accepts_of_isObject (isObject_of_accepts_object hs.rootBare hplain h) hfree hregular
  have href := isReference_of_primFree hfree hregular
  induction t using Ty.induct with
  | array t _ => exact hplain rfl h
  | cls c args _ => exact hplain rfl h
  | param p => exact hplain rfl h
  | capturedOpen i k => exact hplain rfl h
  | captured i k b _ => exact hplain rfl h
  | wildOpen k => exact accepts_iff.2 (.anything href)
  | wild k b ih =>
    cases k with
    | lower => cases ht
    | upper =>
      have hb := accepts_bound_of_wild (lifts_of_solid hs.rootBare b ht) ht h
      exact accepts_iff.2 (.bound href (ih ht hb))
  | inter ts ih =>
    have hts := solidAll_iff.1 ht
    have hlifts : ∀ t ∈ ts, Lifts s boxing t := fun t ht => lifts_of_solid hs.rootBare t (hts t ht)
    have heach := accepts_each_of_inter hlifts hts h
    exact accepts_iff.2 (.each href fun t ht => ih t ht (hts t ht) (heach t ht))
  | prim p => cases ht
  | null => cases ht
  | unknown => cases ht

/-! ### Chains of bounds -/

theorem concreteBound_of_not_variable (h : t.isVariable = false) (n : Nat) :
    s.concreteBound (n + 1) t = t := by
  simp only [concreteBound, h, Bool.false_eq_true, if_false]

theorem concreteBound_of_variable (h : t.isVariable = true) (n : Nat) :
    s.concreteBound (n + 1) t = s.concreteBound n (s.upperBound t) := by
  simp only [concreteBound, h, if_true]

theorem isVariable_concreteBound (s : Store) (n : Nat) (t : Ty) :
    (s.concreteBound n t).isVariable = false := by
  induction n generalizing t with
  | zero => rfl
  | succ n ih =>
    cases ht : t.isVariable with
    | false => rw [concreteBound_of_not_variable ht, ht]
    | true => rw [concreteBound_of_variable ht, ih]

theorem Regular.regular_concreteBound (hs : s.Regular) (n : Nat) (h : t.regular = true) :
    (s.concreteBound n t).regular = true := by
  induction n generalizing t with
  | zero => rfl
  | succ n ih =>
    cases ht : t.isVariable with
    | false => rwa [concreteBound_of_not_variable ht]
    | true =>
      rw [concreteBound_of_variable ht]
      exact ih (hs.regular_upperBound h)

theorem Regular.joinable_concreteBound (hs : s.Regular) (n : Nat) (h : t.regular = true) :
    (s.concreteBound n t).joinable = true := by
  refine joinable_of_regular (hs.regular_concreteBound n h) ?_
  have hvar := isVariable_concreteBound s n t
  cases hc : s.concreteBound n t <;> first | rfl | (rw [hc] at hvar; cases hvar)

theorem Regular.primFree_concreteBound (hs : s.Regular) (n : Nat) (hfree : t.primFree = true)
    (h : t.regular = true) : (s.concreteBound n t).primFree = true := by
  induction n generalizing t with
  | zero => rfl
  | succ n ih =>
    cases ht : t.isVariable with
    | false => rwa [concreteBound_of_not_variable ht]
    | true =>
      rw [concreteBound_of_variable ht]
      exact ih (hs.primFree_upperBound h hfree) (hs.regular_upperBound h)

theorem Regular.accepts_of_concreteBound_primFree (hs : s.Regular) (ht : t.solid = true) (n : Nat)
    (hfree : u.primFree = true) (hregular : u.regular = true)
    (h : Accepts s boxing t (s.concreteBound n u)) : Accepts s boxing t u := by
  induction n generalizing u with
  | zero => exact hs.accepts_of_accepts_object t ht h hfree hregular
  | succ n ih =>
    cases hu : u.isVariable with
    | false => rwa [concreteBound_of_not_variable hu] at h
    | true =>
      rw [concreteBound_of_variable hu] at h
      have hbound := ih (hs.primFree_upperBound hregular hfree) (hs.regular_upperBound hregular) h
      exact (lifts_of_solid hs.rootBare t ht).bound u hu hbound

/-- A solid target that accepts what a chain of bounds ends in accepts where the chain begins. -/
theorem Regular.accepts_of_concreteBound (hs : s.Regular) (ht : t.solid = true) (n : Nat)
    (hregular : u.regular = true) (h : Accepts s boxing t (s.concreteBound (n + 2) u)) :
    Accepts s boxing t u := by
  cases hu : u.isVariable with
  | false => rwa [concreteBound_of_not_variable hu] at h
  | true =>
    rw [concreteBound_of_variable hu] at h
    have hbregular := hs.regular_upperBound hregular
    have hbound : Accepts s boxing t (s.upperBound u) := by
      rcases hs.isPrim_or_primFree_upperBound hregular with hprim | hfree
      · have hvar : (s.upperBound u).isVariable = false := by
          cases hb : s.upperBound u <;> first | rfl | (rw [hb] at hprim; cases hprim)
        rwa [concreteBound_of_not_variable hvar] at h
      · exact hs.accepts_of_concreteBound_primFree ht (n + 1) hfree hbregular h
    exact (lifts_of_solid hs.rootBare t ht).bound u hu hbound

end GenericCalls.Store

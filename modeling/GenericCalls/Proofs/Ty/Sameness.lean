import GenericCalls.Proofs.Ty.Substitution

/-! # Sameness under substitution

Types that are the same may differ in the bounds of captured wildcards. Sameness is still
transitive, and substitution keeps it, since it leaves captured wildcards as they are: bindings that
are the same make types that are the same. -/

namespace GenericCalls

namespace Ty

variable {ts us vs : List Ty}

/-! ### Lists -/

theorem sameAll_iff_forall₂ :
    sameAll ts us = true ↔ List.Forall₂ (fun t u => same t u = true) ts us := by
  induction ts generalizing us with
  | nil => cases us <;> simp [sameAll]
  | cons t ts ih => cases us <;> simp [sameAll, ih]

theorem length_eq_of_sameAll (h : sameAll ts us = true) : ts.length = us.length :=
  (sameAll_iff_forall₂.1 h).length_eq

theorem isPrim_eq_of_same {t u : Ty} (h : same t u = true) : t.isPrim = u.isPrim := by
  cases t with
  | wild k b => cases u <;> first | rfl | (cases b <;> cases h)
  | _ => cases u <;> first | rfl | cases h

/-! ### Transitivity -/

theorem same_trans {t u v : Ty} (h : same t u = true) (h' : same u v = true) : same t v = true := by
  have hall {ts us vs : List Ty}
      (ih : ∀ t ∈ ts, ∀ {u v}, same t u = true → same u v = true → same t v = true)
      (h : sameAll ts us = true) (h' : sameAll us vs = true) : sameAll ts vs = true := by
    induction ts generalizing us vs with
    | nil =>
      cases us with
      | nil => exact h'
      | cons _ _ => cases h
    | cons t ts ihs =>
      cases us with
      | nil => cases h
      | cons u us =>
        cases vs with
        | nil => cases h'
        | cons v vs =>
          rw [sameAll, Bool.and_eq_true] at h h' ⊢
          obtain ⟨iht, ihts⟩ := List.forall_mem_cons.1 ih
          exact ⟨iht h.1 h'.1, ihs ihts h.2 h'.2⟩
  have hcaptured {i : CaptureId} {k : WildcardKind} {b : Option Ty} {u v : Ty}
      (h : same (.captured i k b) u = true) (h' : same u v = true) :
      same (.captured i k b) v = true := by
    cases u with
    | captured j l c =>
      rw [same, beq_iff_eq] at h
      rw [h]
      cases v with
      | captured _ _ _ => exact h'
      | _ => cases h'
    | _ => cases h
  -- A type without parts is the same only as itself, captured wildcards apart.
  induction t using Ty.induct generalizing u v with
  | prim p =>
    cases u with
    | prim q =>
      rw [same, beq_iff_eq] at h
      rwa [h]
    | _ => cases h
  | array t ih =>
    cases u with
    | array u =>
      cases v with
      | array v => exact ih h h'
      | _ => cases h'
    | _ => cases h
  | cls c ts ih =>
    cases u with
    | cls d us =>
      cases v with
      | cls e vs =>
        rw [same, Bool.and_eq_true, beq_iff_eq] at h h' ⊢
        exact ⟨h.1.trans h'.1, hall ih h.2 h'.2⟩
      | _ => cases h'
    | _ => cases h
  | param p =>
    cases u with
    | param q =>
      rw [same, beq_iff_eq] at h
      rwa [h]
    | _ => cases h
  | wildOpen k =>
    cases u with
    | wild l c =>
      cases c with
      | none =>
        rw [same, beq_iff_eq] at h
        rwa [h]
      | some c => cases h
    | _ => cases h
  | wild k b ih =>
    cases u with
    | wild l c =>
      cases c with
      | none => cases h
      | some c =>
        cases v with
        | wild m d =>
          cases d with
          | none => cases h'
          | some d =>
            rw [same, Bool.and_eq_true, beq_iff_eq] at h h' ⊢
            exact ⟨h.1.trans h'.1, ih h.2 h'.2⟩
        | _ => cases h'
    | _ => cases h
  | capturedOpen i k => exact hcaptured h h'
  | captured i k b _ => exact hcaptured h h'
  | inter ts ih =>
    cases u with
    | inter us =>
      cases v with
      | inter vs => exact hall ih h h'
      | _ => cases h'
    | _ => cases h
  | null =>
    cases u with
    | null => exact h'
    | _ => cases h
  | unknown =>
    cases u with
    | unknown => exact h'
    | _ => cases h

theorem sameAll_trans (h : sameAll ts us = true) (h' : sameAll us vs = true) :
    sameAll ts vs = true :=
  same_trans (t := .inter ts) (u := .inter us) (v := .inter vs) h h'

end Ty

/-! ### Substitution -/

namespace Substitution

variable {f g : ParamId → Option Binding}

theorem kind_eq_of_beq {k l : WildcardKind} {b c : Option Ty}
    (h : (Ty.wild k b == .wild l c) = true) : k = l := by
  cases b with
  | none =>
    cases c with
    | none => exact eq_of_beq h
    | some c => cases h
  | some b =>
    cases c with
    | none => cases h
    | some c => exact eq_of_beq (Bool.and_eq_true_iff.1 h).1

theorem same_rewrap (k : WildcardKind) {b c : Option Ty}
    (h : Option.Rel (fun t u => (t == u) = true) b c) :
    (rewrap k b == rewrap k c) = true := by
  cases h with
  | none => rfl
  | @some t u h =>
    cases t with
    | wild l b =>
      cases u with
      | wild m c =>
        obtain rfl := kind_eq_of_beq h
        rw [rewrap, rewrap]
        split
        · exact h
        · rfl
      | _ => cases b <;> cases h
    | _ =>
      cases u with
      | wild m c => cases h
      | _ => exact Bool.and_eq_true_iff.2 ⟨beq_self_eq_true k, h⟩

theorem applyAll_same {ts : List Ty}
    (h : ∀ t ∈ ts, Option.Rel (fun t u => (t == u) = true) (apply f t) (apply g t)) :
    Option.Rel (fun ts us => Ty.sameAll ts us = true) (applyAll f ts) (applyAll g ts) := by
  induction ts with
  | nil => exact .some rfl
  | cons t ts ih =>
    obtain ⟨ht, hts⟩ := List.forall_mem_cons.1 h
    have ih := ih hts
    rw [applyAll, applyAll]
    generalize apply f t = x at ht ⊢
    generalize apply g t = y at ht ⊢
    generalize applyAll f ts = xs at ih ⊢
    generalize applyAll g ts = ys at ih ⊢
    cases ht with
    | none => exact .none
    | some ht =>
      cases ih with
      | none => exact .none
      | some ih => exact .some (Bool.and_eq_true_iff.2 ⟨ht, ih⟩)

theorem apply_same
    (h : ∀ p, Option.Rel (fun b c => Binding.same b c = true) (f p) (g p)) (t : Ty) :
    Option.Rel (fun t u => (t == u) = true) (apply f t) (apply g t) := by
  induction t using Ty.induct with
  | array t ih =>
    rw [apply, apply]
    generalize apply f t = x at ih ⊢
    generalize apply g t = y at ih ⊢
    cases ih with
    | none => exact .none
    | some h => exact .some h
  | cls c args ih =>
    have hargs := applyAll_same ih
    rw [apply, apply]
    generalize applyAll f args = xs at hargs ⊢
    generalize applyAll g args = ys at hargs ⊢
    refine .some (Bool.and_eq_true_iff.2 ⟨beq_self_eq_true c, ?_⟩)
    cases hargs with
    | none => rfl
    | some h => exact h
  | param p =>
    have hp := h p
    rw [apply, apply]
    generalize f p = x at hp ⊢
    generalize g p = y at hp ⊢
    cases hp with
    | none => exact .some (BEq.refl _)
    | @some b c hp =>
      cases b with
      | bound t =>
        cases c with
        | bound u => exact .some hp
        | erased => cases hp
      | erased =>
        cases c with
        | bound u => cases hp
        | erased => exact .none
  | wild k b ih => exact .some (same_rewrap k ih)
  | inter ts ih =>
    have hparts := applyAll_same ih
    rw [apply, apply]
    generalize applyAll f ts = xs at hparts ⊢
    generalize applyAll g ts = ys at hparts ⊢
    cases hparts with
    | none => exact .none
    | some h => exact .some h
  | _ => exact .some (BEq.refl _)

theorem get?_ofArgs_same {args args' : List Ty} (h : Ty.sameAll args args' = true)
    (params : List ParamId) (p : ParamId) :
    Option.Rel (fun b c => Binding.same b c = true) ((ofArgs params args).get? p)
      ((ofArgs params args').get? p) := by
  have hrelated := get?_ofArgs_related (Ty.sameAll_iff_forall₂.1 h) params p
  generalize (ofArgs params args).get? p = b at hrelated ⊢
  generalize (ofArgs params args').get? p = c at hrelated ⊢
  cases hrelated with
  | none => exact .none
  | some hrelated =>
    obtain ⟨t, u, rfl, rfl, htu⟩ := hrelated
    exact .some htu

end Substitution

end GenericCalls

import GenericCalls.Proofs.Ty.Hereditary

/-! # Types that avoid parameters

A type avoids some type parameters when it mentions none of them. It does so when all its parts do,
and substitution brings in only what the bindings mention. -/

namespace GenericCalls

namespace Ty

def Avoids (ps : List ParamId) (t : Ty) : Prop := ∀ p ∈ ps, t.mentions p = false

def AllAvoid (ps : List ParamId) (ts : List Ty) : Prop := ∀ t ∈ ts, t.Avoids ps

variable {p : ParamId} {ps : List ParamId} {t : Ty} {ts : List Ty}

/-! ### Parts -/

theorem mentionsAny_eq_false_iff : mentionsAny p ts = false ↔ ∀ t ∈ ts, t.mentions p = false := by
  simp only [mentionsAny_eq_any, List.any_eq_false, Bool.not_eq_true]

theorem avoids_cls_iff {c : ClassId} : (Ty.cls c ts).Avoids ps ↔ AllAvoid ps ts := by
  constructor
  · exact fun h t ht p hp => mentionsAny_eq_false_iff.1 (h p hp) t ht
  · exact fun h p hp => mentionsAny_eq_false_iff.2 fun t ht => h t ht p hp

theorem avoids_inter_iff : (Ty.inter ts).Avoids ps ↔ AllAvoid ps ts :=
  avoids_cls_iff (c := 0)

theorem avoids_param_iff : (Ty.param p).Avoids ps ↔ p ∉ ps := by
  constructor
  · intro h hp
    have hself : (p == p) = false := h p hp
    rw [beq_self_eq_true] at hself
    cases hself
  · exact fun h q hq => beq_eq_false_iff_ne.2 fun heq => h (heq ▸ hq)

theorem avoids_raw (ps : List ParamId) (c : ClassId) : (Ty.raw c).Avoids ps := fun _ _ => rfl

theorem hereditary_avoids (ps : List ParamId) : Hereditary (Ty.Avoids ps) where
  array := .rfl
  inter := avoids_inter_iff
  unbounded := fun _ _ _ => rfl
  wild := .rfl
  captured := by
    intro i k b
    cases b <;> exact .rfl
  args := avoids_cls_iff.1
  refill := fun _ _ h => avoids_cls_iff.2 h
  raw := fun _ => avoids_raw ps _

/-! ### Captured wildcards -/

mutual
/-- Whether the parameter `p` occurs in a captured wildcard, where substitution does not reach. -/
def frozen (p : ParamId) : Ty → Bool
  | .prim _ => false
  | .array t => frozen p t
  | .cls _ args => frozenAny p args
  | .param _ => false
  | .wild _ none => false
  | .wild _ (some b) => frozen p b
  | .captured _ _ none => false
  | .captured _ _ (some b) => mentions p b
  | .inter ts => frozenAny p ts
  | .null => false
  | .unknown => false
def frozenAny (p : ParamId) : List Ty → Bool
  | [] => false
  | t :: ts => frozen p t || frozenAny p ts
end

theorem frozenAny_eq_any (p : ParamId) (ts : List Ty) : frozenAny p ts = ts.any (frozen p) := by
  induction ts with
  | nil => rfl
  | cons t ts ih => rw [frozenAny, ih, List.any_cons]

/-! ### Checks -/

instance : Decidable (t.Avoids ps) := inferInstanceAs (Decidable (∀ p ∈ ps, _))

instance : Decidable (AllAvoid ps ts) := inferInstanceAs (Decidable (∀ t ∈ ts, _))

end Ty

/-! ### Putting types in -/

namespace Substitution

open Ty

variable {f : ParamId → Option Binding} {p : ParamId} {ps : List ParamId}

/-- The types that a substitution binds parameters to mention none of the parameters `ps`. -/
def Avoids (ps : List ParamId) (σ : Substitution) : Prop :=
  ∀ q t, σ.get? q = some (.bound t) → t.Avoids ps

theorem avoids_empty (ps : List ParamId) : empty.Avoids ps := fun _ _ h => nomatch h

theorem exists_of_mentions_rewrap {k : WildcardKind} {b : Option Ty}
    (h : (rewrap k b).mentions p = true) : ∃ t, b = some t ∧ t.mentions p = true := by
  cases b with
  | none => cases h
  | some t =>
    refine ⟨t, rfl, ?_⟩
    cases t with
    | wild inner b =>
      rw [rewrap] at h
      split at h
      · exact h
      · cases h
    | _ => exact h

/-- What is mentioned after substitution and not brought in by a binding was mentioned before, and
not replaced. -/
theorem mentions_of_apply (hf : ∀ q t, f q = some (.bound t) → t.mentions p = false) (t : Ty) :
    ∀ u, apply f t = some u → u.mentions p = true →
      t.mentions p = true ∧ (f p = none ∨ t.frozen p = true) := by
  have hall {ts us : List Ty}
      (ih : ∀ t ∈ ts, ∀ u, apply f t = some u → u.mentions p = true →
        t.mentions p = true ∧ (f p = none ∨ t.frozen p = true))
      (happly : applyAll f ts = some us) (hus : mentionsAny p us = true) :
      mentionsAny p ts = true ∧ (f p = none ∨ frozenAny p ts = true) := by
    rw [mentionsAny_eq_any, List.any_eq_true] at hus
    obtain ⟨u, hu, hmention⟩ := hus
    obtain ⟨t, ht, htu⟩ := exists_mem_of_forall₂ (applyAll_eq_some_iff.1 happly).flip hu
    obtain ⟨hbefore, hkept⟩ := ih t ht u htu hmention
    rw [mentionsAny_eq_any, frozenAny_eq_any, List.any_eq_true, List.any_eq_true]
    exact ⟨⟨t, ht, hbefore⟩, hkept.imp_right fun h => ⟨t, ht, h⟩⟩
  induction t using Ty.induct with
  | array t ih =>
    intro u hu hmention
    obtain ⟨v, hv, rfl⟩ := Option.map_eq_some_iff.1 hu
    exact ih v hv hmention
  | cls c args ih =>
    intro u hu hmention
    cases hu
    cases hus : applyAll f args with
    | none =>
      rw [hus] at hmention
      cases hmention
    | some us =>
      rw [hus] at hmention
      exact hall ih hus hmention
  | param q =>
    intro u hu hmention
    rw [apply] at hu
    split at hu
    · rename_i v hv
      cases hu
      rw [hf q _ hv] at hmention
      cases hmention
    · cases hu
    · rename_i hq
      cases hu
      have heq : q = p := beq_iff_eq.1 hmention
      exact ⟨hmention, .inl (heq ▸ hq)⟩
  | wild k b ih =>
    intro u hu hmention
    cases hu
    obtain ⟨v, hv, hmention⟩ := exists_of_mentions_rewrap hmention
    exact ih v hv hmention
  | captured i k b _ =>
    -- Substitution leaves captured wildcards as they are.
    intro u hu hmention
    cases hu
    exact ⟨hmention, .inr hmention⟩
  | inter ts ih =>
    intro u hu hmention
    obtain ⟨us, hus, rfl⟩ := Option.map_eq_some_iff.1 hu
    exact hall ih hus hmention
  | _ =>
    intro u hu hmention
    cases hu
    cases hmention

end Substitution

end GenericCalls

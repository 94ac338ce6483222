import GenericCalls.Proofs.Traversal
import GenericCalls.Proofs.Ty.Bounded
import Mathlib.Data.List.Forall2

/-! # What a substitution makes of types

A list of types is filled place by place. A substitution that erases nothing leaves nothing out, and
a type becomes a type parameter only where it was one before. -/

namespace GenericCalls

namespace Substitution

variable {f : ParamId → Option Binding}

/-! ### Place by place -/

theorem applyAll_eq_some_iff {ts us : List Ty} :
    applyAll f ts = some us ↔ List.Forall₂ (fun t u => apply f t = some u) ts us := by
  induction ts generalizing us with
  | nil =>
    rw [applyAll, List.forall₂_nil_left_iff, Option.some_inj, eq_comm]
  | cons t ts ih =>
    rw [List.forall₂_cons_left_iff, applyAll]
    constructor
    · intro h
      split at h
      · rename_i u us' hu hus
        cases h
        exact ⟨u, us', hu, ih.1 hus, rfl⟩
      · cases h
    · rintro ⟨u, us', hu, hus, rfl⟩
      rw [hu, ih.2 hus]

theorem forall₂_applyAll {g : ParamId → Option Binding} {S : Ty → Ty → Prop} {ts us vs : List Ty}
    (hus : applyAll f ts = some us) (hvs : applyAll g ts = some vs)
    (h : ∀ t ∈ ts, ∀ u v, apply f t = some u → apply g t = some v → S u v) :
    List.Forall₂ S us vs := by
  rw [applyAll_eq_some_iff] at hus hvs
  induction hus generalizing vs with
  | nil =>
    cases hvs
    exact .nil
  | cons hu _ ih =>
    cases hvs with
    | cons hv hvs =>
      obtain ⟨ht, hts⟩ := List.forall_mem_cons.1 h
      exact .cons (ht _ _ hu hv) (ih hvs hts)

theorem length_applyAll {ts us : List Ty} (h : applyAll f ts = some us) :
    us.length = ts.length :=
  (applyAll_eq_some_iff.1 h).length_eq.symm

/-! ### Without erasure -/

theorem applyAll_isSome {ts : List Ty} (h : ∀ t ∈ ts, (apply f t).isSome = true) :
    (applyAll f ts).isSome = true := by
  induction ts with
  | nil => rfl
  | cons t ts ih =>
    obtain ⟨ht, hts⟩ := List.forall_mem_cons.1 h
    obtain ⟨u, hu⟩ := Option.isSome_iff_exists.1 ht
    obtain ⟨us, hus⟩ := Option.isSome_iff_exists.1 (ih hts)
    rw [applyAll, hu, hus]
    rfl

theorem apply_isSome (hf : ∀ p, f p ≠ some .erased) (t : Ty) : (apply f t).isSome = true := by
  induction t using Ty.induct with
  | array t ih =>
    rw [apply, Option.isSome_map]
    exact ih
  | param p =>
    rw [apply]
    split
    · rfl
    · rename_i hp
      exact absurd hp (hf p)
    · rfl
  | inter ts ih =>
    rw [apply, Option.isSome_map]
    exact applyAll_isSome ih
  | _ => rfl

theorem get?_ofArgs_ne_erased (params : List ParamId) (args : List Ty) (p : ParamId) :
    (ofArgs params args).get? p ≠ some .erased := by
  intro h
  obtain ⟨_, t, _, ht⟩ := get?_ofArgs h
  cases ht

theorem isSome_get?_putAll {bs : List (ParamId × Binding)} {m : KeyedList ParamId Binding}
    {p : ParamId} (h : (m.get? p).isSome = true ∨ p ∈ bs.map Prod.fst) :
    ((m.putAll bs).get? p).isSome = true := by
  induction bs generalizing m with
  | nil => exact h.resolve_right List.not_mem_nil
  | cons e bs ih =>
    refine ih ?_
    rw [KeyedList.get?_put]
    by_cases he : e.1 = p
    · rw [if_pos he]
      exact .inl rfl
    · rw [if_neg he]
      refine h.imp_right fun hmem => ?_
      exact (List.mem_cons.1 hmem).resolve_left fun heq => he heq.symm

theorem exists_get?_ofArgs {params : List ParamId} {args : List Ty} {p : ParamId}
    (hp : p ∈ params) (hlength : args.length = params.length) :
    ∃ t ∈ args, (ofArgs params args).get? p = some (.bound t) := by
  have hkey : p ∈ (List.zipWith (fun p t => (p, Binding.bound t)) params args).map Prod.fst := by
    have hzip : (params.zip args).map Prod.fst = params := List.map_fst_zip (Nat.le_of_eq hlength.symm)
    rw [List.map_zipWith, ← List.map_uncurry_zip_eq_zipWith]
    exact hzip.symm ▸ hp
  have hsome : ((ofArgs params args).get? p).isSome = true := isSome_get?_putAll (.inr hkey)
  obtain ⟨b, hb⟩ := Option.isSome_iff_exists.1 hsome
  obtain ⟨_, t, ht, rfl⟩ := get?_ofArgs hb
  exact ⟨t, ht, hb⟩

theorem exists_substituteClass_ofArgs (params : List ParamId) (args : List Ty) (t : ClassTy) :
    ∃ u, (ofArgs params args).substituteClass t = some u ∧ u.id = t.id := by
  unfold substituteClass
  split
  · exact ⟨t, rfl, rfl⟩
  · have hsome := applyAll_isSome fun u (_ : u ∈ t.args) =>
      apply_isSome (get?_ofArgs_ne_erased params args) u
    obtain ⟨us, hus⟩ := Option.isSome_iff_exists.1 hsome
    rw [hus]
    exact ⟨⟨t.id, us⟩, rfl, rfl⟩

theorem applyAll_ofArgs (params : List ParamId) (args ts : List Ty) :
    ∃ us, applyAll (ofArgs params args).get? ts = some us :=
  Option.isSome_iff_exists.1 <|
    applyAll_isSome fun t _ => apply_isSome (get?_ofArgs_ne_erased params args) t

/-! ### Parameters that remain -/

theorem apply_eq_param {t : Ty} {p : ParamId} (h : apply f t = some (.param p)) :
    ∃ q, t = .param q ∧ (f q = some (.bound (.param p)) ∨ f q = none ∧ q = p) := by
  cases t with
  | param q =>
    refine ⟨q, rfl, ?_⟩
    rw [apply] at h
    split at h
    · rename_i u hu
      cases h
      exact .inl hu
    · cases h
    · rename_i hq
      cases h
      exact .inr ⟨hq, rfl⟩
  | wild k b =>
    cases b with
    | none => cases h
    | some b =>
      rw [apply, Option.some_inj] at h
      unfold rewrap at h
      split at h
      · cases h
      · split at h <;> cases h
      · cases h
  | array t =>
    obtain ⟨_, _, hu⟩ := Option.map_eq_some_iff.1 h
    cases hu
  | inter ts =>
    obtain ⟨_, _, hu⟩ := Option.map_eq_some_iff.1 h
    cases hu
  | _ => cases h

theorem isWild_of_apply (hf : ∀ p t, f p = some (.bound t) → t.isWild = false) {t u : Ty}
    (h : apply f t = some u) (ht : t.isWild = false) : u.isWild = false := by
  cases t with
  | param q =>
    rw [apply] at h
    split at h
    · rename_i v hv
      cases h
      exact hf q _ hv
    · cases h
    · cases h
      rfl
  | wild k b => cases ht
  | array t =>
    obtain ⟨_, _, rfl⟩ := Option.map_eq_some_iff.1 h
    rfl
  | inter ts =>
    obtain ⟨_, _, rfl⟩ := Option.map_eq_some_iff.1 h
    rfl
  | _ =>
    cases h
    rfl

/-! ### Two lists of type arguments -/

theorem get?_putAll_related {S : Ty → Ty → Prop} {args args' : List Ty}
    (hargs : List.Forall₂ S args args') (params : List ParamId) (p : ParamId)
    {m m' : KeyedList ParamId Binding}
    (hm : Option.Rel (fun b b' => ∃ t t', b = .bound t ∧ b' = .bound t' ∧ S t t') (m.get? p)
      (m'.get? p)) :
    Option.Rel (fun b b' => ∃ t t', b = .bound t ∧ b' = .bound t' ∧ S t t')
      ((m.putAll (List.zipWith (fun p t => (p, .bound t)) params args)).get? p)
      ((m'.putAll (List.zipWith (fun p t => (p, .bound t)) params args')).get? p) := by
  induction hargs generalizing params m m' with
  | nil =>
    rw [List.zipWith_nil_right]
    exact hm
  | @cons t t' args args' ht _ ih =>
    cases params with
    | nil => exact hm
    | cons q params =>
      refine ih params ?_
      dsimp only
      rw [KeyedList.get?_put, KeyedList.get?_put]
      split
      · exact .some ⟨t, t', rfl, rfl, ht⟩
      · exact hm

theorem get?_ofArgs_related {S : Ty → Ty → Prop} {args args' : List Ty}
    (hargs : List.Forall₂ S args args') (params : List ParamId) (p : ParamId) :
    Option.Rel (fun b b' => ∃ t t', b = .bound t ∧ b' = .bound t' ∧ S t t')
      ((ofArgs params args).get? p) ((ofArgs params args').get? p) :=
  get?_putAll_related hargs params p .none

end Substitution

end GenericCalls

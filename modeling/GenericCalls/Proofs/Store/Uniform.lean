import GenericCalls.Proofs.Store.Views

/-! # Uniform use of classes

Between raw and parameterised types arguments are not checked, so that one type may accept a second
and the second a third that the first does not accept. A usage says once for all how types are
written: with how many type arguments each class, with which wildcard each capture. A store is
uniform in a usage when types that keep to it have supertypes that do, whose arguments are those of
the types themselves, in some places, or do not depend on them. -/

namespace GenericCalls

namespace Store

/-- How types are written: with how many type arguments each class, if it is used at all, and of
which wildcard each capture is; and which type parameters stand for types. -/
structure Usage where
  arity : ClassId → Option Nat
  wildcard : CaptureId → Option Wildcard
  params : ParamId → Prop

mutual
/-- A type that keeps to a usage. Primitive types stand in it only as components of arrays,
wildcards that are not captured only as type arguments, and the components of an intersection are
neither `null` nor all the root class. -/
inductive Keeps (s : Store) (U : Usage) : Ty → Prop where
  | prims (p : Primitive) : Keeps s U (.array (.prim p))
  | array {t : Ty} (h : Keeps s U t) : Keeps s U (.array t)
  | cls {c : ClassId} {args : List Ty} (arity : U.arity c = some args.length)
      (h : ∀ t ∈ args, KeepsArg s U t) : Keeps s U (.cls c args)
  | param {p : ParamId} (h : U.params p) : Keeps s U (.param p)
  | capturedOpen {i : CaptureId} {k : WildcardKind} (hi : U.wildcard i = some ⟨k, none⟩) :
      Keeps s U (.captured i k none)
  | captured {i : CaptureId} {k : WildcardKind} {b : Ty} (hi : U.wildcard i = some ⟨k, some b⟩)
      (h : Keeps s U b) : Keeps s U (.captured i k (some b))
  | inter {ts : List Ty} (values : ∀ t ∈ ts, t.isNull = false)
      (proper : ∃ t ∈ ts, s.isObject t = false) (h : ∀ t ∈ ts, Keeps s U t) : Keeps s U (.inter ts)
  | null : Keeps s U .null
/-- A type argument that keeps to a usage: a type that does, or a wildcard with such a bound. -/
inductive KeepsArg (s : Store) (U : Usage) : Ty → Prop where
  | ty {t : Ty} (h : Keeps s U t) : KeepsArg s U t
  | anything : KeepsArg s U Ty.anything
  | wild {k : WildcardKind} {b : Ty} (h : Keeps s U b) : KeepsArg s U (.wild k (some b))
end

variable {s : Store} {U : Usage} {t u : Ty}

/-! ### Types that keep to a usage -/

theorem KeepsArg.of_wild {k : WildcardKind} {b : Ty} (h : KeepsArg s U (.wild k (some b))) :
    Keeps s U b := by
  cases h with
  | ty h => cases h
  | wild h => exact h

theorem KeepsArg.of_wildOpen {k : WildcardKind} (h : KeepsArg s U (.wild k none)) :
    k = .upper := by
  cases h with
  | ty h => cases h
  | anything => rfl

theorem KeepsArg.of_not_wild (h : KeepsArg s U t) (ht : t.isWild = false) : Keeps s U t := by
  cases h with
  | ty h => exact h
  | anything => cases ht
  | wild _ => cases ht

theorem Keeps.isWild (h : Keeps s U t) : t.isWild = false := by
  cases h <;> rfl

theorem Keeps.solid (h : Keeps s U t) (hnull : t.isNull = false) : t.solid = true := by
  induction t using Ty.induct with
  | inter ts ih =>
    cases h with
    | inter values _ h => exact Ty.solidAll_iff.2 fun t ht => ih t ht (h t ht) (values t ht)
  | null => cases hnull
  | _ => cases h <;> rfl

theorem Keeps.primFree (h : Keeps s U t) : t.primFree = true := by
  cases h <;> rfl

theorem Keeps.known (h : Keeps s U t) : t.isUnknown = false := by
  cases h <;> rfl

theorem Keeps.isReference (h : Keeps s U t) : t.isReference = true := by
  cases h <;> rfl

theorem KeepsArg.regular (h : KeepsArg s U t) : t.regular = true := by
  have hall {ts : List Ty} (ih : ∀ t ∈ ts, KeepsArg s U t → t.regular = true)
      (h : ∀ t ∈ ts, KeepsArg s U t) : Ty.regularAll ts = true :=
    Ty.regularAll_iff.2 fun t ht => ih t ht (h t ht)
  induction t using Ty.induct with
  | prim p => rfl
  | array t ih =>
    cases h with
    | ty h =>
      cases h with
      | prims p => rfl
      | array h => exact ih (.ty h)
  | cls c args ih =>
    cases h with
    | ty h =>
      cases h with
      | cls _ h => exact hall ih h
  | wild k b ih =>
    have hb := h.of_wild
    exact Ty.regular_wild_iff.2 ⟨.inr hb.primFree, ih (.ty hb)⟩
  | captured i k b ih =>
    cases h with
    | ty h =>
      cases h with
      | captured _ hb => exact Ty.regular_captured_iff.2 ⟨hb.primFree, ih (.ty hb)⟩
  | inter ts ih =>
    cases h with
    | ty h =>
      cases h with
      | inter values proper h =>
        obtain ⟨t, ht, _⟩ := proper
        exact Ty.regular_inter_iff.2 ⟨List.ne_nil_of_mem ht,
          fun t ht => ⟨(h t ht).solid (values t ht), ih t ht (.ty (h t ht))⟩⟩
  | unknown =>
    cases h with
    | ty h => cases h
  | _ => rfl

theorem Keeps.regular (h : Keeps s U t) : t.regular = true := (KeepsArg.ty h).regular

theorem Keeps.of_captured {i : CaptureId} {k : WildcardKind} {b : Option Ty}
    (h : Keeps s U (.captured i k b)) : U.wildcard i = some ⟨k, b⟩ := by
  cases h with
  | capturedOpen hi => exact hi
  | captured hi _ => exact hi

theorem Keeps.of_array (h : Keeps s U (.array t)) : (∃ p, t = .prim p) ∨ Keeps s U t := by
  cases h with
  | prims p => exact .inl ⟨p, rfl⟩
  | array h => exact .inr h

theorem Keeps.of_array_ref (h : Keeps s U (.array t)) (ht : t.isPrim = false) : Keeps s U t := by
  cases h with
  | prims p => cases ht
  | array h => exact h

theorem Keeps.of_cls {c : ClassId} {args : List Ty} (h : Keeps s U (.cls c args)) :
    U.arity c = some args.length ∧ ∀ t ∈ args, KeepsArg s U t := by
  cases h with
  | cls arity h => exact ⟨arity, h⟩

theorem Keeps.of_inter {ts : List Ty} (h : Keeps s U (.inter ts)) : ∀ t ∈ ts, Keeps s U t := by
  cases h with
  | inter _ _ h => exact h

theorem eq_of_sameAll {ts us : List Ty}
    (ih : ∀ t ∈ ts, ∀ u, KeepsArg s U t → KeepsArg s U u → (t == u) = true → t = u)
    (hts : ∀ t ∈ ts, KeepsArg s U t) (hus : ∀ u ∈ us, KeepsArg s U u)
    (h : Ty.sameAll ts us = true) : ts = us := by
  induction ts generalizing us with
  | nil => cases us <;> first | rfl | cases h
  | cons t ts ihs =>
    cases us with
    | nil => cases h
    | cons u us =>
      rw [Ty.sameAll, Bool.and_eq_true] at h
      rw [List.forall_mem_cons] at ih hts hus
      rw [ih.1 u hts.1 hus.1 h.1, ihs ih.2 hts.2 hus.2 h.2]

/-- Types that are the same are equal, as captures of one wildcard have the same bound. -/
theorem KeepsArg.eq_of_beq (ht : KeepsArg s U t) (hu : KeepsArg s U u) (h : (t == u) = true) :
    t = u := by
  have hcaptured {i : CaptureId} {k : WildcardKind} {b : Option Ty} {v : Ty}
      (ht : KeepsArg s U (.captured i k b)) (hv : KeepsArg s U v)
      (h : (.captured i k b == v) = true) : .captured i k b = v := by
    cases v with
    | captured j l b' =>
      rw [Ty.beq_eq_same, Ty.same, beq_iff_eq] at h
      subst h
      have heq := (ht.of_not_wild rfl).of_captured.symm.trans (hv.of_not_wild rfl).of_captured
      cases heq
      rfl
    | _ => cases h
  induction t using Ty.induct generalizing u with
  | prim p => cases ht.of_not_wild rfl
  | array t ih =>
    cases u with
    | array u =>
      rw [Ty.beq_eq_same, Ty.same] at h
      rcases (ht.of_not_wild rfl).of_array with ⟨p, rfl⟩ | ht
      · cases u <;> first | (rw [Ty.same, beq_iff_eq] at h; rw [h]) | cases h
      · rcases (hu.of_not_wild rfl).of_array with ⟨q, rfl⟩ | hu
        · cases ht <;> cases h
        · rw [ih (.ty ht) (.ty hu) h]
    | _ => cases h
  | cls c args ih =>
    cases u with
    | cls d brgs =>
      rw [Ty.beq_eq_same, Ty.same, Bool.and_eq_true, beq_iff_eq] at h
      have hargs := (ht.of_not_wild rfl).of_cls.2
      have hbrgs := (hu.of_not_wild rfl).of_cls.2
      rw [h.1, eq_of_sameAll (fun t ht u => ih t ht) hargs hbrgs h.2]
    | _ => cases h
  | param p =>
    cases u with
    | param q =>
      rw [Ty.beq_eq_same, Ty.same, beq_iff_eq] at h
      rw [h]
    | _ => cases h
  | wildOpen k =>
    cases u with
    | wild l b =>
      cases b with
      | none => rw [ht.of_wildOpen, hu.of_wildOpen]
      | some b => cases h
    | _ => cases h
  | wild k b ih =>
    cases u with
    | wild l b' =>
      cases b' with
      | none => cases h
      | some b' =>
        rw [Ty.beq_eq_same, Ty.same, Bool.and_eq_true, beq_iff_eq] at h
        rw [h.1, ih (.ty ht.of_wild) (.ty hu.of_wild) h.2]
    | _ => cases h
  | capturedOpen i k => exact hcaptured ht hu h
  | captured i k b _ => exact hcaptured ht hu h
  | inter ts ih =>
    cases u with
    | inter us =>
      have hts := (ht.of_not_wild rfl).of_inter
      have hus := (hu.of_not_wild rfl).of_inter
      rw [eq_of_sameAll (fun t ht u => ih t ht) (fun t ht => .ty (hts t ht))
        (fun u hu => .ty (hus u hu)) h]
    | _ => cases h
  | null => cases u <;> first | rfl | cases h
  | unknown => cases ht.of_not_wild rfl

theorem Keeps.eq_of_beq (ht : Keeps s U t) (hu : Keeps s U u) (h : (t == u) = true) : t = u :=
  (KeepsArg.ty ht).eq_of_beq (.ty hu) h

/-! ### Uniform stores -/

/-- A declared supertype of a class with the parameters `params` is used uniformly: each of its
arguments is one of these, or has none of these in it. -/
structure PassesOn (s : Store) (U : Usage) (params : List ParamId) (t : ClassTy) : Prop where
  arity : U.arity t.id = some t.args.length
  args : ∀ u ∈ t.args, (∃ p ∈ params, u = .param p) ∨
    KeepsArg s U u ∧ ∀ p ∈ params, u.mentions p = false

/-- A chain of supertypes leads from one class type to another. -/
def Reaches (s : Store) : ClassTy → ClassTy → Prop :=
  Relation.ReflTransGen fun c t => t ∈ s.directSupertypes c

/-- In a regular store that is uniform in a usage, the bounds of parameters keep to the usage, so do
supertypes, and chains of supertypes that lead to one class lead to one class type. -/
structure Uniform (s : Store) (U : Usage) : Prop extends Regular s where
  root : U.arity s.root = some 0
  upper : ∀ p, U.params p → Keeps s U (s.upperBound (.param p))
  bare : ∀ c d, s.class? c = some d → U.arity c = some 0 →
    ∀ t ∈ d.supertypes, U.arity t.id = some 0
  passed : ∀ c d n, s.class? c = some d → U.arity c = some (n + 1) →
    d.params.length = n + 1 ∧ ∀ t ∈ d.supertypes, PassesOn s U d.params t
  agree : ∀ c t u : ClassTy, Keeps s U c.toTy → Reaches s c t → Reaches s c u → t.id = u.id → t = u

theorem Uniform.object (hs : s.Uniform U) : Keeps s U s.object :=
  .cls hs.root fun _ h => absurd h List.not_mem_nil

end Store

/-! ### Supertypes -/

namespace Substitution

open Store

variable {s : Store} {U : Usage} {f : ParamId → Option Binding}

theorem apply_of_not_mentioned (t : Ty) (h : KeepsArg s U t)
    (hf : ∀ p, t.mentions p = true → f p = none) : apply f t = some t := by
  have hall {ts : List Ty} (ih : ∀ t ∈ ts, (∀ p, t.mentions p = true → f p = none) →
      apply f t = some t) (hf : ∀ p, Ty.mentionsAny p ts = true → f p = none) :
      applyAll f ts = some ts := by
    refine applyAll_eq_some_iff.2 (List.forall₂_same.2 fun t ht => ih t ht fun p hp => hf p ?_)
    rw [Ty.mentionsAny_eq_any]
    exact List.any_eq_true.2 ⟨t, ht, hp⟩
  induction t using Ty.induct with
  | array t ih =>
    rcases (h.of_not_wild rfl).of_array with ⟨p, rfl⟩ | h
    · rfl
    · rw [apply, ih (.ty h) hf]
      rfl
  | cls c args ih =>
    have hargs := (h.of_not_wild rfl).of_cls.2
    rw [apply, hall (fun t ht => ih t ht (hargs t ht)) hf]
    rfl
  | param p => rw [apply, hf p (beq_self_eq_true p)]
  | wildOpen k => rw [h.of_wildOpen]; rfl
  | wild k b ih =>
    have hb := h.of_wild
    rw [apply, ih (.ty hb) hf]
    have hplain := hb.isWild
    cases b with
    | wild _ _ => cases hplain
    | _ => rfl
  | inter ts ih =>
    have hts := (h.of_not_wild rfl).of_inter
    rw [apply, hall (fun t ht => ih t ht (.ty (hts t ht))) hf]
    rfl
  | _ => rfl

end Substitution

namespace Store

variable {s : Store} {U : Usage} {t u : Ty}

theorem PassesOn.apply_eq {params : List ParamId} {c : ClassTy} (h : PassesOn s U params c)
    {u : Ty} (hu : u ∈ c.args) :
    (∃ p ∈ params, u = .param p) ∨ KeepsArg s U u ∧
      ∀ args, Substitution.apply (Substitution.ofArgs params args).get? u = some u := by
  refine (h.args u hu).imp_right fun hconstant => ⟨hconstant.1, fun args => ?_⟩
  obtain ⟨hkeeps, hfree⟩ := hconstant
  refine Substitution.apply_of_not_mentioned u hkeeps fun p hp => ?_
  cases hget : (Substitution.ofArgs params args).get? p with
  | none => rfl
  | some b =>
    rw [hfree p (Substitution.get?_ofArgs hget).1] at hp
    cases hp

theorem PassesOn.keeps {params : List ParamId} {c : ClassTy} {args us : List Ty}
    (h : PassesOn s U params c) (hlength : args.length = params.length)
    (hargs : ∀ t ∈ args, KeepsArg s U t)
    (hus : Substitution.applyAll (Substitution.ofArgs params args).get? c.args = some us) :
    Keeps s U (.cls c.id us) := by
  have harity := h.arity
  rw [← Substitution.length_applyAll hus] at harity
  refine .cls harity fun u hu => ?_
  obtain ⟨t, ht, htu⟩ := exists_mem_of_forall₂ (Substitution.applyAll_eq_some_iff.1 hus).flip hu
  have htu : Substitution.apply (Substitution.ofArgs params args).get? t = some u := htu
  rcases h.apply_eq ht with ⟨p, hp, rfl⟩ | ⟨hkeeps, hself⟩
  · obtain ⟨v, hv, hget⟩ := Substitution.exists_get?_ofArgs hp hlength
    rw [Substitution.apply, hget] at htu
    cases htu
    exact hargs u hv
  · rw [hself args] at htu
    cases htu
    exact hkeeps

theorem Uniform.keeps_supers (hs : s.Uniform U) {c t : ClassTy} (hc : Keeps s U c.toTy)
    (ht : t ∈ s.directSupertypes c) : Keeps s U t.toTy := by
  obtain ⟨harity, hargs⟩ := hc.of_cls
  cases hd : s.class? c.id with
  | none =>
    unfold directSupertypes at ht
    rw [hd] at ht
    cases ht
  | some d =>
    rw [directSupertypes_eq hd] at ht
    obtain ⟨t, htd, rfl⟩ := List.mem_map.1 ht
    cases hlength : c.args.length with
    | zero =>
      rw [hlength] at harity
      rw [superWith_of_bare t (.inl (List.length_eq_zero_iff.1 hlength))]
      exact .cls (hs.bare c.id d hd harity t htd) fun _ h => absurd h List.not_mem_nil
    | succ n =>
      rw [hlength] at harity
      obtain ⟨hparams, hpasses⟩ := hs.passed c.id d n hd harity
      have hne : c.args ≠ [] := List.ne_nil_of_length_eq_add_one hlength
      obtain ⟨us, hus, _, hsuper⟩ := superWith_of_args t hne (hlength.trans hparams.symm)
      rw [hsuper]
      exact (hpasses t htd).keeps (hlength.trans hparams.symm) hargs hus

theorem Uniform.keeps_reached (hs : s.Uniform U) {c t : ClassTy} (hc : Keeps s U c.toTy)
    (h : Reaches s c t) : Keeps s U t.toTy := by
  induction h with
  | refl => exact hc
  | tail _ hsuper ih => exact hs.keeps_supers ih hsuper

/-! ### Views -/

theorem Uniform.args_of_root (hs : s.Uniform U) {args : List Ty}
    (h : Keeps s U (.cls s.root args)) : args = [] :=
  List.length_eq_zero_iff.1 (Option.some.inj (h.of_cls.1.symm.trans hs.root))

theorem root_or_reaches_of_ancestorArgs {c : ClassTy} {d : ClassId} {args : List Ty}
    (h : s.ancestorArgs c d = some args) : d = s.root ∧ args = [] ∨ Reaches s c ⟨d, args⟩ := by
  by_cases hd : d = s.root ∧ c.id ≠ d
  · obtain ⟨rfl, hne⟩ := hd
    rw [ancestorArgs_root s c hne] at h
    exact .inl ⟨rfl, (Option.some.inj h).symm⟩
  · rw [not_and, Classical.not_not] at hd
    exact .inr (reaches_of_ancestorArgs hd h)

theorem Uniform.keeps_ancestorArgs (hs : s.Uniform U) {c : ClassTy} {d : ClassId}
    {args : List Ty} (hc : Keeps s U c.toTy) (h : s.ancestorArgs c d = some args) :
    Keeps s U (.cls d args) := by
  rcases root_or_reaches_of_ancestorArgs h with ⟨rfl, rfl⟩ | hreach
  · exact hs.object
  · exact hs.keeps_reached hc hreach

theorem ancestor_of_reaches {c t : ClassTy} (h : Reaches s c t) :
    t.id = c.id ∨ Ancestor s c.id t.id := by
  induction h with
  | refl => exact .inl rfl
  | @tail t u _ hsuper ih =>
    have hid : u.id ∈ s.supers t.id := by
      rw [← map_id_directSupertypes]
      exact List.mem_map_of_mem hsuper
    rcases ih with heq | hanc
    · rw [heq] at hid
      exact .inr (.single hid)
    · exact .inr (.tail hanc hid)

theorem Uniform.ancestorArgs_of_reaches (hs : s.Uniform U) {c t : ClassTy}
    (hc : Keeps s U c.toTy) (h : Reaches s c t) : s.ancestorArgs c t.id = some t.args := by
  have hsome : (s.ancestorArgs c t.id).isSome = true := by
    rcases ancestor_of_reaches h with heq | hanc
    · rw [heq, ancestorArgs_self]
      rfl
    · exact ancestorArgs_isSome (hs.few c.id) hanc
  obtain ⟨args, hargs⟩ := Option.isSome_iff_exists.1 hsome
  rw [hargs]
  -- The search may take another chain than the given one; both end in one class type.
  rcases root_or_reaches_of_ancestorArgs hargs with ⟨hroot, rfl⟩ | hreach
  · have ht : Keeps s U (.cls t.id t.args) := hs.keeps_reached hc h
    rw [hroot] at ht
    rw [hs.args_of_root ht]
  · exact congrArg (some ·.args) (hs.agree c _ _ hc hreach h rfl)

/-- Where every class declares one supertype at most, and only classes that were declared before it,
chains of supertypes that lead from one class type to one class lead to one class type. -/
theorem agree_of_single (hsingle : ∀ c d, s.class? c = some d →
      d.supertypes.length ≤ 1 ∧ ∀ t ∈ d.supertypes, t.id < c) {c t u : ClassTy}
    (ht : Reaches s c t) (hu : Reaches s c u) (hid : t.id = u.id) : t = u := by
  have hsupers (c : ClassTy) : (s.directSupertypes c).length ≤ 1 ∧
      ∀ t ∈ s.directSupertypes c, t.id < c.id := by
    cases hd : s.class? c.id with
    | none =>
      unfold directSupertypes
      rw [hd]
      exact ⟨Nat.zero_le 1, fun t ht => absurd ht List.not_mem_nil⟩
    | some d =>
      obtain ⟨hlength, hlt⟩ := hsingle c.id d hd
      rw [directSupertypes_eq hd, List.length_map]
      refine ⟨hlength, List.forall_mem_map.2 fun t ht => ?_⟩
      rw [superWith_id]
      exact hlt t ht
  have hunique : Relator.RightUnique fun c t => t ∈ s.directSupertypes c := by
    intro c t u ht hu
    have hlength := (hsupers c).1
    obtain ⟨i, hi, rfl⟩ := List.mem_iff_getElem.1 ht
    obtain ⟨j, hj, rfl⟩ := List.mem_iff_getElem.1 hu
    have hplace : i = j := by omega
    subst hplace
    rfl
  have hlower {t u : ClassTy} (h : Reaches s t u) : t = u ∨ u.id < t.id := by
    induction h with
    | refl => exact .inl rfl
    | @tail u v _ hsuper ih =>
      have hlt := (hsupers u).2 v hsuper
      exact .inr (ih.elim (fun heq => heq ▸ hlt) hlt.trans)
  rcases Relation.ReflTransGen.total_of_right_unique hunique ht hu with h | h
  · exact (hlower h).resolve_right (hid ▸ Nat.lt_irrefl _)
  · exact ((hlower h).resolve_right (hid ▸ Nat.lt_irrefl _)).symm

/-- What is seen from a view is seen from where the view is from. -/
theorem Uniform.ancestorArgs_trans (hs : s.Uniform U) {c : ClassTy} {d e : ClassId}
    {args brgs : List Ty} (hc : Keeps s U c.toTy) (h : s.ancestorArgs c d = some args)
    (h' : s.ancestorArgs ⟨d, args⟩ e = some brgs) : s.ancestorArgs c e = some brgs := by
  rcases root_or_reaches_of_ancestorArgs h' with ⟨rfl, rfl⟩ | hde
  · by_cases hroot : c.id = s.root
    · obtain ⟨c, cargs⟩ := c
      cases hroot
      rw [← hs.args_of_root hc]
      exact s.ancestorArgs_self _
    · exact s.ancestorArgs_root c hroot
  · rcases root_or_reaches_of_ancestorArgs h with ⟨rfl, rfl⟩ | hcd
    · -- Nothing is above the root class.
      rcases ancestor_of_reaches hde with heq | hanc
      · cases heq
        cases (s.ancestorArgs_self ⟨s.root, []⟩).symm.trans h'
        exact h
      · exact absurd hanc (not_ancestor_of_supers_eq_nil hs.rootBare)
    · exact hs.ancestorArgs_of_reaches hc (hcd.trans hde)

/-! ### Views of related types -/

/-- Class types of one class that keep to the usage, with arguments that `S` relates. -/
structure Alike (s : Store) (U : Usage) (S : Ty → Ty → Prop) (c c' : ClassTy) : Prop where
  id_eq : c.id = c'.id
  left : Keeps s U c.toTy
  right : Keeps s U c'.toTy
  args : List.Forall₂ S c.args c'.args

theorem Uniform.passing_alike (hs : s.Uniform U) {S : Ty → Ty → Prop} (hS : ∀ t, S t t) :
    Passing s (Alike s U S) := by
  refine .of_superWith (fun h => h.id_eq) fun {c c' d} h hd t ht => ?_
  have hsuper {c : ClassTy} (hd : s.class? c.id = some d) (hc : Keeps s U c.toTy) :
      Keeps s U (superWith d c.args t).toTy := by
    refine hs.keeps_supers hc ?_
    rw [directSupertypes_eq hd]
    exact List.mem_map_of_mem ht
  refine ⟨by rw [superWith_id, superWith_id], hsuper hd h.left, hsuper (h.id_eq ▸ hd) h.right, ?_⟩
  obtain ⟨harity, hargs⟩ := h.left.of_cls
  cases hlength : c.args.length with
  | zero =>
    have hlength' : c'.args.length = 0 := h.args.length_eq.symm.trans hlength
    rw [superWith_of_bare t (.inl (List.length_eq_zero_iff.1 hlength)),
      superWith_of_bare t (.inl (List.length_eq_zero_iff.1 hlength'))]
    exact .nil
  | succ n =>
    have hlength' : c'.args.length = n + 1 := h.args.length_eq.symm.trans hlength
    rw [hlength] at harity
    obtain ⟨hparams, hpasses⟩ := hs.passed c.id d n hd harity
    obtain ⟨us, hus, _, heq⟩ := superWith_of_args t (List.ne_nil_of_length_eq_add_one hlength)
      (hlength.trans hparams.symm)
    obtain ⟨us', hus', _, heq'⟩ := superWith_of_args t (List.ne_nil_of_length_eq_add_one hlength')
      (hlength'.trans hparams.symm)
    rw [heq, heq']
    refine Substitution.forall₂_applyAll hus hus' fun u hu v v' hv hv' => ?_
    rcases (hpasses t ht).apply_eq hu with ⟨p, hp, rfl⟩ | ⟨_, hself⟩
    · obtain ⟨x, _, hx⟩ := Substitution.exists_get?_ofArgs hp (hlength.trans hparams.symm)
      obtain ⟨x', _, hx'⟩ := Substitution.exists_get?_ofArgs hp (hlength'.trans hparams.symm)
      rw [Substitution.apply, hx] at hv
      rw [Substitution.apply, hx'] at hv'
      cases hv
      cases hv'
      have hrelated := Substitution.get?_ofArgs_related h.args d.params p
      rw [hx, hx'] at hrelated
      cases hrelated with
      | some hrelated =>
        obtain ⟨y, y', hy, hy', hrelated⟩ := hrelated
        cases hy
        cases hy'
        exact hrelated
    · rw [hself] at hv hv'
      cases hv
      cases hv'
      exact hS u

end Store

end GenericCalls

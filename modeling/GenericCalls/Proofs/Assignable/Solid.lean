import GenericCalls.Proofs.Assignable.Rules
import GenericCalls.Proofs.Store.Regular

/-! # Solid targets

A source is checked through its bounds and components only after the target has been taken apart, so
that a target which accepts the bound of a variable need not accept the variable. A solid one does,
whatever it is made of, and likewise with the components of an intersection. -/

namespace GenericCalls.Store

variable {s : Store} {boxing : Bool} {t u b : Ty}

theorem accepts_same (known : t.isUnknown = false) (h : (t == u) = true) : Accepts s boxing t u :=
  accepts_iff.2 (.same known h)

theorem accepts_self (known : t.isUnknown = false) : Accepts s boxing t t :=
  accepts_same known (BEq.refl t)

theorem eq_raw_of_boxed {q : Primitive} (h : s.boxed? q = some b) : ∃ c, b = .raw c := by
  rw [boxed?, Option.map_eq_some_iff] at h
  obtain ⟨c, _, rfl⟩ := h
  exact ⟨c, rfl⟩

theorem eq_of_plain_beq_inter {us : List Ty} (ht : t.isPlain = true) :
    (t == .inter us) = false := by
  cases t <;> first | rfl | cases ht

/-! ### Inversions -/

theorem Rule.exists_component {R : Ty → Ty → Prop} (ht : t.isPlain = true) {us : List Ty}
    (h : Rule s boxing R t (.inter us)) : ∃ u ∈ us, R t u := by
  have hne : (t == .inter us) = false := eq_of_plain_beq_inter ht
  cases h with
  | same _ h =>
    rw [hne] at h
    cases h
  | component _ hu h => exact ⟨_, hu, h⟩
  | unbox _ hu _ => cases hu
  | upper _ hv _ => cases hv
  | anything _ => cases ht
  | bound _ _ => cases ht
  | each _ _ => cases ht

theorem exists_component (ht : t.isPlain = true) {us : List Ty}
    (h : Accepts s boxing t (.inter us)) : ∃ u ∈ us, Accepts s boxing t u :=
  (accepts_iff.1 h).exists_component ht

theorem isObject_of_accepts_object (hroot : RootBare s) (ht : t.isPlain = true)
    (h : Accepts s boxing t s.object) : s.isObject t = true := by
  have hclass {c : ClassId} {lifted : List Ty}
      (hd : s.ancestorArgs ⟨s.root, []⟩ c = some lifted) : c = s.root := by
    rcases ancestor_of_ancestorArgs hd with hc | hc | hc
    · exact hc
    · exact hc
    · exact absurd hc (not_ancestor_of_supers_eq_nil hroot)
  have hobject : s.isObject s.object = true := beq_self_eq_true s.root
  unfold object Ty.raw at h
  cases accepts_iff.1 h with
  | same _ h =>
    rw [Ty.isObject_eq_of_beq s h]
    exact hobject
  | object => exact hobject
  | raw hd _ =>
    cases hclass hd
    exact hobject
  | args hd _ _ =>
    cases hclass hd
    exact hobject
  | unbox _ _ _ => cases ht
  | upper _ hv _ => cases hv
  | anything _ => cases ht
  | bound _ _ => cases ht
  | each _ _ => cases ht

/-! ### Lifting -/

/-- A target accepts a variable when it accepts its bound, and an intersection when it accepts a
component. -/
structure Lifts (s : Store) (boxing : Bool) (t : Ty) : Prop where
  bound : ∀ v, v.isVariable = true → Accepts s boxing t (s.upperBound v) → Accepts s boxing t v
  component : ∀ us, ∀ u ∈ us, Accepts s boxing t u → Accepts s boxing t (.inter us)

theorem isReference_of_isVariable {v : Ty} (h : v.isVariable = true) : v.isReference = true := by
  cases v <;> first | rfl | cases h

theorem isReference_of_solid (h : t.solid = true) : t.isReference = true := by
  cases t <;> first | rfl | cases h

theorem accepts_bound_of_wild (hlifts : Lifts s boxing b) (hsolid : b.solid = true)
    (h : Accepts s boxing (.wild .upper (some b)) u) : Accepts s boxing b u := by
  have hknown := Ty.isUnknown_of_solid hsolid
  cases accepts_iff.1 h with
  | same _ hsame =>
    cases u with
    | wild k b' =>
      cases b' with
      | none => cases hsame
      | some b' =>
        rw [Ty.beq_eq_same, Ty.same, Bool.and_eq_true, beq_iff_eq] at hsame
        obtain ⟨rfl, hsame⟩ := hsame
        have hb : Accepts s boxing b b' := accepts_same hknown hsame
        exact hlifts.bound (.wild .upper (some b')) rfl hb
    | _ => cases hsame
  | null _ => exact accepts_iff.2 (.null hknown)
  | box _ _ hboxing hq hboxed =>
    obtain ⟨c, rfl⟩ := eq_raw_of_boxed hq
    have hb : Accepts s boxing b (.raw c) := by
      cases accepts_iff.1 hboxed with
      | same _ hsame => cases hsame
      | bound _ hb => exact hb
      | upper hplain _ _ => cases hplain
    have href := isReference_of_solid hsolid
    exact accepts_iff.2 (.box href (Ty.isNull_of_solid hsolid) hboxing hq hb)
  | bound _ hb => exact hb
  | component hplain _ _ => cases hplain
  | upper hplain _ _ => cases hplain
  | param hplain _ _ => cases hplain
  | unbounded _ hobject => cases hobject

theorem exists_same {ts us : List Ty} (h : Ty.sameAll ts us = true) :
    ∀ t ∈ ts, ∃ u ∈ us, (t == u) = true := by
  induction ts generalizing us with
  | nil => exact fun t ht => (List.not_mem_nil ht).elim
  | cons t ts ih =>
    cases us with
    | nil => cases h
    | cons u us =>
      rw [Ty.sameAll, Bool.and_eq_true] at h
      refine List.forall_mem_cons.2 ⟨⟨u, List.mem_cons_self, h.1⟩, fun t' ht' => ?_⟩
      obtain ⟨u', hu', hsame⟩ := ih h.2 t' ht'
      exact ⟨u', List.mem_cons_of_mem u hu', hsame⟩

theorem accepts_each_of_inter {ts : List Ty} (hlifts : ∀ t ∈ ts, Lifts s boxing t)
    (hsolid : ∀ t ∈ ts, t.solid = true) (h : Accepts s boxing (.inter ts) u) :
    ∀ t ∈ ts, Accepts s boxing t u := by
  intro t ht
  have hknown := Ty.isUnknown_of_solid (hsolid t ht)
  cases accepts_iff.1 h with
  | same _ hsame =>
    cases u with
    | inter us =>
      obtain ⟨u, hu, htu⟩ := exists_same hsame t ht
      exact (hlifts t ht).component us u hu (accepts_same hknown htu)
    | _ => cases hsame
  | null _ => exact accepts_iff.2 (.null hknown)
  | box _ _ hboxing hq hboxed =>
    obtain ⟨c, rfl⟩ := eq_raw_of_boxed hq
    have heach : ∀ t ∈ ts, Accepts s boxing t (.raw c) := by
      cases accepts_iff.1 hboxed with
      | same _ hsame => cases hsame
      | each _ heach => exact heach
      | upper hplain _ _ => cases hplain
    have href := isReference_of_solid (hsolid t ht)
    have hnull := Ty.isNull_of_solid (hsolid t ht)
    exact accepts_iff.2 (.box href hnull hboxing hq (heach t ht))
  | each _ heach => exact heach t ht
  | component hplain _ _ => cases hplain
  | upper hplain _ _ => cases hplain
  | param hplain _ _ => cases hplain
  | unbounded _ hobject => cases hobject

theorem lifts_of_isPlain (hroot : RootBare s) (ht : t.isPlain = true) : Lifts s boxing t := by
  refine ⟨fun v hv h => ?_, fun us u hu h => accepts_iff.2 (.component ht hu h)⟩
  cases v with
  | wild k b => exact accepts_iff.2 (.upper ht rfl h)
  | captured i k b => exact accepts_iff.2 (.upper ht rfl h)
  | param p =>
    cases hp : s.bounds p with
    | nil =>
      rw [upperBound_of_nil hp] at h
      exact accepts_iff.2 (.unbounded hp (isObject_of_accepts_object hroot ht h))
    | cons b bs =>
      cases bs with
      | nil =>
        rw [upperBound_of_single hp] at h
        exact accepts_iff.2 (.param ht (hp ▸ List.mem_cons_self) h)
      | cons b' bs =>
        rw [upperBound_of_several hp] at h
        obtain ⟨u, hu, h⟩ := exists_component ht h
        exact accepts_iff.2 (.param ht (hp ▸ hu) h)
  | _ => cases hv

theorem lifts_of_solid (hroot : RootBare s) (t : Ty) (h : t.solid = true) :
    Lifts s boxing t := by
  induction t using Ty.induct with
  | array t _ => exact lifts_of_isPlain hroot rfl
  | cls c args _ => exact lifts_of_isPlain hroot rfl
  | param p => exact lifts_of_isPlain hroot rfl
  | capturedOpen i k => exact lifts_of_isPlain hroot rfl
  | captured i k b _ => exact lifts_of_isPlain hroot rfl
  | wildOpen k =>
    exact ⟨fun v hv _ => accepts_iff.2 (.anything (isReference_of_isVariable hv)),
      fun us u _ _ => accepts_iff.2 (.anything rfl)⟩
  | wild k b ih =>
    cases k with
    | lower => cases h
    | upper =>
      have hlifts := ih h
      refine ⟨fun v hv hvb => ?_, fun us u hu hub => ?_⟩
      · have hb := hlifts.bound v hv (accepts_bound_of_wild hlifts h hvb)
        exact accepts_iff.2 (.bound (isReference_of_isVariable hv) hb)
      · have hb := hlifts.component us u hu (accepts_bound_of_wild hlifts h hub)
        exact accepts_iff.2 (.bound rfl hb)
  | inter ts ih =>
    have hsolid := Ty.solidAll_iff.1 h
    have hlifts : ∀ t ∈ ts, Lifts s boxing t := fun t ht => ih t ht (hsolid t ht)
    refine ⟨fun v hv hvb => ?_, fun us u hu hub => ?_⟩
    · have heach := accepts_each_of_inter hlifts hsolid hvb
      refine accepts_iff.2 (.each (isReference_of_isVariable hv) fun t ht => ?_)
      exact (hlifts t ht).bound v hv (heach t ht)
    · have heach := accepts_each_of_inter hlifts hsolid hub
      refine accepts_iff.2 (.each rfl fun t ht => ?_)
      exact (hlifts t ht).component us u hu (heach t ht)
  | prim p => cases h
  | null => cases h
  | unknown => cases h

theorem not_null_accepts (hu : u.solid = true) : ¬Accepts s boxing .null u := by
  intro h
  cases accepts_iff.1 h with
  | same _ hsame =>
    cases u with
    | null => cases hu
    | _ => cases hsame
  | null _ => cases hu
  | box _ hnull _ _ _ => cases hnull
  | component hplain _ _ => cases hplain
  | upper hplain _ _ => cases hplain
  | param hplain _ _ => cases hplain
  | unbounded _ hobject => cases hobject

theorem accepts_of_accepts_upperBound (hroot : RootBare s) (t : Ty) (hfree : t.primFree = true)
    (hregular : t.regular = true) {v : Ty} (hv : v.isVariable = true)
    (hsolid : (s.upperBound v).solid = true) (h : Accepts s boxing t (s.upperBound v)) :
    Accepts s boxing t v := by
  have href := isReference_of_isVariable hv
  induction t using Ty.induct generalizing v with
  | array t _ => exact (lifts_of_isPlain hroot rfl).bound v hv h
  | cls c args _ => exact (lifts_of_isPlain hroot rfl).bound v hv h
  | param p => exact (lifts_of_isPlain hroot rfl).bound v hv h
  | capturedOpen i k => exact (lifts_of_isPlain hroot rfl).bound v hv h
  | captured i k b _ => exact (lifts_of_isPlain hroot rfl).bound v hv h
  | wildOpen k => exact accepts_iff.2 (.anything href)
  | wild k b ih =>
    obtain ⟨hbound, hbregular⟩ := Ty.regular_wild_iff.1 hregular
    have hbfree := hbound.resolve_left (by simpa [Ty.primFree] using hfree)
    refine accepts_iff.2 (.bound href (ih hbfree hbregular hv hsolid ?_ href))
    generalize hu : s.upperBound v = u at h hsolid
    cases accepts_iff.1 h with
    | same _ hsame =>
      cases u with
      | wild l b' =>
        cases b' with
        | none => cases hsame
        | some b' =>
          rw [Ty.beq_eq_same, Ty.same, Bool.and_eq_true, beq_iff_eq] at hsame
          obtain ⟨rfl, hsame⟩ := hsame
          cases k with
          | lower => cases hsolid
          | upper =>
            have hb : Accepts s boxing b b' :=
              accepts_same (Ty.isUnknown_of_regular hbregular) hsame
            exact ih hbfree hbregular (v := .wild .upper (some b')) rfl hsolid hb rfl
      | _ => cases hsame
    | null _ => cases hsolid
    | box _ _ _ _ _ => cases hsolid
    | bound _ hb => exact hb
    | component hplain _ _ => cases hplain
    | upper hplain _ _ => cases hplain
    | param hplain _ _ => cases hplain
    | unbounded _ hobject => cases hobject
  | inter ts _ =>
    have hts : (Ty.inter ts).solid = true :=
      Ty.solidAll_iff.2 fun t ht => ((Ty.regular_inter_iff.1 hregular).2 t ht).1
    exact (lifts_of_solid hroot _ hts).bound v hv h
  | null => exact absurd h (not_null_accepts hsolid)
  | prim p => cases hfree
  | unknown => cases hregular

end GenericCalls.Store

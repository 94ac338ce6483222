import GenericCalls.Proofs.Store.Uniform
import GenericCalls.Proofs.Ty.Sameness

/-! # Coherent stores

In a coherent store all chains of supertypes that lead from a class type to one class end in the
same type arguments, so that what is seen through a view of a class type is what is seen from the
class type itself. Arguments get lost on the way only for good: beyond a class type that has none,
or not as many as its class has parameters, everything is raw. -/

namespace GenericCalls.Store

/-- Declared supertypes are raw or have one argument for each parameter of their class, and all
chains of supertypes from one class type to one class, that without steps included, end in the same
arguments. The root class stands above all, and no class has too many ancestors. -/
structure Coherent (s : Store) : Prop where
  sized : ∀ c d, s.class? c = some d → ∀ t ∈ d.supertypes, t.args = [] ∨ s.Full t
  agree : ∀ c t u : ClassTy, Reaches s c t → Reaches s c u → t.id = u.id →
    Ty.sameAll t.args u.args = true
  rootBare : s.RootBare
  few : ∀ c, FewAncestors s c

variable {s : Store} {c t : ClassTy} {d e : ClassId} {args brgs : List Ty}

/-! ### Numbers of arguments -/

instance (s : Store) (c : ClassTy) : Decidable (s.Full c) :=
  inferInstanceAs (Decidable (c.args.length = (s.classParams c.id).length))

theorem classParams_eq {d : ClassDecl} {c : ClassId} (hd : s.class? c = some d) :
    s.classParams c = d.params := by
  unfold classParams
  rw [hd]
  rfl

theorem exists_class_of_super (ht : t ∈ s.directSupertypes c) :
    ∃ d, s.class? c.id = some d ∧ ∃ u ∈ d.supertypes, superWith d c.args u = t := by
  cases hd : s.class? c.id with
  | none =>
    unfold directSupertypes at ht
    rw [hd] at ht
    cases ht
  | some d =>
    rw [directSupertypes_eq hd] at ht
    exact ⟨d, rfl, List.mem_map.1 ht⟩

theorem Coherent.sized_super (hs : s.Coherent) (ht : t ∈ s.directSupertypes c) :
    t.args = [] ∨ s.Full t := by
  obtain ⟨d, hd, u, hu, rfl⟩ := exists_class_of_super ht
  by_cases hbare : c.args = [] ∨ c.args.length ≠ d.params.length
  · rw [superWith_of_bare u hbare]
    exact .inl rfl
  rw [not_or, ne_eq, Decidable.not_not] at hbare
  obtain ⟨us, hus, _, hsuper⟩ := superWith_of_args u hbare.1 hbare.2
  have hlength := Substitution.length_applyAll hus
  rw [hsuper]
  rcases hs.sized c.id d hd u hu with hnil | hfull
  · rw [hnil] at hlength
    exact .inl (List.length_eq_zero_iff.1 hlength)
  · exact .inr (hlength.trans hfull)

theorem Coherent.sized_reached (hs : s.Coherent) (h : Reaches s c t) :
    t = c ∨ t.args = [] ∨ s.Full t := by
  rcases h.cases_tail with heq | ⟨u, _, ht⟩
  · exact .inl heq
  · exact .inr (hs.sized_super ht)

/-- Beyond a class type without arguments, or with a wrong number of them, everything is raw. -/
theorem args_of_reaches (hbare : c.args = [] ∨ ¬s.Full c) (h : Reaches s c t) :
    t = c ∨ t.args = [] := by
  induction h with
  | refl => exact .inl rfl
  | tail _ ht ih =>
    refine .inr ?_
    rcases ih with rfl | hnil
    · obtain ⟨d, hd, u, _, rfl⟩ := exists_class_of_super ht
      rw [superWith_of_bare u (hbare.imp_right fun hfull hlength => hfull ?_)]
      · rfl
      · rw [Full, classParams_eq hd]
        exact hlength
    · exact args_of_mem_directSupertypes hnil ht

/-- A store in which every class declares one supertype at most, which is a class declared before
it, is coherent when these supertypes are raw or have one argument for each parameter. -/
theorem coherent_of_single
    (hsized : ∀ c d, s.class? c = some d → ∀ t ∈ d.supertypes, t.args = [] ∨ s.Full t)
    (hsingle : ∀ c d, s.class? c = some d →
      d.supertypes.length ≤ 1 ∧ ∀ t ∈ d.supertypes, t.id < c)
    (hroot : s.RootBare) (hfew : ∀ c, FewAncestors s c) : s.Coherent where
  sized := hsized
  agree c t u ht hu hid := by
    rw [agree_of_single hsingle ht hu hid]
    exact Ty.sameAll_refl u.args
  rootBare := hroot
  few := hfew

/-! ### Views -/

theorem reaches_of_ne_root (hd : d ≠ s.root) (h : s.ancestorArgs c d = some args) :
    Reaches s c ⟨d, args⟩ :=
  (root_or_reaches_of_ancestorArgs h).resolve_left fun hroot => hd hroot.1

theorem eq_root_of_ancestorArgs (hroot : s.RootBare)
    (h : s.ancestorArgs ⟨s.root, args⟩ d = some brgs) : d = s.root := by
  rcases ancestor_of_ancestorArgs h with hd | hd | hd
  · exact hd
  · exact hd
  · exact absurd hd (not_ancestor_of_supers_eq_nil hroot)

/-- What is seen from a view is seen, with the same arguments, from where the view is from. -/
theorem Coherent.exists_view (hs : s.Coherent) (hd : d ≠ s.root) (he : e ≠ s.root)
    (h : s.ancestorArgs c d = some args) (h' : s.ancestorArgs ⟨d, args⟩ e = some brgs) :
    ∃ crgs, s.ancestorArgs c e = some crgs ∧ Ty.sameAll brgs crgs = true := by
  have hreach : Reaches s c ⟨e, brgs⟩ :=
    (reaches_of_ne_root hd h).trans (reaches_of_ne_root he h')
  have hsome : (s.ancestorArgs c e).isSome = true := by
    rcases ancestor_of_reaches hreach with heq | hanc
    · rw [show e = c.id from heq, ancestorArgs_self]
      rfl
    · exact ancestorArgs_isSome (hs.few c.id) hanc
  obtain ⟨crgs, hcrgs⟩ := Option.isSome_iff_exists.1 hsome
  exact ⟨crgs, hcrgs, hs.agree c _ _ hreach (reaches_of_ne_root he hcrgs) rfl⟩

/-- What is above a raw view, or one with a wrong number of arguments, is seen as raw. -/
theorem Coherent.ancestorArgs_of_bare (hs : s.Coherent) (hd : d ≠ s.root) (he : e ≠ s.root)
    (hne : e ≠ d) (h : s.ancestorArgs c d = some args) (hbare : args = [] ∨ ¬s.Full ⟨d, args⟩)
    (hanc : Ancestor s d e) : s.ancestorArgs c e = some [] := by
  obtain ⟨brgs, hbrgs⟩ := Option.isSome_iff_exists.1
    (ancestorArgs_isSome (c := ⟨d, args⟩) (hs.few d) hanc)
  have hnil : brgs = [] := (args_of_reaches hbare (reaches_of_ne_root he hbrgs)).resolve_left
    fun heq => hne (ClassTy.mk.inj heq).1
  obtain ⟨crgs, hcrgs, hsame⟩ := hs.exists_view hd he h hbrgs
  have hlength := Ty.length_eq_of_sameAll hsame
  rw [hnil, List.length_nil, eq_comm, List.length_eq_zero_iff] at hlength
  rw [hcrgs, hlength]

/-! ### The same arguments -/

theorem passing_same (s : Store) :
    Passing s fun c c' => c.id = c'.id ∧ Ty.sameAll c.args c'.args = true := by
  refine .of_superWith (fun h => h.1) fun {c c' d} h _ t _ => ?_
  refine ⟨by rw [superWith_id, superWith_id], ?_⟩
  rcases superWith_together (Ty.length_eq_of_sameAll h.2) d t with
    ⟨heq, heq'⟩ | ⟨_, us, us', hus, hus', heq, heq'⟩
  · rw [heq, heq']
    rfl
  have hsame := Substitution.applyAll_same fun u (_ : u ∈ t.args) =>
    Substitution.apply_same (Substitution.get?_ofArgs_same h.2 d.params) u
  rw [hus, hus'] at hsame
  rw [heq, heq']
  cases hsame with
  | some hsame => exact hsame

theorem exists_view_of_same (h : s.ancestorArgs c d = some args) (c' : ClassTy)
    (hid : c.id = c'.id) (hsame : Ty.sameAll c.args c'.args = true) :
    ∃ args', s.ancestorArgs c' d = some args' ∧ Ty.sameAll args args' = true := by
  have hviews := (passing_same s).ancestorArgs ⟨hid, hsame⟩ d
  rw [h] at hviews
  cases h' : s.ancestorArgs c' d with
  | none =>
    rw [h'] at hviews
    cases hviews
  | some args' =>
    rw [h'] at hviews
    refine ⟨args', rfl, ?_⟩
    cases hviews with
    | some hviews =>
      rcases hviews with ⟨rfl, rfl⟩ | hviews
      · rfl
      · exact hviews.2

end GenericCalls.Store

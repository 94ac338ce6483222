import GenericCalls.Proofs.Store.Regular
import GenericCalls.Proofs.Ty.Substitution
import Mathlib.Logic.Relation

/-! # Views of a class type

A class type is seen at an ancestor through a chain of supertypes. The search for the ancestor ends
in such a view, and two searches in hierarchies that correspond end in views that correspond.

Where only one chain leads to an ancestor, the view should be what the declared supertypes along the
chain compose to. It is, as long as every class on the chain has type parameters: a class type
without arguments passes none on, also where its class has no parameters and needs none. -/

namespace GenericCalls.Store

variable {s : Store}

/-! ### The end of a search -/

theorem reaches_of_ancestorArgs {c : ClassTy} {d : ClassId} {args : List Ty}
    (hroot : d = s.root → c.id = d) (h : s.ancestorArgs c d = some args) :
    Relation.ReflTransGen (fun c t => t ∈ s.directSupertypes c) c ⟨d, args⟩ := by
  unfold ancestorArgs at h
  split at h
  · rename_i hid
    cases h
    subst hid
    exact .refl
  · rename_i hid
    rw [if_neg fun hd => hid (hroot hd)] at h
    refine searchAncestor_invariant (fun e he t ht => he.tail ht) (fun e he => ?_) h
    rw [List.mem_singleton.1 he]

/-! ### Corresponding searches -/

/-- A correspondence of class types that passes to their supertypes, place by place. -/
structure Passing (s : Store) (R : ClassTy → ClassTy → Prop) : Prop where
  id_eq : ∀ {c c'}, R c c' → c.id = c'.id
  supers : ∀ {c c'}, R c c' → List.Forall₂ R (s.directSupertypes c) (s.directSupertypes c')

/-- Sightings that correspond: of the ancestor with arguments that `V` relates, or of class types
that `R` relates. -/
inductive Sighting.Like (V : List Ty → List Ty → Prop) (R : ClassTy → ClassTy → Prop) :
    Sighting → Sighting → Prop where
  | found {args args' : List Ty} (h : V args args') : Like V R (.found args) (.found args')
  | full : Like V R .full .full
  | missed {visited : List ClassId} {fresh fresh' : List ClassTy} (h : List.Forall₂ R fresh fresh') :
      Like V R (.missed visited fresh) (.missed visited fresh')

variable {R : ClassTy → ClassTy → Prop} {d : ClassId}

theorem Passing.sight (hR : Passing s R) {ts ts' fresh fresh' : List ClassTy}
    (hts : List.Forall₂ R ts ts') (hfresh : List.Forall₂ R fresh fresh') (visited : List ClassId) :
    Sighting.Like (fun args args' => R ⟨d, args⟩ ⟨d, args'⟩) R (sight d ts visited fresh)
      (sight d ts' visited fresh') := by
  induction hts generalizing visited fresh fresh' with
  | nil => exact .missed (List.rel_reverse hfresh)
  | @cons t t' ts ts' h _ ih =>
    obtain ⟨c, args⟩ := t
    obtain ⟨c', args'⟩ := t'
    obtain rfl : c = c' := hR.id_eq h
    unfold Store.sight
    by_cases hd : c = d
    · subst hd
      rw [if_pos rfl, if_pos rfl]
      exact .found h
    · rw [if_neg hd, if_neg hd]
      split
      · exact .full
      · split
        · exact ih hfresh visited
        · exact ih (.cons h hfresh) (c :: visited)

theorem Passing.searchAncestor (hR : Passing s R) (n : Nat) {queue queue' : List ClassTy}
    (hqueue : List.Forall₂ R queue queue') (visited : List ClassId) :
    Option.Rel (fun args args' => R ⟨d, args⟩ ⟨d, args'⟩) (s.searchAncestor d n queue visited)
      (s.searchAncestor d n queue' visited) := by
  induction n generalizing queue queue' visited with
  | zero => exact .none
  | succ n ih =>
    cases hqueue with
    | nil => exact .none
    | @cons c c' queue queue' h hqueue =>
      unfold Store.searchAncestor
      have hsight := hR.sight (d := d) (hR.supers h) .nil visited
      generalize Store.sight d (s.directSupertypes c) visited [] = found at hsight ⊢
      generalize Store.sight d (s.directSupertypes c') visited [] = found' at hsight ⊢
      cases hsight with
      | found h => exact .some h
      | full => exact .none
      | missed h => exact ih (List.rel_append hqueue h) _

/-- Class types that correspond are seen at an ancestor with arguments that correspond, or both
without arguments. -/
theorem Passing.ancestorArgs (hR : Passing s R) {c c' : ClassTy} (h : R c c') (d : ClassId) :
    Option.Rel (fun args args' => args = [] ∧ args' = [] ∨ R ⟨d, args⟩ ⟨d, args'⟩)
      (s.ancestorArgs c d) (s.ancestorArgs c' d) := by
  have hid := hR.id_eq h
  unfold Store.ancestorArgs
  rw [← hid]
  by_cases hd : c.id = d
  · rw [if_pos hd, if_pos hd]
    subst hd
    refine .some (.inr ?_)
    rwa [show (⟨c.id, c'.args⟩ : ClassTy) = c' by rw [hid]]
  · rw [if_neg hd, if_neg hd]
    split
    · exact .some (.inl ⟨rfl, rfl⟩)
    · have hsearch := hR.searchAncestor (d := d) Limits.hierarchy (.cons h .nil) [c.id]
      generalize Store.searchAncestor s d _ [c] _ = r at hsearch ⊢
      generalize Store.searchAncestor s d _ [c'] _ = r' at hsearch ⊢
      cases hsearch with
      | some h => exact .some (.inr h)
      | none => exact .none

/-! ### Supertypes with arguments put in -/

/-- What a declared supertype becomes for a class type with these arguments: it is raw where there
are no arguments, or not one for each parameter. -/
def superWith (d : ClassDecl) (args : List Ty) (t : ClassTy) : ClassTy :=
  if args.isEmpty || args.length != d.params.length then .raw t.id
  else ((Substitution.ofArgs d.params args).substituteClass t).getD (.raw t.id)

theorem directSupertypes_eq {c : ClassTy} {d : ClassDecl} (hd : s.class? c.id = some d) :
    s.directSupertypes c = d.supertypes.map (superWith d c.args) := by
  unfold directSupertypes superWith
  simp only [hd]
  split <;> rfl

theorem superWith_id (d : ClassDecl) (args : List Ty) (t : ClassTy) :
    (superWith d args t).id = t.id := by
  unfold superWith
  split
  · rfl
  · exact id_getD_substituteClass _ t

theorem superWith_of_bare {d : ClassDecl} {args : List Ty} (t : ClassTy)
    (h : args = [] ∨ args.length ≠ d.params.length) : superWith d args t = .raw t.id := by
  unfold superWith
  rw [if_pos]
  rcases h with h | h
  · rw [h]
    rfl
  · rw [bne_iff_ne.2 h, Bool.or_true]

theorem superWith_of_args {d : ClassDecl} {args : List Ty} (t : ClassTy) (hne : args ≠ [])
    (hlength : args.length = d.params.length) :
    ∃ us, Substitution.applyAll (Substitution.ofArgs d.params args).get? t.args = some us ∧
      (Substitution.ofArgs d.params args).substituteClass t = some ⟨t.id, us⟩ ∧
      superWith d args t = ⟨t.id, us⟩ := by
  obtain ⟨us, hus⟩ := Substitution.applyAll_ofArgs d.params args t.args
  have hsubstitute : (Substitution.ofArgs d.params args).substituteClass t = some ⟨t.id, us⟩ := by
    unfold Substitution.substituteClass
    rw [Substitution.isEmpty_ofArgs hne hlength, if_neg Bool.false_ne_true, hus]
    rfl
  refine ⟨us, hus, hsubstitute, ?_⟩
  unfold superWith
  rw [List.isEmpty_eq_false_iff.2 hne, hlength, bne_self_eq_false, Bool.or_false,
    if_neg Bool.false_ne_true, hsubstitute]
  rfl

theorem superWith_together {args args' : List Ty} (hlength : args.length = args'.length)
    (d : ClassDecl) (t : ClassTy) :
    superWith d args t = .raw t.id ∧ superWith d args' t = .raw t.id ∨
      args.length = d.params.length ∧ ∃ us us',
        Substitution.applyAll (Substitution.ofArgs d.params args).get? t.args = some us ∧
        Substitution.applyAll (Substitution.ofArgs d.params args').get? t.args = some us' ∧
        superWith d args t = ⟨t.id, us⟩ ∧ superWith d args' t = ⟨t.id, us'⟩ := by
  by_cases hbare : args = [] ∨ args.length ≠ d.params.length
  · have hbare' : args' = [] ∨ args'.length ≠ d.params.length := by
      rwa [← List.length_eq_zero_iff, ← hlength, List.length_eq_zero_iff]
    exact .inl ⟨superWith_of_bare t hbare, superWith_of_bare t hbare'⟩
  · rw [not_or, ne_eq, Decidable.not_not] at hbare
    obtain ⟨hne, hparams⟩ := hbare
    have hne' : args' ≠ [] := fun hnil => hne <| by
      rwa [← List.length_eq_zero_iff, hlength, List.length_eq_zero_iff]
    obtain ⟨us, hus, _, hsuper⟩ := superWith_of_args t hne hparams
    obtain ⟨us', hus', _, hsuper'⟩ := superWith_of_args t hne' (hlength.symm.trans hparams)
    exact .inr ⟨hparams, us, us', hus, hus', hsuper, hsuper'⟩

/-- A correspondence passes to supertypes if it passes to each declared one. -/
theorem Passing.of_superWith (hid : ∀ {c c'}, R c c' → c.id = c'.id)
    (h : ∀ {c c' d}, R c c' → s.class? c.id = some d → ∀ t ∈ d.supertypes,
      R (superWith d c.args t) (superWith d c'.args t)) : Passing s R where
  id_eq := hid
  supers := by
    intro c c' hc
    cases hd : s.class? c.id with
    | none =>
      have hd' : s.class? c'.id = none := hid hc ▸ hd
      simp only [directSupertypes, hd, hd']
      exact .nil
    | some d =>
      rw [directSupertypes_eq hd, directSupertypes_eq (hid hc ▸ hd), List.forall₂_map_left_iff,
        List.forall₂_map_right_iff, List.forall₂_same]
      exact h hc hd

theorem directSupertypes_of_bare {c : ClassTy} {d : ClassDecl} (hd : s.class? c.id = some d)
    (h : c.args = [] ∨ c.args.length ≠ d.params.length) :
    s.directSupertypes c = d.supertypes.map fun t => .raw t.id := by
  rw [directSupertypes_eq hd]
  exact List.map_congr_left fun t _ => superWith_of_bare t h

/-- With one argument for each parameter, a class type has the declared supertypes with the
arguments put in. -/
theorem directSupertypes_of_args {c : ClassTy} {d : ClassDecl} (hd : s.class? c.id = some d)
    (hne : c.args ≠ []) (hlength : c.args.length = d.params.length) :
    (s.directSupertypes c).map some =
      d.supertypes.map (Substitution.ofArgs d.params c.args).substituteClass := by
  rw [directSupertypes_eq hd, List.map_map]
  refine List.map_congr_left fun t _ => ?_
  obtain ⟨us, _, hsubstitute, hsuper⟩ := superWith_of_args t hne hlength
  rw [Function.comp_apply, hsubstitute, hsuper]

/-! ### Composed supertypes -/

/-- A declared supertype of the class of `c`, by its place, with the arguments of `c` put in. -/
def declaredSuper? (s : Store) (c : ClassTy) (i : Nat) : Option ClassTy :=
  (s.class? c.id).bind fun d =>
    d.supertypes[i]?.bind (Substitution.ofArgs d.params c.args).substituteClass

/-- What the declared supertypes along a chain compose to, each step by the place of a supertype. -/
def composed? (s : Store) : ClassTy → List Nat → Option ClassTy
  | c, [] => some c
  | c, i :: is => (s.declaredSuper? c i).bind (s.composed? · is)

/-- Each class type on a chain of declared supertypes that is not its end passes a test. -/
def EachAlong (s : Store) (P : ClassTy → Prop) : ClassTy → List Nat → Prop
  | _, [] => True
  | c, i :: is => P c ∧ ∀ t, s.declaredSuper? c i = some t → s.EachAlong P t is

/-- What a chain of supertypes leads to, each step by the place of a supertype. -/
def seen? (s : Store) : ClassTy → List Nat → Option ClassTy
  | c, [] => some c
  | c, i :: is => (s.directSupertypes c)[i]?.bind (s.seen? · is)

theorem map_id_declaredSuper? (s : Store) (c : ClassTy) (i : Nat) :
    (s.declaredSuper? c i).map ClassTy.id = (s.supers c.id)[i]? := by
  unfold declaredSuper? supers
  cases s.class? c.id with
  | none => rfl
  | some d =>
    simp only [Option.bind_some, Option.map_some, Option.getD_some, List.getElem?_map]
    cases d.supertypes[i]? with
    | none => rfl
    | some t =>
      obtain ⟨u, hu, hid⟩ := Substitution.exists_substituteClass_ofArgs d.params c.args t
      rw [Option.bind_some, hu, Option.map_some, Option.map_some, hid]

theorem map_id_seen? (s : Store) {c c' : ClassTy} (hid : c.id = c'.id) (is : List Nat) :
    (s.seen? c is).map ClassTy.id = (s.composed? c' is).map ClassTy.id := by
  induction is generalizing c c' with
  | nil => rw [seen?, composed?, Option.map_some, Option.map_some, hid]
  | cons i is ih =>
    have hsuper : (s.directSupertypes c)[i]?.map ClassTy.id =
        (s.declaredSuper? c' i).map ClassTy.id := by
      rw [← List.getElem?_map, map_id_directSupertypes, map_id_declaredSuper?, hid]
    rw [seen?, composed?]
    cases ht : (s.directSupertypes c)[i]? with
    | none =>
      rw [ht, Option.map_none, eq_comm, Option.map_eq_none_iff] at hsuper
      rw [hsuper]
      rfl
    | some t =>
      rw [ht, Option.map_some, eq_comm, Option.map_eq_some_iff] at hsuper
      obtain ⟨t', ht', htid⟩ := hsuper
      rw [ht']
      exact ih htid.symm

theorem seen?_of_reaches {c t : ClassTy}
    (h : Relation.ReflTransGen (fun c t => t ∈ s.directSupertypes c) c t) :
    ∃ is, s.seen? c is = some t := by
  induction h using Relation.ReflTransGen.head_induction_on with
  | refl => exact ⟨[], rfl⟩
  | head hsuper _ ih =>
    obtain ⟨is, his⟩ := ih
    obtain ⟨i, hi⟩ := List.mem_iff_getElem?.1 hsuper
    refine ⟨i :: is, ?_⟩
    rw [seen?, hi]
    exact his

theorem ancestor_of_composed? {c t : ClassTy} {i : Nat} {is : List Nat}
    (h : s.composed? c (i :: is) = some t) : Ancestor s c.id t.id := by
  induction is generalizing c i with
  | nil =>
    obtain ⟨u, hu, hnil⟩ := Option.bind_eq_some_iff.1 h
    cases hnil
    have hid := map_id_declaredSuper? s c i
    rw [hu] at hid
    exact .single (List.mem_of_getElem? hid.symm)
  | cons j is ih =>
    obtain ⟨u, hu, hrest⟩ := Option.bind_eq_some_iff.1 h
    have hid := map_id_declaredSuper? s c i
    rw [hu] at hid
    exact .head (List.mem_of_getElem? hid.symm) (ih hrest)

/-- A class type has one argument for each parameter of its class. -/
def Full (s : Store) (c : ClassTy) : Prop := c.args.length = (s.classParams c.id).length

def Generic (s : Store) (c : ClassTy) : Prop := s.classParams c.id ≠ []

theorem getElem?_directSupertypes {c : ClassTy} (hfull : s.Full c) (hgeneric : s.Generic c)
    (i : Nat) : (s.directSupertypes c)[i]? = s.declaredSuper? c i := by
  unfold Full at hfull
  unfold Generic at hgeneric
  unfold declaredSuper?
  unfold classParams at hfull hgeneric
  cases hd : s.class? c.id with
  | none =>
    rw [hd] at hgeneric
    exact absurd rfl hgeneric
  | some d =>
    rw [hd] at hfull hgeneric
    have hne : c.args ≠ [] := by
      intro hnil
      rw [hnil] at hfull
      exact hgeneric (List.length_eq_zero_iff.1 hfull.symm)
    have hmap := directSupertypes_of_args hd hne hfull
    have hat := congrArg (·[i]?) hmap
    simp only [List.getElem?_map] at hat
    rw [Option.bind_some]
    cases hu : (s.directSupertypes c)[i]? with
    | none =>
      rw [hu] at hat
      rw [Option.map_none, eq_comm, Option.map_eq_none_iff] at hat
      rw [hat]
      rfl
    | some u =>
      rw [hu, Option.map_some, eq_comm, Option.map_eq_some_iff] at hat
      obtain ⟨t, ht, htu⟩ := hat
      rw [ht, Option.bind_some, htu]

theorem args_of_mem_directSupertypes {c t : ClassTy} (hbare : c.args = [])
    (ht : t ∈ s.directSupertypes c) : t.args = [] := by
  cases hd : s.class? c.id with
  | none =>
    unfold directSupertypes at ht
    rw [hd] at ht
    cases ht
  | some d =>
    rw [directSupertypes_of_bare hd (.inl hbare)] at ht
    obtain ⟨u, _, rfl⟩ := List.mem_map.1 ht
    rfl

theorem args_of_seen? {c t : ClassTy} {is : List Nat} (hbare : c.args = [])
    (h : s.seen? c is = some t) : t.args = [] := by
  induction is generalizing c with
  | nil =>
    cases h
    exact hbare
  | cons i is ih =>
    obtain ⟨u, hu, hrest⟩ := Option.bind_eq_some_iff.1 h
    exact ih (args_of_mem_directSupertypes hbare (List.mem_of_getElem? hu)) hrest

/-- Where every class on a chain has type parameters, the arguments are passed on. -/
theorem seen?_eq_composed? {c : ClassTy} {is : List Nat} (hfull : s.EachAlong s.Full c is)
    (hgeneric : s.EachAlong s.Generic c is) : s.seen? c is = s.composed? c is := by
  induction is generalizing c with
  | nil => rfl
  | cons i is ih =>
    rw [seen?, composed?, getElem?_directSupertypes hfull.1 hgeneric.1]
    cases hu : s.declaredSuper? c i with
    | none => rfl
    | some u => exact ih (hfull.2 u hu) (hgeneric.2 u hu)

/-- Where a class on a chain has no type parameters, no arguments are passed on from there. -/
theorem args_of_seen?_of_not_generic {c t : ClassTy} {is : List Nat}
    (hfull : s.EachAlong s.Full c is) (hgeneric : ¬s.EachAlong s.Generic c is)
    (h : s.seen? c is = some t) : t.args = [] := by
  induction is generalizing c with
  | nil => exact absurd trivial hgeneric
  | cons i is ih =>
    by_cases hc : s.Generic c
    · obtain ⟨u, hu, hrest⟩ := Option.bind_eq_some_iff.1 h
      rw [getElem?_directSupertypes hfull.1 hc] at hu
      refine ih (hfull.2 u hu) (fun hall => hgeneric ⟨hc, fun v hv => ?_⟩) hrest
      rw [hu] at hv
      exact Option.some.inj hv ▸ hall
    · have hbare : c.args = [] := by
        have hlength := hfull.1
        unfold Full at hlength
        rw [Classical.not_not.1 hc] at hlength
        exact List.length_eq_zero_iff.1 hlength
      exact args_of_seen? hbare h

/-! ### Arguments passed on -/

theorem substituteClass_ofArgs_nil (t : ClassTy) :
    (Substitution.ofArgs [] []).substituteClass t = some t := rfl

theorem map_raw_eq_iff {ts : List ClassTy} :
    (ts.map fun t => ClassTy.raw t.id) = ts ↔ ∀ t ∈ ts, t.args = [] := by
  induction ts with
  | nil => exact ⟨nofun, fun _ => rfl⟩
  | cons t ts ih =>
    obtain ⟨c, args⟩ := t
    rw [List.map_cons, List.cons.injEq, ih, List.forall_mem_cons, ClassTy.raw, ClassTy.mk.injEq,
      eq_self_iff_true, true_and, eq_comm]

/-- The supertypes of a class type with an argument for each parameter are the declared ones with
the arguments put in if, and only if, its class has type parameters or declares no supertype with
arguments. -/
theorem directSupertypes_eq_iff {c : ClassTy} {d : ClassDecl} (hd : s.class? c.id = some d)
    (hfull : c.args.length = d.params.length) :
    (s.directSupertypes c).map some =
        d.supertypes.map (Substitution.ofArgs d.params c.args).substituteClass ↔
      d.params ≠ [] ∨ ∀ t ∈ d.supertypes, t.args = [] := by
  by_cases hparams : d.params = []
  · have hbare : c.args = [] := by
      rw [hparams] at hfull
      exact List.length_eq_zero_iff.1 hfull
    rw [directSupertypes_of_bare hd (.inl hbare), hbare, hparams,
      List.map_congr_left fun t _ => substituteClass_ofArgs_nil t,
      List.map_inj_right fun _ _ => Option.some.inj, map_raw_eq_iff]
    exact ⟨.inr, fun h => h.resolve_left fun hne => hne rfl⟩
  · have hne : c.args ≠ [] := by
      intro hnil
      rw [hnil] at hfull
      exact hparams (List.length_eq_zero_iff.1 hfull.symm)
    exact ⟨fun _ => .inl hparams, fun _ => directSupertypes_of_args hd hne hfull⟩

/-- At the end of the only chain that leads to an ancestor, a class type is seen with what the
declared supertypes compose to if, and only if, these are no arguments, or every class before the
end has type parameters and the end is not the root class. -/
theorem ancestorArgs_eq_composed_iff {c t : ClassTy} {is : List Nat} (hfew : FewAncestors s c.id)
    (ht : s.composed? c is = some t) (hfull : s.EachAlong s.Full c is)
    (honly : ∀ js, (s.composed? c js).map ClassTy.id = some t.id → js = is) :
    s.ancestorArgs c t.id = some t.args ↔
      t.args = [] ∨ (t.id = s.root → is = []) ∧ s.EachAlong s.Generic c is := by
  cases is with
  | nil =>
    cases ht
    rw [ancestorArgs_self]
    exact ⟨fun _ => .inr ⟨fun _ => rfl, trivial⟩, fun _ => rfl⟩
  | cons i is =>
    have hid : c.id ≠ t.id := by
      intro hid
      have hnil := honly [] (congrArg some hid)
      cases hnil
    by_cases hroot : t.id = s.root
    · have hargs : s.ancestorArgs c t.id = some [] := by
        unfold ancestorArgs
        rw [if_neg hid, if_pos hroot]
      rw [hargs, Option.some_inj, eq_comm]
      refine ⟨.inl, ?_⟩
      rintro (hnil | ⟨hends, _⟩)
      · exact hnil
      · cases hends hroot
    · -- The search ends in some chain to this class, and there is only one.
      obtain ⟨args, hargs⟩ :=
        Option.isSome_iff_exists.1 (ancestorArgs_isSome hfew (ancestor_of_composed? ht))
      obtain ⟨js, hjs⟩ := seen?_of_reaches (reaches_of_ancestorArgs (absurd · hroot) hargs)
      have hend : (s.composed? c js).map ClassTy.id = some t.id := by
        rw [← map_id_seen? s rfl js, hjs, Option.map_some]
      obtain rfl := honly js hend
      rw [hargs, Option.some_inj]
      by_cases hgeneric : s.EachAlong s.Generic c (i :: is)
      · rw [seen?_eq_composed? hfull hgeneric, ht] at hjs
        have hsame : args = t.args := (congrArg ClassTy.args (Option.some.inj hjs)).symm
        exact ⟨fun _ => .inr ⟨(absurd · hroot), hgeneric⟩, fun _ => hsame⟩
      · have hnil : args = [] := args_of_seen?_of_not_generic hfull hgeneric hjs
        rw [hnil, eq_comm]
        exact ⟨.inl, fun h => h.resolve_right fun h' => hgeneric h'.2⟩

/-- Type arguments are passed on to supertypes, and along the only chain to an ancestor, unless a
class without type parameters declares supertypes with arguments. -/
theorem arguments_passed_on_iff (s : Store) :
    (∀ c d, s.class? c.id = some d → c.args.length = d.params.length →
      ((s.directSupertypes c).map some =
          d.supertypes.map (Substitution.ofArgs d.params c.args).substituteClass ↔
        d.params ≠ [] ∨ ∀ t ∈ d.supertypes, t.args = [])) ∧
    ∀ c is t, FewAncestors s c.id → s.composed? c is = some t → s.EachAlong s.Full c is →
      (∀ js, (s.composed? c js).map ClassTy.id = some t.id → js = is) →
      (s.ancestorArgs c t.id = some t.args ↔
        t.args = [] ∨ (t.id = s.root → is = []) ∧ s.EachAlong s.Generic c is) :=
  ⟨fun _ _ hd hfull => directSupertypes_eq_iff hd hfull,
    fun _ _ _ hfew ht hfull honly => ancestorArgs_eq_composed_iff hfew ht hfull honly⟩

/-- The built-in classes with an interface `List<E>`, a class `Strings` that has no type parameters
and implements `List<String>`, and a class `ArrayList<T>` that implements `List<T>`. -/
def lists : Store :=
  let (s, list) := standard.declareClass "List" .interface
  let (s, _) := s.declareParam "E" (.cls list)
  let (s, strings) := s.declareClass "Strings" .concrete
  let s := s.addSupertype strings ⟨list, [.raw 4]⟩
  let (s, arrays) := s.declareClass "ArrayList" .concrete
  let (s, t) := s.declareParam "T" (.cls arrays)
  s.addSupertype arrays ⟨list, [.param t]⟩

theorem lists_few (c : ClassId) : FewAncestors lists c :=
  fewAncestors_of_length (by decide +kernel) c

theorem arguments_passed_on_lists :
    let c : ClassTy := ⟨16, [.raw 4]⟩
    FewAncestors lists c.id ∧ lists.composed? c [0] = some ⟨13, [.raw 4]⟩ ∧
      lists.EachAlong lists.Full c [0] ∧
      (∀ js, (lists.composed? c js).map ClassTy.id = some 13 → js = [0]) ∧
      lists.ancestorArgs c 13 = some [.raw 4] := by
  intro c
  have hcomposed : lists.composed? c [0] = some ⟨13, [.raw 4]⟩ := rfl
  have hfull : lists.EachAlong lists.Full c [0] := ⟨rfl, fun _ _ => trivial⟩
  have hgeneric : lists.EachAlong lists.Generic c [0] := ⟨List.cons_ne_nil 17 [], fun _ _ => trivial⟩
  have honly : ∀ js, (lists.composed? c js).map ClassTy.id = some 13 → js = [0] := by
    intro js hjs
    match js with
    | [] => cases hjs
    | [0] => rfl
    | 0 :: _ :: _ => cases hjs
    | (_ + 1) :: _ => cases hjs
  exact ⟨lists_few 16, hcomposed, hfull, honly,
    ((arguments_passed_on_iff lists).2 c [0] ⟨13, [.raw 4]⟩ (lists_few 16) hcomposed hfull honly).2
      (.inr ⟨nofun, hgeneric⟩)⟩

/-- The class `Strings` is not raw, but sees the raw `List`. -/
theorem arguments_lost_by_strings :
    (lists.class? 15).map ClassDecl.params = some [] ∧ lists.isRaw (.raw 15) = false ∧
      lists.declaredSuper? (.raw 15) 0 = some ⟨13, [.raw 4]⟩ ∧
      lists.directSupertypes (.raw 15) = [.raw 13] ∧ lists.ancestorArgs (.raw 15) 13 = some [] :=
  ⟨rfl, rfl, rfl, rfl, rfl⟩

end GenericCalls.Store

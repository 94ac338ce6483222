import GenericCalls.Inference.Siblings
import GenericCalls.Proofs.Assignable.Transitive
import GenericCalls.Proofs.Lub.UpperBound

/-! # Joining many types

The least upper bound of two types that keep to a usage keeps to it. So where types are used
uniformly the join of a list of types, made from left to right, accepts all of them: each step
accepts the join so far, and through it the types before. -/

namespace GenericCalls.Store

open Ty

variable {s : Store} {U : Usage} {a b c t x y z : Ty} {d n : Nat}

/-! ### Bounds -/

theorem Uniform.keeps_upperBound (hs : s.Uniform U) (hx : KeepsArg s U x) :
    Keeps s U (s.upperBound x) := by
  cases x with
  | param p =>
    cases hx.of_not_wild rfl with
    | param hp => exact hs.upper p hp
  | wild k b =>
    cases b with
    | none => cases k <;> exact hs.object
    | some b =>
      cases k with
      | upper => exact hx.of_wild
      | lower => exact hs.object
  | captured i k b => exact hs.keeps_wildcardUpper (hx.of_not_wild rfl)
  | _ => exact hx.of_not_wild rfl

theorem Uniform.keeps_concreteBound (hs : s.Uniform U) (m : Nat) (h : Keeps s U t) :
    Keeps s U (s.concreteBound m t) := by
  induction m generalizing t with
  | zero => exact hs.object
  | succ m ih =>
    cases ht : t.isVariable with
    | false => rwa [concreteBound_of_not_variable ht]
    | true =>
      rw [concreteBound_of_variable ht]
      exact ih (hs.keeps_upperBound (.ty h))

theorem Keeps.eq_of_box (h : Keeps s U a) (hbox : s.box? a = some b) : b = a := by
  cases a with
  | prim p => cases h
  | _ => exact (Option.some.inj hbox).symm

/-! ### Classes -/

theorem Uniform.keeps_argsAt (hs : s.Uniform U) {e : ClassId} {args : List Ty} (t : Ty)
    (ht : Keeps s U t) (h : argsAt s e t = some args) : Keeps s U (.cls e args) := by
  induction t using Ty.induct with
  | cls c cargs _ => exact hs.keeps_ancestorArgs (c := ⟨c, cargs⟩) ht h
  | inter ts ih =>
    obtain ⟨u, hu, hargs⟩ := exists_argsAt_of_any h
    exact ih u hu (ht.of_inter u hu) hargs
  | _ => cases h

theorem Uniform.root_or_argsAt (hs : s.Uniform U) {e : ClassId} {t : Ty}
    (he : e ∈ s.reachable (rootClasses t)) : e = s.root ∨ ∃ args, argsAt s e t = some args := by
  obtain ⟨c, hc, hreach⟩ := mem_reachable he
  rcases hc with hc | rfl
  · exact .inr (Option.isSome_iff_exists.1 (hs.argsAt_isSome t hc hreach))
  · rcases hreach with h | h
    · exact .inl h.symm
    · exact absurd h (not_ancestor_of_supers_eq_nil hs.rootBare)

theorem insertClass_perm (s : Store) (c : ClassId) (cs : List ClassId) :
    (s.insertClass c cs).Perm (c :: cs) := by
  induction cs with
  | nil => exact .refl _
  | cons e cs ih =>
    rw [insertClass]
    split
    · exact .refl _
    · exact (ih.cons e).trans (.swap c e cs)

theorem sortClasses_perm (s : Store) (cs : List ClassId) : (s.sortClasses cs).Perm cs := by
  induction cs with
  | nil => exact .refl _
  | cons c cs ih => exact (s.insertClass_perm c _).trans (ih.cons c)

theorem commonClasses_nodup (s : Store) (a b : Ty) : (s.commonClasses a b).Nodup := by
  unfold commonClasses
  exact (sortClasses_perm s _).nodup_iff.2 (((reachable_nodup _).filter _).filter _)

/-! ### Joins -/

/-- What the induction on the steps of a join provides for the joins it asks for. -/
def JoinsKeep (s : Store) (U : Usage) (n : Nat) : Prop :=
  ∀ a b d c, Keeps s U a → Keeps s U b → s.lubWithin n a b d = some (some c) → Keeps s U c

theorem Uniform.keeps_leastContaining (hs : s.Uniform U) (hjoins : JoinsKeep s U n)
    (hx : KeepsArg s U x) (hy : KeepsArg s U y)
    (h : s.leastContaining (s.lubWithin n) x y d = some z) : KeepsArg s U z := by
  have hlower {t p : Ty} (ht : KeepsArg s U t) (hp : lowerBound? t = some p) : Keeps s U p := by
    unfold lowerBound? at hp
    obtain ⟨w, hw, hbound⟩ := Option.bind_eq_some_iff.1 hp
    obtain ⟨k, b⟩ := w
    cases k with
    | upper => cases hbound
    | lower => exact ht.keeps_bound hw hbound
  rcases leastContaining_forms x y d with
    hsame | ⟨hne, hdepth | ⟨hdepth, ⟨p, q, hp, hq⟩ | hone | ⟨hnx, hny⟩⟩⟩
  · rw [leastContaining_same hsame] at h
    cases h
    exact hx
  · rw [leastContaining_deep hne hdepth] at h
    cases h
    exact .anything
  · rw [leastContaining_lower hne hdepth hp hq, Option.some_inj] at h
    subst h
    split
    · exact .wild (hlower hy hq)
    · split
      · exact .wild (hlower hx hp)
      · exact .anything
  · rw [leastContaining_mixed hne hone] at h
    cases h
    exact .anything
  · rw [leastContaining_bounds hne hdepth hnx hny, Option.map_eq_some_iff] at h
    obtain ⟨o, ho, rfl⟩ := h
    cases o with
    | none => exact .anything
    | some m =>
      rw [argOfBound]
      split
      · exact .anything
      · exact .wild (hjoins _ _ _ m (hs.keeps_upperBound hx) (hs.keeps_upperBound hy) ho)

theorem Uniform.keeps_joinAt (hs : s.Uniform U) (hjoins : JoinsKeep s U n) (ha : Keeps s U a)
    (hb : Keeps s U b) {e : ClassId} (he : e ∈ s.commonClasses a b)
    (h : s.joinAt (s.lubWithin n) a b d e = some c) : Keeps s U c := by
  by_cases hp : ∃ left right, Paired s e a b left right
  · obtain ⟨left, right, hp⟩ := hp
    rw [joinAt_paired hp, Option.map_eq_some_iff] at h
    obtain ⟨args, hargs, rfl⟩ := h
    obtain ⟨harity, hleft⟩ := (hs.keeps_argsAt a ha hp.leftArgs).of_cls
    have hright := (hs.keeps_argsAt b hb hp.rightArgs).of_cls.2
    rw [mapM_eq_some_iff] at hargs
    have hlength := congrArg List.length hargs
    rw [List.length_map, List.length_map, List.length_zip, ← hp.length, Nat.min_self] at hlength
    refine .cls (by rw [harity, hlength]) fun z hz => ?_
    have hmem : some z ∈ args.map some := List.mem_map_of_mem hz
    rw [← hargs] at hmem
    obtain ⟨p, hp, hz⟩ := List.mem_map.1 hmem
    obtain ⟨hx, hy⟩ := List.of_mem_zip hp
    exact hs.keeps_leastContaining hjoins (hleft _ hx) (hright _ hy) hz
  · rw [joinAt_raw fun left right hlr => hp ⟨left, right, hlr⟩] at h
    cases h
    -- The class has no arguments on either side: both sides see as many.
    have harity : U.arity e = some 0 := by
      obtain ⟨hleft, hright⟩ := mem_reachable_of_mem_commonClasses he
      rcases hs.root_or_argsAt hleft with rfl | ⟨left, hleft⟩
      · exact hs.root
      rcases hs.root_or_argsAt hright with rfl | ⟨right, hright⟩
      · exact hs.root
      have harity := (hs.keeps_argsAt a ha hleft).of_cls.1
      have harity' := (hs.keeps_argsAt b hb hright).of_cls.1
      have hnil : left = [] := by
        by_contra hne
        exact hp ⟨left, right, hleft, hright, hne, Option.some.inj (harity.symm.trans harity')⟩
      rw [harity, hnil]
      rfl
    exact .cls harity fun _ h => absurd h List.not_mem_nil

theorem exists_isObject_eq_false {join : Ty → Ty → Nat → Option (Option Ty)} {es : List ClassId}
    {u : Ty} {ts : List Ty} (hnodup : es.Nodup)
    (h : es.map (s.joinAt join a b d) = (t :: u :: ts).map some) :
    ∃ v ∈ t :: u :: ts, s.isObject v = false := by
  cases es with
  | nil => cases h
  | cons e es =>
    cases es with
    | nil =>
      rw [List.map_cons, List.map_cons, List.cons.injEq] at h
      cases h.2
    | cons e' es =>
      rw [List.map_cons, List.map_cons, List.map_cons, List.map_cons, List.cons.injEq,
        List.cons.injEq] at h
      obtain ⟨args, rfl⟩ := joinAt_eq_cls h.1
      obtain ⟨args', rfl⟩ := joinAt_eq_cls h.2.1
      have hne : e ≠ e' := fun heq => (List.nodup_cons.1 hnodup).1 (heq ▸ List.mem_cons_self)
      by_cases he : e = s.root
      · refine ⟨.cls e' args', List.mem_cons_of_mem _ List.mem_cons_self, ?_⟩
        exact beq_eq_false_iff_ne.2 fun he' => hne (he.trans he'.symm)
      · exact ⟨.cls e args, List.mem_cons_self, beq_eq_false_iff_ne.2 he⟩

theorem Uniform.keeps_joinClasses (hs : s.Uniform U) (hjoins : JoinsKeep s U n) (ha : Keeps s U a)
    (hb : Keeps s U b) (h : s.joinClasses (s.lubWithin n) a b d = some c) : Keeps s U c := by
  unfold joinClasses at h
  rw [Option.map_eq_some_iff] at h
  obtain ⟨ts, hts, rfl⟩ := h
  rw [mapM_eq_some_iff] at hts
  have hparts : ∀ t ∈ ts, Keeps s U t ∧ t.isNull = false := by
    intro t ht
    have hmem : some t ∈ ts.map some := List.mem_map_of_mem ht
    rw [← hts] at hmem
    obtain ⟨e, he, hjoin⟩ := List.mem_map.1 hmem
    obtain ⟨args, rfl⟩ := joinAt_eq_cls hjoin
    exact ⟨hs.keeps_joinAt hjoins ha hb he hjoin, rfl⟩
  have hkeeps := fun t ht => (hparts t ht).1
  cases ts with
  | nil => exact hs.object
  | cons t ts =>
    cases ts with
    | nil => exact hkeeps t List.mem_cons_self
    | cons u ts =>
      exact .inter (fun t ht => (hparts t ht).2)
        (exists_isObject_eq_false (s.commonClasses_nodup a b) hts) hkeeps

theorem Uniform.keeps_lubWithin (hs : s.Uniform U) (n : Nat) : JoinsKeep s U n := by
  induction n with
  | zero =>
    intro a b d c _ _ h
    cases h
  | succ n ih =>
    intro a b d c ha hb h
    have h : s.lubStep (s.lubWithin n) a b d = some (some c) := h
    rcases s.settled_or_apart a b with ⟨r, hr⟩ | ⟨a', b', hap⟩
    · rw [lubStep_settled hr] at h
      cases h
      cases hr with
      | same _ _ => exact ha
      | leftNull hboxed _ => exact hb.eq_of_box hboxed.right ▸ hb
      | rightNull hboxed _ _ => exact ha.eq_of_box hboxed.left ▸ ha
      | left hc _ _ => exact ha.eq_of_box hc.left ▸ ha
      | right hc _ _ => exact hb.eq_of_box hc.right ▸ hb
      | @either a' b' hc _ _ =>
        rcases chooseForm_eq a' b' with hform | hform
        · rw [hform, ha.eq_of_box hc.left]
          exact ha
        · rw [hform, hb.eq_of_box hc.right]
          exact hb
    · -- No primitive types are joined, so boxing leaves both as they are.
      obtain rfl := ha.eq_of_box hap.left
      obtain rfl := hb.eq_of_box hap.right
      rcases forms a' b' with hvar | ⟨t, u, rfl, rfl⟩ | hone | hby
      · rw [lubStep_bounds hap hvar] at h
        exact ih _ _ d c (hs.keeps_concreteBound _ ha) (hs.keeps_concreteBound _ hb) h
      · rw [lubStep_arrays hap] at h
        split at h
        · cases h
          exact hs.object
        · rename_i href
          rw [Bool.not_eq_true, Bool.or_eq_false_iff] at href
          rw [Option.map_eq_some_iff] at h
          obtain ⟨r, hr, hc⟩ := h
          cases r with
          | none =>
            cases hc
            exact hs.object
          | some r =>
            cases hc
            exact .array (ih t u d r (ha.of_array_ref href.1) (hb.of_array_ref href.2) hr)
      · rw [lubStep_oneArray hap hone] at h
        cases h
        exact hs.object
      · rw [lubStep_classes hap hby, Option.map_eq_some_iff] at h
        obtain ⟨r, hr, hc⟩ := h
        cases hc
        exact hs.keeps_joinClasses ih ha hb hr

/-! ### Joins of many types -/

theorem Uniform.keeps_lub (hs : s.Uniform U) (ha : Keeps s U a) (hb : Keeps s U b)
    (h : s.lub a b = some c) : Keeps s U c := by
  obtain ⟨n, hn⟩ := lubWithin_of_lub h
  exact hs.keeps_lubWithin n a b 0 c ha hb hn

theorem Regular.accepts_lub (hs : s.Regular) (ha : a.regular = true) (hb : b.regular = true)
    (hlimit : JoinsWithinLimit s a b 0) (h : s.lub a b = some c) :
    Accepts s true c a ∧ Accepts s true c b := by
  obtain ⟨n, hn⟩ := lubWithin_of_lub h
  exact hs.joinsAbove n a b 0 c ha hb hlimit hn

/-- The limit on nested checks does not matter where a type is joined with others one after
another. -/
def FoldWithinLimit (s : Store) : Ty → List Ty → Prop
  | _, [] => True
  | t, u :: us => JoinsWithinLimit s t u 0 ∧ ∀ v, s.lub t u = some v → s.FoldWithinLimit v us

/-- The join of a type with others one after another accepts all of them. -/
theorem Uniform.accepts_foldlM (hs : s.Uniform U) {us : List Ty} (ht : Keeps s U t)
    (hus : ∀ u ∈ us, Keeps s U u) (hlimit : FoldWithinLimit s t us)
    (h : us.foldlM (fun u v => s.lub u v) t = some c) :
    Keeps s U c ∧ Accepts s true c t ∧ ∀ u ∈ us, Accepts s true c u := by
  induction us generalizing t with
  | nil =>
    cases h
    exact ⟨ht, accepts_self ht.known, fun u hu => absurd hu List.not_mem_nil⟩
  | cons u us ih =>
    rw [List.forall_mem_cons] at hus
    rw [List.foldlM_cons] at h
    obtain ⟨v, hv, h⟩ := Option.bind_eq_some_iff.1 h
    have hkeeps := hs.keeps_lub ht hus.1 hv
    obtain ⟨hvt, hvu⟩ := hs.accepts_lub ht.regular hus.1.regular hlimit.1 hv
    obtain ⟨hc, hcv, hall⟩ := ih hkeeps hus.2 (hlimit.2 v hv) h
    exact ⟨hc, hs.accepts_trans hc hkeeps ht hcv hvt,
      List.forall_mem_cons.2 ⟨hs.accepts_trans hc hkeeps hus.1 hcv hvu, hall⟩⟩

end GenericCalls.Store

import GenericCalls.Proofs.Lub.Uniform
import GenericCalls.Proofs.Store.Preserves

/-! # Least upper bounds with a property

Where the store preserves a property, the least upper bound of two types that have it has it, too.
It is made of parts of the two types, of their upper bounds, of the type arguments with which their
ancestors are seen, and of the classes that both reach. -/

namespace GenericCalls.Store

open Ty

variable {s : Store} {P : Ty → Prop} {a b c t x y z : Ty} {d n : Nat}

namespace Preserves

/-! ### Parts -/

theorem lowerBound (hs : s.Preserves P) {b : Ty} (ht : P t) (h : lowerBound? t = some b) : P b := by
  unfold lowerBound? at h
  obtain ⟨⟨k, bound⟩, hw, hb⟩ := Option.bind_eq_some_iff.1 h
  cases k with
  | upper => cases hb
  | lower => exact hs.bound ht hw hb

theorem argsAt (hs : s.Preserves P) {c : ClassId} {args : List Ty} (t : Ty) (ht : P t)
    (h : argsAt s c t = some args) : P (.cls c args) := by
  induction t using Ty.induct with
  | cls d brgs _ => exact hs.ancestorArgs (c := ⟨d, brgs⟩) ht h
  | inter ts ih =>
    obtain ⟨u, hu, hargs⟩ := exists_argsAt_of_any h
    exact ih u hu (hs.inter.1 ht u hu) hargs
  | _ => cases h

theorem raw_of_rootClasses (hs : s.Preserves P) (t : Ty) (ht : P t) :
    ∀ d ∈ rootClasses t, P (.raw d) := by
  induction t using Ty.induct with
  | cls d args _ =>
    intro e he
    rw [List.mem_singleton.1 he]
    exact hs.raw ht
  | inter ts ih =>
    intro e he
    obtain ⟨u, hu, heu⟩ := exists_rootClasses_of_all he
    exact ih u hu (hs.inter.1 ht u hu) e heu
  | _ => exact nofun

theorem concreteBound (hs : s.Preserves P) (m : Nat) (h : P t) : P (s.concreteBound m t) := by
  induction m generalizing t with
  | zero => exact hs.object
  | succ m ih =>
    cases ht : t.isVariable with
    | false => rwa [concreteBound_of_not_variable ht]
    | true =>
      rw [concreteBound_of_variable ht]
      exact ih (hs.upperBound h)

end Preserves

/-! ### Joins -/

/-- What the induction on the steps of a join provides for the joins it asks for. -/
def JoinsHave (s : Store) (P : Ty → Prop) (n : Nat) : Prop :=
  ∀ a b d c, P a → P b → s.lubWithin n a b d = some (some c) → P c

namespace Preserves

theorem leastContaining (hs : s.Preserves P) (hjoins : JoinsHave s P n) (hx : P x) (hy : P y)
    (h : s.leastContaining (s.lubWithin n) x y d = some z) : P z := by
  have hanything : P anything := hs.unbounded .upper
  rcases leastContaining_forms x y d with
    hsame | ⟨hne, hdepth | ⟨hdepth, ⟨p, q, hp, hq⟩ | hone | ⟨hnx, hny⟩⟩⟩
  · rw [leastContaining_same hsame] at h
    cases h
    exact hx
  · rw [leastContaining_deep hne hdepth] at h
    cases h
    exact hanything
  · rw [leastContaining_lower hne hdepth hp hq, Option.some_inj] at h
    subst h
    split
    · exact hs.wild.2 (hs.lowerBound hy hq)
    · split
      · exact hs.wild.2 (hs.lowerBound hx hp)
      · exact hanything
  · rw [leastContaining_mixed hne hone] at h
    cases h
    exact hanything
  · rw [leastContaining_bounds hne hdepth hnx hny, Option.map_eq_some_iff] at h
    obtain ⟨o, ho, rfl⟩ := h
    cases o with
    | none => exact hanything
    | some m =>
      rw [argOfBound]
      split
      · exact hanything
      · exact hs.wild.2 (hjoins _ _ _ m (hs.upperBound hx) (hs.upperBound hy) ho)

theorem joinAt (hs : s.Preserves P) (hjoins : JoinsHave s P n) (ha : P a) (hb : P b) {e : ClassId}
    (he : P (.raw e)) (h : s.joinAt (s.lubWithin n) a b d e = some c) : P c := by
  by_cases hp : ∃ left right, Paired s e a b left right
  · obtain ⟨left, right, hp⟩ := hp
    have hleft := hs.argsAt a ha hp.leftArgs
    rw [joinAt_paired hp, Option.map_eq_some_iff] at h
    obtain ⟨args, hargs, rfl⟩ := h
    rw [mapM_eq_some_iff] at hargs
    refine hs.refill hleft ?_ fun z hz => ?_
    · have hlength := congrArg List.length hargs
      rw [List.length_map, List.length_map, List.length_zip, ← hp.length, Nat.min_self] at hlength
      exact hlength.symm
    · have hmem : some z ∈ args.map some := List.mem_map_of_mem hz
      rw [← hargs] at hmem
      obtain ⟨p, hpair, hz⟩ := List.mem_map.1 hmem
      obtain ⟨hx, hy⟩ := List.of_mem_zip hpair
      exact hs.leastContaining hjoins (hs.args hleft _ hx)
        (hs.args (hs.argsAt b hb hp.rightArgs) _ hy) hz
  · rw [joinAt_raw fun left right hlr => hp ⟨left, right, hlr⟩] at h
    cases h
    exact he

theorem meetOf (hs : s.Preserves P) {ts : List Ty} (h : ∀ t ∈ ts, P t) : P (s.meetOf ts) := by
  match ts with
  | [] => exact hs.object
  | [t] => exact h t List.mem_cons_self
  | _ :: _ :: _ => exact hs.inter.2 h

theorem joinClasses (hs : s.Preserves P) (hjoins : JoinsHave s P n) (ha : P a) (hb : P b)
    (h : s.joinClasses (s.lubWithin n) a b d = some c) : P c := by
  unfold Store.joinClasses at h
  obtain ⟨ts, hts, rfl⟩ := Option.map_eq_some_iff.1 h
  rw [mapM_eq_some_iff] at hts
  refine hs.meetOf fun t ht => ?_
  have hmem : some t ∈ ts.map some := List.mem_map_of_mem ht
  rw [← hts] at hmem
  obtain ⟨e, he, hjoin⟩ := List.mem_map.1 hmem
  have hraw := hs.raw_of_reachable (hs.raw_of_rootClasses a ha)
    (mem_reachable_of_mem_commonClasses he).1
  exact hs.joinAt hjoins ha hb hraw hjoin

theorem of_settled (hs : s.Preserves P) (ha : P a) (hb : P b) (h : Settled s a b (some c)) :
    P c := by
  cases h with
  | same _ _ => exact ha
  | leftNull hboxed _ => exact hs.box hb hboxed.right
  | rightNull hboxed _ _ => exact hs.box ha hboxed.left
  | left hc _ _ => exact hs.box ha hc.left
  | right hc _ _ => exact hs.box hb hc.right
  | @either a' b' hc _ _ =>
    rcases chooseForm_eq a' b' with hform | hform
    · rw [hform]
      exact hs.box ha hc.left
    · rw [hform]
      exact hs.box hb hc.right

theorem lubWithin (hs : s.Preserves P) (n : Nat) : JoinsHave s P n := by
  induction n with
  | zero =>
    intro a b d c _ _ h
    cases h
  | succ n ih =>
    intro a b d c ha hb h
    have h : s.lubStep (s.lubWithin n) a b d = some (some c) := h
    rcases s.settled_or_apart a b with ⟨r, hr⟩ | ⟨a', b', hap⟩
    · rw [lubStep_settled hr] at h
      cases h
      exact hs.of_settled ha hb hr
    · have ha' := hs.box ha hap.left
      have hb' := hs.box hb hap.right
      -- Each form asks for joins of parts or bounds, with one step less.
      rcases forms a' b' with hvar | ⟨t, u, rfl, rfl⟩ | hone | hby
      · rw [lubStep_bounds hap hvar] at h
        exact ih _ _ d c (hs.concreteBound _ ha') (hs.concreteBound _ hb') h
      · rw [lubStep_arrays hap] at h
        split at h
        · cases h
          exact hs.object
        · obtain ⟨r, hr, hc⟩ := Option.map_eq_some_iff.1 h
          cases r with
          | none =>
            cases hc
            exact hs.object
          | some r =>
            cases hc
            exact hs.array.2 (ih t u d r (hs.array.1 ha') (hs.array.1 hb') hr)
      · rw [lubStep_oneArray hap hone] at h
        cases h
        exact hs.object
      · rw [lubStep_classes hap hby] at h
        obtain ⟨r, hr, hc⟩ := Option.map_eq_some_iff.1 h
        cases hc
        exact hs.joinClasses ih ha' hb' hr

theorem lub (hs : s.Preserves P) (ha : P a) (hb : P b) (h : s.lub a b = some c) : P c := by
  obtain ⟨n, hn⟩ := lubWithin_of_lub h
  exact hs.lubWithin n a b 0 c ha hb hn

theorem foldlM_lub (hs : s.Preserves P) {ts : List Ty} (ha : P a) (hts : ∀ t ∈ ts, P t)
    (h : ts.foldlM (fun u v => s.lub u v) a = some c) : P c := by
  induction ts generalizing a with
  | nil =>
    cases h
    exact ha
  | cons t ts ih =>
    rw [List.foldlM_cons] at h
    obtain ⟨u, hu, hrest⟩ := Option.bind_eq_some_iff.1 h
    obtain ⟨ht, hts⟩ := List.forall_mem_cons.1 hts
    exact ih (hs.lub ha ht hu) hts hrest

end Preserves

end GenericCalls.Store

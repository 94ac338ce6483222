import GenericCalls.Proofs.Lub.Calls
import GenericCalls.Proofs.Lub.Classes

/-! # Least upper bounds in either order

The least upper bounds of two types in both orders are computed side by side and are the same, with
one exception. Of two lower bounds assignable to each other, that of the argument named second is
kept, so that different ones clash. The clash is seen in the result unless the bound it is part of
turns into `?`. -/

namespace GenericCalls.Store

variable {s : Store} {a b a' b' x y : Ty} {d : Nat}

/-! ### Clashes -/

/-- The least upper bound of two types at a depth is the root class. -/
def JoinsToObject (s : Store) (a b : Ty) (d : Nat) : Prop :=
  ∃ n r, s.lubWithin n a b d = some (some r) ∧ s.isObject r = true

/-- Joining two types meets two lower bounds that are not the same but assignable to each other, and
the result shows which one is kept. -/
inductive Clash (s : Store) : Ty → Ty → Nat → Prop where
  | lower {a b x y p q : Ty} {d : Nat} (holds : Holds s a b d x y)
      (left : lowerBound? x = some p) (right : lowerBound? y = some q)
      (above : s.assignable p q = true) (below : s.assignable q p = true)
      (different : (p == q) = false) : Clash s a b d
  | beside {a b a' b' : Ty} {d : Nat} (call : Calls s a b d a' b' d) (clash : Clash s a' b' d) :
      Clash s a b d
  | inside {a b a' b' : Ty} {d : Nat} (call : Calls s a b d a' b' (d + 1))
      (shown : ¬JoinsToObject s a' b' (d + 1)) (clash : Clash s a' b' (d + 1)) : Clash s a b d

/-- Two type arguments whose least containing one depends on which of them is named first. -/
inductive ArgClash (s : Store) (x y : Ty) (d : Nat) : Prop where
  | lower {p q : Ty} (different : (x == y) = false) (depth : d < Limits.lubDepth)
      (left : lowerBound? x = some p) (right : lowerBound? y = some q)
      (above : s.assignable p q = true) (below : s.assignable q p = true)
      (bounds : (p == q) = false) : ArgClash s x y d
  | inside (different : (x == y) = false) (depth : d < Limits.lubDepth)
      (left : lowerBound? x = none) (right : lowerBound? y = none)
      (shown : ¬JoinsToObject s (s.upperBound x) (s.upperBound y) (d + 1))
      (clash : Clash s (s.upperBound x) (s.upperBound y) (d + 1)) : ArgClash s x y d

theorem Holds.apart (h : Holds s a b d x y) : ∃ a' b', Apart s a b a' b' ∧ ByClasses a' b' := by
  obtain ⟨hap, hby, _, _, _, _, _⟩ := h
  exact ⟨_, _, hap, hby⟩

theorem Calls.apart {e : Nat} (h : Calls s a b d x y e) : ∃ a' b', Apart s a b a' b' := by
  cases h with
  | bounds hap _ => exact ⟨_, _, hap⟩
  | components hap _ => exact ⟨_, _, hap⟩
  | arguments holds _ _ =>
    obtain ⟨a', b', hap, _⟩ := holds.apart
    exact ⟨a', b', hap⟩

theorem Clash.apart (h : Clash s a b d) : ∃ a' b', Apart s a b a' b' := by
  cases h with
  | lower holds _ _ _ _ _ =>
    obtain ⟨a', b', hap, _⟩ := holds.apart
    exact ⟨a', b', hap⟩
  | beside call _ => exact call.apart
  | inside call _ _ => exact call.apart

theorem clash_cases (h : Apart s a b a' b') (hc : Clash s a b d) :
    ((a'.isVariable || b'.isVariable) = true ∧ Clash s (s.concreteBound Limits.boundChain a')
        (s.concreteBound Limits.boundChain b') d) ∨
      (∃ t u, a' = .array t ∧ b' = .array u ∧ (t.isPrim || u.isPrim) = false ∧ Clash s t u d) ∨
      (ByClasses a' b' ∧ ∃ x y, Holds s a b d x y ∧ ArgClash s x y d) := by
  cases hc with
  | lower holds hx hy habove hbelow hpq =>
    obtain ⟨c, c', hap, hby⟩ := holds.apart
    obtain ⟨rfl, rfl⟩ := h.unique hap
    have ⟨_, _, _, _, _, hne, hdepth⟩ := holds
    exact .inr (.inr ⟨hby, _, _, holds, .lower hne hdepth hx hy habove hbelow hpq⟩)
  | beside call clash =>
    cases call with
    | bounds hap hvar =>
      obtain ⟨rfl, rfl⟩ := h.unique hap
      exact .inl ⟨hvar, clash⟩
    | components hap hrefs =>
      obtain ⟨rfl, rfl⟩ := h.unique hap
      exact .inr (.inl ⟨_, _, rfl, rfl, hrefs, clash⟩)
  | inside call shown clash =>
    cases call with
    | arguments holds hx hy =>
      obtain ⟨c, c', hap, hby⟩ := holds.apart
      obtain ⟨rfl, rfl⟩ := h.unique hap
      have ⟨_, _, _, _, _, hne, hdepth⟩ := holds
      exact .inr (.inr ⟨hby, _, _, holds, .inside hne hdepth hx hy shown clash⟩)

theorem argClash_iff_of_lower {p q : Ty} (hne : (x == y) = false) (hdepth : d < Limits.lubDepth)
    (hx : lowerBound? x = some p) (hy : lowerBound? y = some q) :
    ArgClash s x y d ↔
      s.assignable p q = true ∧ s.assignable q p = true ∧ (p == q) = false := by
  constructor
  · intro h
    cases h with
    | lower _ _ hx' hy' habove hbelow hpq =>
      rw [hx] at hx'
      rw [hy] at hy'
      cases hx'
      cases hy'
      exact ⟨habove, hbelow, hpq⟩
    | inside _ _ hx' _ _ _ =>
      rw [hx] at hx'
      cases hx'
  · rintro ⟨habove, hbelow, hpq⟩
    exact .lower hne hdepth hx hy habove hbelow hpq

theorem argClash_iff_of_bounds (hne : (x == y) = false) (hdepth : d < Limits.lubDepth)
    (hx : lowerBound? x = none) (hy : lowerBound? y = none) :
    ArgClash s x y d ↔ ¬JoinsToObject s (s.upperBound x) (s.upperBound y) (d + 1) ∧
      Clash s (s.upperBound x) (s.upperBound y) (d + 1) := by
  constructor
  · intro h
    cases h with
    | lower _ _ hx' _ _ _ _ =>
      rw [hx] at hx'
      cases hx'
    | inside _ _ _ _ shown clash => exact ⟨shown, clash⟩
  · rintro ⟨shown, clash⟩
    exact .inside hne hdepth hx hy shown clash

theorem clash_of_argClash (holds : Holds s a b d x y) (h : ArgClash s x y d) : Clash s a b d := by
  cases h with
  | lower _ _ hx hy habove hbelow hpq => exact .lower holds hx hy habove hbelow hpq
  | inside _ _ hx hy shown clash => exact .inside (.arguments holds hx hy) shown clash

theorem clash_iff_of_bounds (h : Apart s a b a' b')
    (hvar : (a'.isVariable || b'.isVariable) = true) :
    Clash s a b d ↔ Clash s (s.concreteBound Limits.boundChain a')
      (s.concreteBound Limits.boundChain b') d := by
  constructor
  · intro hc
    rcases clash_cases h hc with ⟨_, clash⟩ | ⟨t, u, rfl, rfl, _, _⟩ | ⟨hby, _⟩
    · exact clash
    · cases hvar
    · rw [hby.noVariable] at hvar
      cases hvar
  · exact fun hc => .beside (.bounds h hvar) hc

theorem clash_iff_of_components {t u : Ty} (h : Apart s a b (.array t) (.array u)) :
    Clash s a b d ↔ (t.isPrim || u.isPrim) = false ∧ Clash s t u d := by
  constructor
  · intro hc
    rcases clash_cases h hc with ⟨hvar, _⟩ | ⟨t', u', ht, hu, hrefs, clash⟩ | ⟨hby, _⟩
    · cases hvar
    · cases ht
      cases hu
      exact ⟨hrefs, clash⟩
    · cases hby.left
  · exact fun ⟨hrefs, hc⟩ => .beside (.components h hrefs) hc

theorem not_clash_of_oneArray (h : Apart s a b a' b') (hone : OneArray a' b') :
    ¬Clash s a b d := by
  intro hc
  have hcomponent := hone.one
  rcases clash_cases h hc with ⟨hvar, _⟩ | ⟨t, u, rfl, rfl, _, _⟩ | ⟨hby, _⟩
  · rw [hone.noVariable] at hvar
    cases hvar
  · cases hcomponent
  · rw [hby.left, hby.right] at hcomponent
    cases hcomponent

theorem clash_iff_of_classes (h : Apart s a b a' b') (hby : ByClasses a' b') :
    Clash s a b d ↔ ∃ c ∈ s.commonClasses a' b', ∃ left right, Paired s c a' b' left right ∧
      ∃ p ∈ left.zip right, ArgClash s p.1 p.2 d := by
  constructor
  · intro hc
    rcases clash_cases h hc with ⟨hvar, _⟩ | ⟨t, u, rfl, _, _, _⟩ | ⟨_, x, y, holds, harg⟩
    · rw [hby.noVariable] at hvar
      cases hvar
    · cases hby.left
    · obtain ⟨hap, _, hcommon, hp, hmem, _, _⟩ := holds
      obtain ⟨rfl, rfl⟩ := h.unique hap
      exact ⟨_, hcommon, _, _, hp, _, hmem, harg⟩
  · rintro ⟨c, hcommon, left, right, hp, ⟨x, y⟩, hmem, harg⟩
    have hne : (x == y) = false := by cases harg <;> assumption
    have hdepth : d < Limits.lubDepth := by cases harg <;> assumption
    exact clash_of_argClash ⟨h, hby, hcommon, hp, hmem, hne, hdepth⟩ harg

/-! ### Mirrored answers -/

/-- Two types that are the root class together, and the same exactly when `P` holds. -/
structure Twins (s : Store) (P : Prop) (t u : Ty) : Prop where
  object : s.isObject t = s.isObject u
  same : (t == u) = true ↔ P

/-- The least upper bounds of two types in both orders: two twins, or none where `P` holds. -/
inductive Mirrored (s : Store) (P : Prop) : Option Ty → Option Ty → Prop where
  | absent (h : P) : Mirrored s P none none
  | present {t u : Ty} (h : Twins s P t u) : Mirrored s P (some t) (some u)

theorem twins_of_beq {P : Prop} {t u : Ty} (h : (t == u) = true) (hP : P) : Twins s P t u :=
  ⟨Ty.isObject_eq_of_beq s h, ⟨fun _ => hP, fun _ => h⟩⟩

theorem twins_refl {P : Prop} (t : Ty) (hP : P) : Twins s P t t :=
  twins_of_beq (BEq.refl t) hP

theorem chooseForm_comm (t u : Ty) : (chooseForm t u == chooseForm u t) = true := by
  have hleast := Ty.least_comm t u
  unfold chooseForm
  split
  · rename_i c d e es
    by_cases hcd : c = d
    · rw [if_pos hcd, if_pos hcd.symm]
      exact BEq.refl _
    · rw [if_neg hcd, if_neg (Ne.symm hcd)]
      exact hleast
  · rename_i c e es d
    by_cases hcd : c = d
    · rw [if_pos hcd, if_pos hcd.symm]
      exact BEq.refl _
    · rw [if_neg hcd, if_neg (Ne.symm hcd)]
      exact hleast
  · rename_i hraw hargs
    split
    · exact absurd rfl (hargs _ _ _ _ rfl)
    · exact absurd rfl (hraw _ _ _ _ rfl)
    · exact hleast

theorem settled_mirrored {P : Prop} {r : Option Ty} (h : Settled s a b r) (hP : P) :
    ∃ r', Settled s b a r' ∧ Mirrored s P r r' := by
  cases h with
  | unknown h =>
    rw [Bool.or_comm] at h
    exact ⟨none, .unknown h, .absent hP⟩
  | same h heq =>
    have heq' := heq
    rw [Bool.or_comm] at h
    rw [Ty.beq_comm] at heq'
    exact ⟨some b, .same h heq', .present (twins_of_beq heq hP)⟩
  | unwrapped h hne hbox =>
    rw [Bool.or_comm] at h
    rw [Ty.beq_comm] at hne
    exact ⟨none, .unwrapped h hne hbox.symm, .absent hP⟩
  | @leftNull a' b' h hnull =>
    cases hnull' : b'.isNull with
    | false => exact ⟨some b', .rightNull h.symm hnull' hnull, .present (twins_refl b' hP)⟩
    | true =>
      refine ⟨some a', .leftNull h.symm hnull', .present ?_⟩
      rw [Ty.isNull_iff.1 hnull, Ty.isNull_iff.1 hnull']
      exact twins_refl _ hP
  | @rightNull a' b' h hvalue hnull =>
    exact ⟨some a', .leftNull h.symm hnull, .present (twins_refl a' hP)⟩
  | @either a' b' h habove hbelow =>
    have hform : Twins s P _ _ := twins_of_beq (chooseForm_comm a' b') hP
    exact ⟨_, .either h.symm hbelow habove, .present hform⟩
  | @left a' b' h habove hbelow =>
    exact ⟨some a', .right h.symm hbelow habove, .present (twins_refl a' hP)⟩
  | @right a' b' h habove hbelow =>
    exact ⟨some b', .left h.symm hbelow habove, .present (twins_refl b' hP)⟩

/-- Two lists of types, place by place the root class together, and all the same exactly when `P`
holds. -/
structure TwinLists (s : Store) (P : Prop) (ts us : List Ty) : Prop where
  objects : ts.map s.isObject = us.map s.isObject
  same : Ty.sameAll ts us = true ↔ P

theorem twinLists_mapM {α : Type} {f g : α → Option Ty} {P : α → Prop} (xs : List α)
    (h : ∀ x ∈ xs, Option.Rel (Twins s (P x)) (f x) (g x)) :
    Option.Rel (TwinLists s (∀ x ∈ xs, P x)) (xs.mapM f) (xs.mapM g) := by
  induction xs with
  | nil => exact .some ⟨rfl, ⟨fun _ x hx => (List.not_mem_nil hx).elim, fun _ => rfl⟩⟩
  | cons x xs ih =>
    have hx := h x List.mem_cons_self
    have hxs := ih fun y hy => h y (List.mem_cons_of_mem x hy)
    rw [List.mapM_cons, List.mapM_cons]
    revert hx hxs
    cases f x <;> cases g x <;> intro hx hxs
    · exact .none
    · cases hx
    · cases hx
    · revert hxs
      cases xs.mapM f <;> cases xs.mapM g <;> intro hxs
      · exact .none
      · cases hxs
      · cases hxs
      · cases hx with
        | some hx =>
          cases hxs with
          | some hxs =>
            refine .some ⟨?_, ?_⟩
            · rw [List.map_cons, List.map_cons, hx.object, hxs.objects]
            · rw [Ty.sameAll, Bool.and_eq_true, List.forall_mem_cons, ← Ty.beq_eq_same, hx.same,
                hxs.same]

theorem twins_meetOf {P : Prop} {ts us : List Ty} (h : TwinLists s P ts us) :
    Twins s P (s.meetOf ts) (s.meetOf us) := by
  obtain ⟨hobjects, hsame⟩ := h
  cases ts with
  | nil =>
    cases us with
    | nil => exact ⟨rfl, ⟨fun _ => hsame.1 rfl, fun _ => BEq.refl _⟩⟩
    | cons u us => cases hobjects
  | cons t ts =>
    cases us with
    | nil => cases hobjects
    | cons u us =>
      rw [List.map_cons, List.map_cons, List.cons.injEq] at hobjects
      cases ts with
      | nil =>
        cases us with
        | nil =>
          rw [Ty.sameAll, Ty.sameAll, Bool.and_true] at hsame
          exact ⟨hobjects.1, hsame⟩
        | cons u' us => cases hobjects.2
      | cons t' ts =>
        cases us with
        | nil => cases hobjects.2
        | cons u' us => exact ⟨rfl, hsame⟩

theorem twins_cls {P : Prop} {ts us : List Ty} (c : ClassId) (h : TwinLists s P ts us) :
    Twins s P (.cls c ts) (.cls c us) := by
  refine ⟨rfl, ?_⟩
  rw [Ty.beq_eq_same, Ty.same, beq_self_eq_true, Bool.true_and]
  exact h.same

/-! ### One step in either order -/

theorem joinsToObject_iff {n : Nat} {r : Ty} (h : s.lubWithin n a b d = some (some r)) :
    JoinsToObject s a b d ↔ s.isObject r = true := by
  constructor
  · rintro ⟨m, r', h', hobject⟩
    cases lubWithin_unique h h'
    exact hobject
  · exact fun hobject => ⟨n, r, h, hobject⟩

section Step

variable {n : Nat}

theorem argOfBound_twins {o o' : Option Ty} (h : s.lubWithin n a b d = some o)
    (hm : Mirrored s (¬Clash s a b d) o o') :
    Twins s (¬(¬JoinsToObject s a b d ∧ Clash s a b d)) (s.argOfBound o) (s.argOfBound o') := by
  cases hm with
  | absent hclash => exact twins_refl _ fun hc => hclash hc.2
  | @present t u htu =>
    rw [joinsToObject_iff h]
    cases ht : s.isObject t with
    | true =>
      have hu := htu.object.symm.trans ht
      simp only [argOfBound, ht, hu, if_true]
      exact twins_refl _ fun hc => hc.1 trivial
    | false =>
      have hu := htu.object.symm.trans ht
      simp only [argOfBound, ht, hu, Bool.false_eq_true, if_false]
      refine ⟨rfl, ?_⟩
      rw [Ty.extending, Ty.extending, Ty.beq_eq_same, Ty.same, beq_self_eq_true, Bool.true_and,
        ← Ty.beq_eq_same, htu.same]
      exact ⟨fun hc h => hc h.2, fun hc h => hc ⟨not_false, h⟩⟩

theorem leastContaining_twins
    (ih : ∀ a b d, Option.Rel (Mirrored s (¬Clash s a b d)) (s.lubWithin n a b d)
      (s.lubWithin n b a d)) (x y : Ty) (d : Nat) :
    Option.Rel (Twins s (¬ArgClash s x y d)) (s.leastContaining (s.lubWithin n) x y d)
      (s.leastContaining (s.lubWithin n) y x d) := by
  rcases leastContaining_forms x y d with
    hsame | ⟨hne, hdepth | ⟨hdepth, ⟨p, q, hx, hy⟩ | hone | ⟨hx, hy⟩⟩⟩
  · have hsame' := hsame
    rw [Ty.beq_comm] at hsame'
    rw [leastContaining_same hsame, leastContaining_same hsame']
    refine .some (twins_of_beq hsame fun h => ?_)
    cases h <;> simp_all
  all_goals
    have hne' := hne
    rw [Ty.beq_comm] at hne'
  · rw [leastContaining_deep hne hdepth, leastContaining_deep hne' hdepth]
    refine .some (twins_refl _ fun h => ?_)
    cases h <;> omega
  · rw [leastContaining_lower hne hdepth hx hy, leastContaining_lower hne' hdepth hy hx]
    refine .some ?_
    rw [argClash_iff_of_lower hne hdepth hx hy]
    cases habove : s.assignable p q <;> cases hbelow : s.assignable q p
    · exact twins_refl _ fun h => Bool.false_ne_true h.1
    · exact twins_refl _ fun h => Bool.false_ne_true h.1
    · exact twins_refl _ fun h => Bool.false_ne_true h.2.1
    · refine ⟨rfl, ?_⟩
      show (Ty.above q == Ty.above p) = true ↔ _
      rw [Ty.above, Ty.above, Ty.beq_eq_same, Ty.same, beq_self_eq_true, Bool.true_and,
        ← Ty.beq_eq_same, Ty.beq_comm]
      simp
  · have hone' : (lowerBound? y).isSome = !(lowerBound? x).isSome := by rw [hone, Bool.not_not]
    rw [leastContaining_mixed hne hone, leastContaining_mixed hne' hone']
    refine .some (twins_refl _ fun h => ?_)
    cases h <;> simp_all
  · rw [leastContaining_bounds hne hdepth hx hy, leastContaining_bounds hne' hdepth hy hx,
      argClash_iff_of_bounds hne hdepth hx hy]
    have hrel := ih (s.upperBound x) (s.upperBound y) (d + 1)
    generalize hl : s.lubWithin n (s.upperBound x) (s.upperBound y) (d + 1) = o at hrel ⊢
    generalize s.lubWithin n (s.upperBound y) (s.upperBound x) (d + 1) = o' at hrel ⊢
    cases hrel with
    | none => exact .none
    | some hm => exact .some (argOfBound_twins hl hm)

theorem zip_swap (ts us : List Ty) : us.zip ts = (ts.zip us).map Prod.swap := by
  rw [List.zip_eq_zipWith, List.zip_eq_zipWith, List.zipWith_comm, List.map_zipWith]
  rfl

theorem joinAt_twins
    (ih : ∀ a b d, Option.Rel (Mirrored s (¬Clash s a b d)) (s.lubWithin n a b d)
      (s.lubWithin n b a d)) (a b : Ty) (d : Nat) (c : ClassId) :
    Option.Rel (Twins s (¬∃ left right, Paired s c a b left right ∧
        ∃ p ∈ left.zip right, ArgClash s p.1 p.2 d))
      (s.joinAt (s.lubWithin n) a b d c) (s.joinAt (s.lubWithin n) b a d c) := by
  by_cases hp : ∃ left right, Paired s c a b left right
  · obtain ⟨left, right, hp⟩ := hp
    have hargs := twinLists_mapM (left.zip right) fun p _ => leastContaining_twins ih p.1 p.2 d
    have hclash : (¬∃ left right, Paired s c a b left right ∧
        ∃ p ∈ left.zip right, ArgClash s p.1 p.2 d) ↔
        ∀ p ∈ left.zip right, ¬ArgClash s p.1 p.2 d := by
      constructor
      · exact fun h p hmem harg => h ⟨left, right, hp, p, hmem, harg⟩
      · rintro h ⟨left', right', hp', p, hmem, harg⟩
        obtain ⟨rfl, rfl⟩ := hp.unique hp'
        exact h p hmem harg
    rw [joinAt_paired hp, joinAt_paired hp.symm, zip_swap left right, List.mapM_map, hclash]
    revert hargs
    show Option.Rel _ ((left.zip right).mapM _) ((left.zip right).mapM
      ((fun p => s.leastContaining (s.lubWithin n) p.1 p.2 d) ∘ Prod.swap)) → _
    generalize (left.zip right).mapM (fun p => s.leastContaining (s.lubWithin n) p.1 p.2 d) = o
    generalize (left.zip right).mapM
      ((fun p => s.leastContaining (s.lubWithin n) p.1 p.2 d) ∘ Prod.swap) = o'
    intro hargs
    cases hargs with
    | none => exact .none
    | some h => exact .some (twins_cls c h)
  · have hraw : ∀ left right, ¬Paired s c a b left right := fun l r h => hp ⟨l, r, h⟩
    have hraw' : ∀ left right, ¬Paired s c b a left right := fun l r h => hp ⟨r, l, h.symm⟩
    rw [joinAt_raw hraw, joinAt_raw hraw']
    refine .some (twins_refl _ ?_)
    rintro ⟨left, right, h, -⟩
    exact hraw left right h

theorem joinClasses_twins
    (ih : ∀ a b d, Option.Rel (Mirrored s (¬Clash s a b d)) (s.lubWithin n a b d)
      (s.lubWithin n b a d)) (h : Apart s a b a' b') (hby : ByClasses a' b') :
    Option.Rel (Twins s (¬Clash s a b d)) (s.joinClasses (s.lubWithin n) a' b' d)
      (s.joinClasses (s.lubWithin n) b' a' d) := by
  have hjoined := twinLists_mapM (s.commonClasses a' b') fun c _ => joinAt_twins ih a' b' d c
  have hclash : ¬Clash s a b d ↔ ∀ c ∈ s.commonClasses a' b',
      ¬∃ left right, Paired s c a' b' left right ∧
        ∃ p ∈ left.zip right, ArgClash s p.1 p.2 d := by
    rw [clash_iff_of_classes h hby]
    exact ⟨fun hc c hmem hex => hc ⟨c, hmem, hex⟩, fun hc ⟨c, hmem, hex⟩ => hc c hmem hex⟩
  unfold joinClasses
  rw [hclash, commonClasses_comm b' a']
  generalize (s.commonClasses a' b').mapM (s.joinAt (s.lubWithin n) a' b' d) = o at hjoined ⊢
  generalize (s.commonClasses a' b').mapM (s.joinAt (s.lubWithin n) b' a' d) = o' at hjoined ⊢
  cases hjoined with
  | none => exact .none
  | some h => exact .some (twins_meetOf h)

theorem twins_array {P : Prop} {t u : Ty} (h : Twins s P t u) :
    Twins s P (.array t) (.array u) :=
  ⟨rfl, by rw [Ty.beq_eq_same, Ty.same, ← Ty.beq_eq_same]; exact h.same⟩

end Step

theorem lubWithin_mirrored (s : Store) (n : Nat) (a b : Ty) (d : Nat) :
    Option.Rel (Mirrored s (¬Clash s a b d)) (s.lubWithin n a b d) (s.lubWithin n b a d) := by
  induction n generalizing a b d with
  | zero => exact .none
  | succ n ih =>
    show Option.Rel _ (s.lubStep (s.lubWithin n) a b d) (s.lubStep (s.lubWithin n) b a d)
    rcases s.settled_or_apart a b with ⟨r, hr⟩ | ⟨a', b', hap⟩
    · have hclash : ¬Clash s a b d := by
        intro hc
        obtain ⟨a', b', hap⟩ := hc.apart
        exact hap.not_settled hr
      obtain ⟨r', hr', hm⟩ := settled_mirrored hr hclash
      rw [lubStep_settled hr, lubStep_settled hr']
      exact .some hm
    rcases forms a' b' with hvar | ⟨t, u, rfl, rfl⟩ | hone | hby
    · have hvar' := hvar
      rw [Bool.or_comm] at hvar'
      rw [lubStep_bounds hap hvar, lubStep_bounds hap.symm hvar', clash_iff_of_bounds hap hvar]
      exact ih _ _ d
    · rw [lubStep_arrays hap, lubStep_arrays hap.symm, Bool.or_comm u.isPrim,
        clash_iff_of_components hap]
      cases hprim : t.isPrim || u.isPrim with
      | true =>
        rw [if_pos rfl, if_pos rfl]
        exact .some (.present (twins_refl _ fun hc => Bool.false_ne_true hc.1.symm))
      | false =>
        rw [if_neg Bool.false_ne_true, if_neg Bool.false_ne_true, eq_self, true_and]
        have hrel := ih t u d
        generalize s.lubWithin n t u d = o at hrel ⊢
        generalize s.lubWithin n u t d = o' at hrel ⊢
        cases hrel with
        | none => exact .none
        | some hm =>
          cases hm with
          | absent hclash => exact .some (.present (twins_refl _ hclash))
          | present h => exact .some (.present (twins_array h))
    · rw [lubStep_oneArray hap hone, lubStep_oneArray hap.symm hone.symm]
      exact .some (.present (twins_refl _ (not_clash_of_oneArray hap hone)))
    · rw [lubStep_classes hap hby, lubStep_classes hap.symm hby.symm]
      have hrel := joinClasses_twins (d := d) ih hap hby
      generalize s.joinClasses (s.lubWithin n) a' b' d = o at hrel ⊢
      generalize s.joinClasses (s.lubWithin n) b' a' d = o' at hrel ⊢
      cases hrel with
      | none => exact .none
      | some h => exact .some (.present h)

/-- The least upper bounds of two types in both orders are the same exactly when there is none, or
when joining the types meets no lower bounds that clash. -/
theorem lub_comm_iff_not_clash (s : Store) (a b : Ty) :
    (s.lub a b == s.lub b a) = true ↔ s.lub a b = none ∨ ¬Clash s a b 0 := by
  unfold lub
  rw [lubBudget_comm s b a]
  have hrel := s.lubWithin_mirrored (s.lubBudget a b) a b 0
  generalize s.lubWithin (s.lubBudget a b) a b 0 = o at hrel ⊢
  generalize s.lubWithin (s.lubBudget a b) b a 0 = o' at hrel ⊢
  cases hrel with
  | none => exact ⟨fun _ => .inl rfl, fun _ => rfl⟩
  | some hm =>
    cases hm with
    | absent _ => exact ⟨fun _ => .inl rfl, fun _ => rfl⟩
    | present h =>
      show (_ == _) = true ↔ some _ = none ∨ _
      rw [← h.same]
      exact ⟨.inr, fun hor => hor.resolve_left nofun⟩

def boxesAndPairs : Store :=
  let (s, box) := standard.declareClass "Box" .concrete
  let (s, _) := s.declareParam "T" (.cls box)
  let (s, pair) := s.declareClass "Pair" .concrete
  let (s, _) := s.declareParam "A" (.cls pair)
  (s.declareParam "B" (.cls pair)).1

theorem lub_not_comm_of_raw_lower_bound :
    let text := Ty.raw 4
    let first := Ty.cls 15 [Ty.above (.raw 13), .raw 9]
    let second := Ty.cls 15 [Ty.above (.cls 13 [text]), text]
    (boxesAndPairs.lub first second == some (.cls 15 [Ty.above (.cls 13 [text]), Ty.anything]) &&
      boxesAndPairs.lub second first == some (.cls 15 [Ty.above (.raw 13), Ty.anything]) &&
      boxesAndPairs.lub first second != boxesAndPairs.lub second first) = true := by
  decide +kernel

end GenericCalls.Store

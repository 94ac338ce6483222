import GenericCalls.Proofs.Lub.Arguments
import GenericCalls.Proofs.Store.Circles
import Mathlib.Data.List.ProdSigma

/-! # Least upper bounds that are computed

The least upper bound of two types is computed once those are that it asks for. Type arguments are
joined to a limited depth only, and on one depth finitely many types are met on either side. So the
computation ends, unless it asks for one pair of types again on its way to it, and then a bound of a
type variable leads back to an array on both sides. -/

namespace GenericCalls.Store

open Ty Relation

variable {s : Store} {join : Ty → Ty → Nat → Option (Option Ty)} {a b a' b' x y t : Ty} {n d e : Nat}

/-! ### One step -/

theorem leastContaining_isSome_iff :
    (s.leastContaining join x y d).isSome = true ↔
      ((x == y) = false → d < Limits.lubDepth → lowerBound? x = none → lowerBound? y = none →
        (join (s.upperBound x) (s.upperBound y) (d + 1)).isSome = true) := by
  rcases leastContaining_forms x y d with
    hsame | ⟨hne, hdepth | ⟨hdepth, ⟨p, q, hx, hy⟩ | hone | ⟨hx, hy⟩⟩⟩
  · rw [leastContaining_same hsame, hsame]
    exact ⟨nofun, fun _ => rfl⟩
  · rw [leastContaining_deep hne hdepth]
    exact ⟨fun _ _ hlt => absurd hdepth (Nat.not_le.2 hlt), fun _ => rfl⟩
  · rw [leastContaining_lower hne hdepth hx hy, hx]
    exact ⟨nofun, fun _ => rfl⟩
  · rw [leastContaining_mixed hne hone]
    refine ⟨fun _ _ _ hx hy => ?_, fun _ => rfl⟩
    rw [hx, hy] at hone
    cases hone
  · rw [leastContaining_bounds hne hdepth hx hy, Option.isSome_map]
    exact ⟨fun h _ _ _ _ => h, fun h => h hne hdepth hx hy⟩

theorem joinAt_isSome_iff {c : ClassId} :
    (s.joinAt join a b d c).isSome = true ↔ ∀ left right, Paired s c a b left right →
      ∀ p ∈ left.zip right, (s.leastContaining join p.1 p.2 d).isSome = true := by
  by_cases hpaired : ∃ left right, Paired s c a b left right
  · obtain ⟨left, right, hpaired⟩ := hpaired
    rw [joinAt_paired hpaired, Option.isSome_map, mapM_isSome_iff]
    refine ⟨fun h left' right' hpaired' => ?_, fun h => h left right hpaired⟩
    obtain ⟨rfl, rfl⟩ := hpaired.unique hpaired'
    exact h
  · have hraw : ∀ left right, ¬Paired s c a b left right := fun l r h => hpaired ⟨l, r, h⟩
    rw [joinAt_raw hraw]
    exact ⟨fun _ left right h => absurd h (hraw left right), fun _ => rfl⟩

theorem not_calls_of_settled {r : Option Ty} (h : Settled s a b r) : ¬Calls s a b d x y e := by
  intro hcall
  cases hcall with
  | bounds hap _ => exact hap.not_settled h
  | components hap _ => exact hap.not_settled h
  | arguments hholds _ _ =>
    obtain ⟨hap, _, _, _, _, _, _⟩ := hholds
    exact hap.not_settled h

theorem calls_bounds_iff (h : Apart s a b a' b') (hvar : (a'.isVariable || b'.isVariable) = true) :
    Calls s a b d x y e ↔ x = s.concreteBound Limits.boundChain a' ∧
      y = s.concreteBound Limits.boundChain b' ∧ e = d := by
  constructor
  · intro hcall
    cases hcall with
    | bounds hap _ =>
      obtain ⟨rfl, rfl⟩ := h.unique hap
      exact ⟨rfl, rfl, rfl⟩
    | components hap _ =>
      obtain ⟨rfl, rfl⟩ := h.unique hap
      cases hvar
    | arguments hholds _ _ =>
      obtain ⟨hap, hby, _, _, _, _, _⟩ := hholds
      obtain ⟨rfl, rfl⟩ := h.unique hap
      exact absurd (hvar.symm.trans hby.noVariable) nofun
  · rintro ⟨rfl, rfl, rfl⟩
    exact .bounds h hvar

theorem calls_arrays_iff {t u : Ty} (h : Apart s a b (.array t) (.array u)) :
    Calls s a b d x y e ↔ (t.isPrim || u.isPrim) = false ∧ x = t ∧ y = u ∧ e = d := by
  constructor
  · intro hcall
    cases hcall with
    | bounds hap hvar =>
      obtain ⟨rfl, rfl⟩ := h.unique hap
      cases hvar
    | components hap hrefs =>
      obtain ⟨hx, hy⟩ := h.unique hap
      cases hx
      cases hy
      exact ⟨hrefs, rfl, rfl, rfl⟩
    | arguments hholds _ _ =>
      obtain ⟨hap, hby, _, _, _, _, _⟩ := hholds
      obtain ⟨rfl, rfl⟩ := h.unique hap
      cases hby.left
  · rintro ⟨hrefs, rfl, rfl, rfl⟩
    exact .components h hrefs

theorem not_calls_of_oneArray (h : Apart s a b a' b') (hone : OneArray a' b') :
    ¬Calls s a b d x y e := by
  intro hcall
  cases hcall with
  | bounds hap hvar =>
    obtain ⟨rfl, rfl⟩ := h.unique hap
    exact absurd (hvar.symm.trans hone.noVariable) nofun
  | components hap _ =>
    obtain ⟨rfl, rfl⟩ := h.unique hap
    cases hone.one
  | arguments hholds _ _ =>
    obtain ⟨hap, hby, _, _, _, _, _⟩ := hholds
    obtain ⟨rfl, rfl⟩ := h.unique hap
    have hcomponents := hone.one
    rw [hby.left, hby.right] at hcomponents
    cases hcomponents

theorem calls_classes_iff (h : Apart s a b a' b') (hby : ByClasses a' b') :
    Calls s a b d x y e ↔ ∃ p q, Holds s a b d p q ∧ lowerBound? p = none ∧ lowerBound? q = none ∧
      x = s.upperBound p ∧ y = s.upperBound q ∧ e = d + 1 := by
  constructor
  · intro hcall
    cases hcall with
    | bounds hap hvar =>
      obtain ⟨rfl, rfl⟩ := h.unique hap
      exact absurd (hvar.symm.trans hby.noVariable) nofun
    | components hap _ =>
      obtain ⟨rfl, rfl⟩ := h.unique hap
      cases hby.left
    | arguments hholds hx hy => exact ⟨_, _, hholds, hx, hy, rfl, rfl, rfl⟩
  · rintro ⟨p, q, hholds, hp, hq, rfl, rfl, rfl⟩
    exact .arguments hholds hp hq

theorem joinClasses_isSome_iff :
    (s.joinClasses join a b d).isSome = true ↔ ∀ c ∈ s.commonClasses a b, ∀ left right,
      Paired s c a b left right → ∀ p ∈ left.zip right, (p.1 == p.2) = false → d < Limits.lubDepth →
        lowerBound? p.1 = none → lowerBound? p.2 = none →
          (join (s.upperBound p.1) (s.upperBound p.2) (d + 1)).isSome = true := by
  rw [joinClasses, Option.isSome_map, mapM_isSome_iff]
  simp only [joinAt_isSome_iff, leastContaining_isSome_iff]

/-- The least upper bound of two types is computed in one step more than those that it asks for. -/
theorem lubWithin_isSome_iff (s : Store) (n : Nat) (a b : Ty) (d : Nat) :
    (s.lubWithin (n + 1) a b d).isSome = true ↔
      ∀ x y e, Calls s a b d x y e → (s.lubWithin n x y e).isSome = true := by
  rw [lubWithin]
  rcases s.settled_or_apart a b with ⟨r, hr⟩ | ⟨a', b', hap⟩
  · rw [lubStep_settled hr]
    exact ⟨fun _ _ _ _ hcall => absurd hcall (not_calls_of_settled hr), fun _ => rfl⟩
  · rcases forms a' b' with hvar | ⟨t, u, rfl, rfl⟩ | hone | hby
    · rw [lubStep_bounds hap hvar]
      simp only [calls_bounds_iff hap hvar]
      exact ⟨fun h _ _ _ ⟨hx, hy, hd⟩ => by rwa [hx, hy, hd], fun h => h _ _ _ ⟨rfl, rfl, rfl⟩⟩
    · rw [lubStep_arrays hap]
      simp only [calls_arrays_iff hap]
      cases hrefs : t.isPrim || u.isPrim with
      | true => exact ⟨fun _ _ _ _ h => (nomatch h.1), fun _ => rfl⟩
      | false =>
        rw [if_neg Bool.false_ne_true, Option.isSome_map]
        exact ⟨fun h _ _ _ ⟨_, hx, hy, hd⟩ => by rwa [hx, hy, hd],
          fun h => h _ _ _ ⟨rfl, rfl, rfl, rfl⟩⟩
    · rw [lubStep_oneArray hap hone]
      exact ⟨fun _ _ _ _ hcall => absurd hcall (not_calls_of_oneArray hap hone), fun _ => rfl⟩
    · rw [lubStep_classes hap hby, Option.isSome_map, joinClasses_isSome_iff]
      constructor
      · intro h x y e hcall
        obtain ⟨p, q, hholds, hp, hq, rfl, rfl, rfl⟩ := (calls_classes_iff hap hby).1 hcall
        obtain ⟨hap', _, hc, hpaired, hpair, hne, hdepth⟩ := hholds
        obtain ⟨rfl, rfl⟩ := hap.unique hap'
        exact h _ hc _ _ hpaired _ hpair hne hdepth hp hq
      · intro h c hc left right hpaired p hp hne hdepth hx hy
        exact h _ _ _ (.arguments ⟨hap, hby, hc, hpaired, hp, hne, hdepth⟩ hx hy)

/-! ### Types that are met -/

theorem height_argsAt {c : ClassId} {args : List Ty} (t : Ty) (h : argsAt s c t = some args) :
    heightAll args ≤ height t + Limits.hierarchy * s.weight := by
  induction t using Ty.induct with
  | cls d brgs _ =>
    have hle : heightAll args ≤ heightAll brgs + _ := heightAll_ancestorArgs h
    rw [height]
    omega
  | inter ts ih =>
    obtain ⟨u, hu, hargs⟩ := exists_argsAt_of_any h
    have hle := ih u hu hargs
    have hhead := height_le_heightAll hu
    rw [height]
    omega
  | _ => cases h

theorem leads_concreteBound (s : Store) (n : Nat) (t : Ty) :
    ReflTransGen s.Leads t (s.concreteBound n t) ∨ s.concreteBound n t = s.object := by
  induction n generalizing t with
  | zero => exact .inr rfl
  | succ n ih =>
    rw [concreteBound]
    split
    · rename_i hvariable
      exact (ih (s.upperBound t)).imp_left (.head (.bound hvariable))
    · exact .inl .refl

theorem concreteBound_mem_met (h : a ∈ s.met t) : s.concreteBound n a ∈ s.met t := by
  rcases s.leads_concreteBound n a with hleads | hobject
  · exact mem_met_of_leads hleads h
  · rw [hobject]
    exact s.object_mem_met t

/-- What is asked for on one depth: a bound on either side, or a component on either side. -/
theorem Calls.within (h : Calls s a b d x y d) :
    ∃ a' b', Apart s a b a' b' ∧
      ((a'.isVariable || b'.isVariable) = true ∧ x = s.concreteBound Limits.boundChain a' ∧
          y = s.concreteBound Limits.boundChain b' ∨
        a' = .array x ∧ b' = .array y) := by
  cases h with
  | bounds hap hvar => exact ⟨_, _, hap, .inl ⟨hvar, rfl, rfl⟩⟩
  | components hap _ => exact ⟨_, _, hap, .inr ⟨rfl, rfl⟩⟩

theorem Calls.mem_met (h : Calls s a b d x y d) {t u : Ty} (ha : a ∈ s.met t) (hb : b ∈ s.met u) :
    x ∈ s.met t ∧ y ∈ s.met u := by
  obtain ⟨a', b', hap, hform⟩ := h.within
  have ha' := box?_mem_met ha hap.left
  have hb' := box?_mem_met hb hap.right
  rcases hform with ⟨_, rfl, rfl⟩ | ⟨rfl, rfl⟩
  · exact ⟨concreteBound_mem_met ha', concreteBound_mem_met hb'⟩
  · exact ⟨component_mem_met ha', component_mem_met hb'⟩

/-- The types asked for on the next depth are nested deeper only by declarations. -/
theorem Calls.height_le (h : Calls s a b d x y (d + 1)) :
    height x ≤ max (height a) s.weight + Limits.hierarchy * s.weight ∧
      height y ≤ max (height b) s.weight + Limits.hierarchy * s.weight := by
  have hbound {a a' p : Ty} {c : ClassId} {args : List Ty} (hbox : s.box? a = some a')
      (hargs : argsAt s c a' = some args) (hp : p ∈ args) :
      height (s.upperBound p) ≤ max (height a) s.weight + Limits.hierarchy * s.weight := by
    have hboxed := height_of_mem_met (box?_mem_met (s.mem_met_self a) hbox)
    have hview := height_argsAt a' hargs
    have harg := height_le_heightAll hp
    have hupper := s.height_upperBound p
    omega
  cases h with
  | arguments hholds _ _ =>
    obtain ⟨hap, _, _, hpaired, hpair, _, _⟩ := hholds
    exact ⟨hbound hap.left hpaired.leftArgs (List.of_mem_zip hpair).1,
      hbound hap.right hpaired.rightArgs (List.of_mem_zip hpair).2⟩

/-! ### Budgets -/

/-- The least upper bound of two types at a depth asks for that of two types at a depth. -/
def Needs (s : Store) (p q : Ty × Ty × Nat) : Prop := Calls s p.1 p.2.1 p.2.2 q.1 q.2.1 q.2.2

/-- The least upper bound of two types asks for that of two types at the same depth. -/
def NeedsAt (s : Store) (d : Nat) (p q : Ty × Ty) : Prop := Calls s p.1 p.2 d q.1 q.2 d

/-- From a type on at most `m` types are met on its depth, and on each of the `k` depths below. -/
def MetWithin (s : Store) (k m : Nat) (t : Ty) : Prop :=
  max (height t) s.weight + k * (Limits.hierarchy * s.weight) + s.weight + 10 ≤ m

theorem MetWithin.length_met {k m : Nat} (h : s.MetWithin k m t) : (s.met t).length ≤ m := by
  have hle := s.length_met t
  unfold MetWithin at h
  omega

theorem MetWithin.of_height {k m : Nat} (h : s.MetWithin (k + 1) m t) {u : Ty}
    (hu : height u ≤ max (height t) s.weight + Limits.hierarchy * s.weight) : s.MetWithin k m u := by
  unfold MetWithin at h ⊢
  rw [Nat.succ_mul] at h
  omega

theorem MetWithin.of_mem_met {k m : Nat} (h : s.MetWithin k m t) {u : Ty} (hu : u ∈ s.met t) :
    s.MetWithin k m u := by
  have hle := height_of_mem_met hu
  unfold MetWithin at h ⊢
  omega

theorem Calls.depth (h : Calls s a b d x y e) : e = d ∨ e = d + 1 ∧ d < Limits.lubDepth := by
  cases h with
  | bounds _ _ => exact .inl rfl
  | components _ _ => exact .inl rfl
  | arguments hholds _ _ =>
    obtain ⟨_, _, _, _, _, _, hdepth⟩ := hholds
    exact .inr ⟨rfl, hdepth⟩

theorem lubWithin_isSome_mono {m : Nat} (h : (s.lubWithin m a b d).isSome = true) (hmn : m ≤ n) :
    (s.lubWithin n a b d).isSome = true := by
  obtain ⟨r, hr⟩ := Option.isSome_iff_exists.1 h
  rw [lubWithin_mono hr hmn]
  rfl

/-- On one depth as many steps suffice as there are pairs of types that are met, besides those that
the next depth takes. -/
theorem lubWithin_of_next {k m : Nat} (ha : (s.met a).length ≤ m) (hb : (s.met b).length ≤ m)
    (hno : ¬RunsInCircle s.Needs (a, b, d))
    (hnext : ∀ u ∈ s.met a, ∀ v ∈ s.met b, ∀ x y, Calls s u v d x y (d + 1) →
      ¬RunsInCircle s.Needs (x, y, d + 1) → (s.lubWithin k x y (d + 1)).isSome = true) :
    (s.lubWithin (m * m + k) a b d).isSome = true := by
  have hlength : (s.met a ×ˢ s.met b).length ≤ m * m := by
    rw [List.length_product]
    exact Nat.mul_le_mul ha hb
  have hno' : ¬RunsInCircle (s.NeedsAt d) (a, b) := fun hcircle =>
    hno (hcircle.lift (S := s.Needs) (f := fun p : Ty × Ty => (p.1, p.2, d)) fun _ _ h => h)
  refine lubWithin_isSome_mono ?_ (Nat.add_le_add_right hlength k)
  refine holds_of_no_circle
    (P := fun n p => ¬RunsInCircle s.Needs (p.1, p.2, d) →
      (s.lubWithin (n + k) p.1 p.2 d).isSome = true)
    ?_ ?_ (List.mem_product.2 ⟨s.mem_met_self a, s.mem_met_self b⟩) hno' hno
  · rintro ⟨u, v⟩ huv ⟨x, y⟩ hcall
    obtain ⟨hu, hv⟩ := List.mem_product.1 huv
    exact List.mem_product.2 (hcall.mem_met hu hv)
  · rintro n ⟨u, v⟩ huv ih hfree
    obtain ⟨hu, hv⟩ := List.mem_product.1 huv
    rw [Nat.succ_add, lubWithin_isSome_iff]
    intro x y e hcall
    have hfree' : ¬RunsInCircle s.Needs (x, y, e) := not_runsInCircle_of_step hfree hcall
    rcases hcall.depth with rfl | ⟨rfl, _⟩
    · exact ih (x, y) hcall hfree'
    · exact lubWithin_isSome_mono (hnext u hu v hv x y hcall hfree') (Nat.le_add_left k n)

/-- Where the computation runs in no circle, as many steps suffice on each depth as there are pairs
of types that are met. -/
theorem lubWithin_of_no_circle {k m : Nat} (hdepth : Limits.lubDepth ≤ d + k)
    (ha : s.MetWithin k m a) (hb : s.MetWithin k m b) (hno : ¬RunsInCircle s.Needs (a, b, d)) :
    (s.lubWithin ((k + 1) * (m * m)) a b d).isSome = true := by
  induction k generalizing a b d with
  | zero =>
    rw [Nat.zero_add, Nat.one_mul]
    refine lubWithin_of_next (k := 0) ha.length_met hb.length_met hno fun u _ v _ x y hcall _ => ?_
    rcases hcall.depth with heq | ⟨_, hlt⟩
    · exact absurd heq (Nat.succ_ne_self d)
    · exact absurd hdepth (Nat.not_le.2 hlt)
  | succ k ih =>
    rw [Nat.succ_mul, Nat.add_comm]
    refine lubWithin_of_next ha.length_met hb.length_met hno fun u hu v hv x y hcall hno' => ?_
    obtain ⟨hx, hy⟩ := hcall.height_le
    exact ih (by omega) ((ha.of_mem_met hu).of_height hx) ((hb.of_mem_met hv).of_height hy) hno'

theorem lubWithin_of_circle (h : RunsInCircle s.Needs (a, b, d)) (n : Nat) :
    s.lubWithin n a b d = none := by
  have hnever := fails_of_circle
    (P := fun n (p : Ty × Ty × Nat) => (s.lubWithin n p.1 p.2.1 p.2.2).isSome = true)
    (fun _ => nofun) (fun n p q hp hq => (lubWithin_isSome_iff s n _ _ _).1 hp _ _ _ hq) h n
  exact Option.not_isSome_iff_eq_none.1 hnever

/-- The budget suffices wherever any does. -/
theorem lubWithin_budget (hno : ¬RunsInCircle s.Needs (a, b, 0)) :
    s.lubWithin (s.lubBudget a b) a b 0 = some (s.lub a b) := by
  have hwithin {t : Ty} (ht : height t ≤ a.size + b.size) :
      s.MetWithin Limits.lubDepth (s.lubReach a b) t := by
    unfold MetWithin lubReach Limits.lubDepth Limits.hierarchy
    omega
  have ha : height a ≤ a.size + b.size := Nat.le_add_right_of_le (height_le_size a)
  have hb : height b ≤ a.size + b.size := Nat.le_add_left_of_le (height_le_size b)
  obtain ⟨r, hr⟩ := Option.isSome_iff_exists.1
    (lubWithin_of_no_circle (Nat.le_of_eq (Nat.zero_add _).symm) (hwithin ha) (hwithin hb) hno)
  have hbudget := lubWithin_mono hr (Nat.le_succ _)
  rw [lub, lubBudget, hbudget, Option.getD_some]

/-! ### Circles -/

theorem eq_or_raw_of_box (h : s.box? a = some a') : a' = a ∨ ∃ c, a' = .raw c := by
  unfold box? at h
  split at h
  · obtain ⟨c, _, rfl⟩ := Option.map_eq_some_iff.1 h
    exact .inr ⟨c, rfl⟩
  · exact .inl (Option.some.inj h).symm

theorem eq_of_box_array (h : s.box? a = some (.array t)) : a = .array t := by
  rcases eq_or_raw_of_box h with heq | ⟨c, hc⟩
  · exact heq.symm
  · cases hc

theorem isVariable_of_box (h : s.box? a = some a') (ha : a.isVariable = false) :
    a'.isVariable = false := by
  rcases eq_or_raw_of_box h with rfl | ⟨c, rfl⟩
  · exact ha
  · rfl

theorem leads_array_of_bound (hbox : s.box? a = some a') (h : s.concreteBound n a' = .array t) :
    ReflTransGen s.Leads a (.array t) := by
  have hraw (c : ClassId) : s.concreteBound n (.raw c) ≠ .array t := by
    cases n <;> exact nofun
  rcases eq_or_raw_of_box hbox with rfl | ⟨c, rfl⟩
  · rcases s.leads_concreteBound n a' with hleads | hobject
    · exact h ▸ hleads
    · exact nomatch h.symm.trans hobject
  · exact absurd h (hraw c)

/-- Of two steps on one depth one goes from arrays to their components, and each leads inwards. -/
theorem NeedsAt.leads {p q r : Ty × Ty} (h : s.NeedsAt d p q) (h' : s.NeedsAt d q r) :
    (ReflTransGen s.Leads p.1 q.1 ∧ ReflTransGen s.Leads p.2 q.2) ∧
      ((∃ t u, p = (.array t, .array u)) ∨ ∃ t u, q = (.array t, .array u)) := by
  obtain ⟨p1, p2⟩ := p
  obtain ⟨q1, q2⟩ := q
  obtain ⟨a', b', hap, hform⟩ := Calls.within h
  rcases hform with ⟨_, hq1, hq2⟩ | ⟨rfl, rfl⟩
  · -- A bound is no variable, so arrays must follow.
    obtain ⟨a'', b'', hap', hform'⟩ := Calls.within h'
    rcases hform' with ⟨hvar, _, _⟩ | ⟨rfl, rfl⟩
    · have hleft := isVariable_of_box hap'.left (hq1 ▸ isVariable_concreteBound s _ a')
      have hright := isVariable_of_box hap'.right (hq2 ▸ isVariable_concreteBound s _ b')
      rw [hleft, hright] at hvar
      cases hvar
    · have hleft := eq_of_box_array hap'.left
      have hright := eq_of_box_array hap'.right
      dsimp only at hq1 hq2 hleft hright
      subst hleft hright
      exact ⟨⟨leads_array_of_bound hap.left hq1.symm, leads_array_of_bound hap.right hq2.symm⟩,
        .inr ⟨r.1, r.2, rfl⟩⟩
  · have hleft := eq_of_box_array hap.left
    have hright := eq_of_box_array hap.right
    dsimp only at hleft hright
    subst hleft hright
    exact ⟨⟨.single .component, .single .component⟩, .inl ⟨q1, q2, rfl⟩⟩

theorem leads_of_needsAt {p q r : Ty × Ty} (h : ReflTransGen (s.NeedsAt d) p q)
    (hq : s.NeedsAt d q r) : ReflTransGen s.Leads p.1 q.1 ∧ ReflTransGen s.Leads p.2 q.2 := by
  suffices hnext : (∃ r, s.NeedsAt d p r) ∧
      ReflTransGen s.Leads p.1 q.1 ∧ ReflTransGen s.Leads p.2 q.2 from hnext.2
  induction h using ReflTransGen.head_induction_on with
  | refl => exact ⟨⟨r, hq⟩, .refl, .refl⟩
  | head hstep _ ih =>
    obtain ⟨⟨r', hr'⟩, hleft, hright⟩ := ih
    obtain ⟨⟨hl, hr⟩, _⟩ := hstep.leads hr'
    exact ⟨⟨_, hstep⟩, hl.trans hleft, hr.trans hright⟩

/-- Within a type, not counting type arguments, there is a circle that runs through an array. -/
def ArrayCircle (s : Store) (t : Ty) : Prop :=
  ∃ u, ReflTransGen s.Leads t (.array u) ∧ TransGen s.Leads (.array u) (.array u)

/-- Arrays on both sides that are asked for again are on circles. -/
theorem leads_of_arrays {t u : Ty} (h : TransGen (s.NeedsAt d) (.array t, .array u) (.array t, .array u)) :
    TransGen s.Leads (.array t) (.array t) ∧ TransGen s.Leads (.array u) (.array u) := by
  obtain ⟨⟨x, y⟩, hstep, hrest⟩ := TransGen.head'_iff.1 h
  obtain ⟨hleft, hright⟩ := leads_of_needsAt hrest hstep
  obtain ⟨a', b', hap, hform⟩ := Calls.within hstep
  cases hap.left
  cases hap.right
  rcases hform with ⟨hvar, _, _⟩ | ⟨hx, hy⟩
  · cases hvar
  · cases hx
    cases hy
    exact ⟨.head' .component hleft, .head' .component hright⟩

theorem arrayCircle_of_needsAt {p : Ty × Ty} (h : TransGen (s.NeedsAt d) p p) :
    s.ArrayCircle p.1 ∧ s.ArrayCircle p.2 := by
  obtain ⟨q, hpq, hqp⟩ := TransGen.head'_iff.1 h
  obtain ⟨r, hqr, _⟩ := TransGen.head'_iff.1 (TransGen.tail' hqp hpq)
  obtain ⟨⟨hl, hr⟩, ⟨t, u, rfl⟩ | ⟨t, u, rfl⟩⟩ := NeedsAt.leads hpq hqr
  · obtain ⟨hleft, hright⟩ := leads_of_arrays h
    exact ⟨⟨t, .refl, hleft⟩, ⟨u, .refl, hright⟩⟩
  · obtain ⟨hleft, hright⟩ := leads_of_arrays (TransGen.tail' hqp hpq)
    exact ⟨⟨t, hl, hleft⟩, ⟨u, hr, hright⟩⟩

/-- The depth never goes down, so a circle stays on one. -/
theorem needsAt_of_needs {p q : Ty × Ty × Nat} (h : TransGen s.Needs p q) :
    p.2.2 ≤ q.2.2 ∧
      (q.2.2 = p.2.2 → TransGen (s.NeedsAt p.2.2) (p.1, p.2.1) (q.1, q.2.1)) := by
  have hstep {d : Nat} {p q : Ty × Ty × Nat} (hpq : s.Needs p q) : p.2.2 ≤ q.2.2 ∧
      (p.2.2 = d → q.2.2 = d → s.NeedsAt d (p.1, p.2.1) (q.1, q.2.1)) := by
    refine ⟨?_, ?_⟩
    · rcases hpq.depth with heq | ⟨heq, _⟩
      · exact Nat.le_of_eq heq.symm
      · exact heq ▸ Nat.le_succ _
    · intro hp hq
      unfold Needs at hpq
      rw [hp, hq] at hpq
      exact hpq
  induction h with
  | single hpq => exact ⟨(hstep (d := 0) hpq).1, fun heq => .single ((hstep hpq).2 rfl heq)⟩
  | @tail r q _ hrq ih =>
    obtain ⟨hpr, hat⟩ := ih
    have hle := (hstep (d := 0) hrq).1
    refine ⟨Nat.le_trans hpr hle, fun heq => ?_⟩
    have hr : r.2.2 = p.2.2 := Nat.le_antisymm (heq ▸ hle) hpr
    exact (hat hr).tail ((hstep hrq).2 hr heq)

theorem arrayCircle_of_needs {p : Ty × Ty × Nat} (h : TransGen s.Needs p p) :
    s.ArrayCircle p.1 ∧ s.ArrayCircle p.2.1 :=
  arrayCircle_of_needsAt ((needsAt_of_needs h).2 rfl)

theorem no_circle_of_acyclic_bounds (hacyclic : ∀ p, ¬TransGen s.BoundBy p p) :
    ¬RunsInCircle s.Needs (a, b, d) := by
  rintro ⟨p, _, hcircle⟩
  obtain ⟨⟨t, _, ht⟩, _⟩ := arrayCircle_of_needs hcircle
  exact not_leads_of_acyclic hacyclic ht

/-- The least upper bound of two types is computed, whatever the declarations, unless the computation
asks for two types again on its way to them. Then each of the two leads into a circle through an
array, and some type parameter is bounded by itself. -/
theorem lub_settles (s : Store) (a b : Ty) :
    ((∃ n, ∀ m, n ≤ m → s.lubWithin m a b 0 = some (s.lub a b)) ↔
        ¬RunsInCircle s.Needs (a, b, 0)) ∧
      (∀ p, TransGen s.Needs p p → s.ArrayCircle p.1 ∧ s.ArrayCircle p.2.1) ∧
      ((∀ p, ¬TransGen s.BoundBy p p) → ¬RunsInCircle s.Needs (a, b, 0)) := by
  refine ⟨⟨?_, fun hno => ?_⟩, fun _ => arrayCircle_of_needs, no_circle_of_acyclic_bounds⟩
  · rintro ⟨n, hn⟩ hcircle
    have hsome := hn n (Nat.le_refl n)
    rw [lubWithin_of_circle hcircle] at hsome
    cases hsome
  · exact ⟨_, fun m hm => lubWithin_mono (lubWithin_budget hno) hm⟩

/-- The root class, a method with type parameters `T` and `U` that are bounded by `T[]` and `U[]`,
and an interface `List<E>`. -/
def ownArrays : Store :=
  let (s, m) := bare.declareMethod "m" .method none
  let (s, t) := s.declareParam "T" (.method m)
  let (s, u) := s.declareParam "U" (.method m)
  let s := s.setBounds t [.array (.param t)]
  let s := s.setBounds u [.array (.param u)]
  let (s, list) := s.declareClass "List" .interface
  (s.declareParam "E" (.cls list)).1

theorem ownArrays_circle (d : Nat) :
    TransGen ownArrays.Needs (.param 3, .param 4, d) (.param 3, .param 4, d) := by
  have hparams : Apart ownArrays (.param 3) (.param 4) (.param 3) (.param 4) :=
    ⟨⟨⟨rfl, rfl, rfl, rfl⟩, rfl, rfl⟩, by decide +kernel, by decide +kernel⟩
  have harrays : Apart ownArrays (.array (.param 3)) (.array (.param 4)) (.array (.param 3))
      (.array (.param 4)) :=
    ⟨⟨⟨rfl, rfl, rfl, rfl⟩, rfl, rfl⟩, by decide +kernel, by decide +kernel⟩
  have hbounds : ownArrays.Needs (.param 3, .param 4, d) (.array (.param 3), .array (.param 4), d) :=
    .bounds hparams rfl
  exact .tail (.single hbounds) (.components harrays rfl)

theorem lub_settles_ownArrays :
    TransGen ownArrays.Needs (.param 3, .param 4, 0) (.param 3, .param 4, 0) ∧
      ownArrays.ArrayCircle (.param 3) ∧ ownArrays.ArrayCircle (.param 4) :=
  ⟨ownArrays_circle 0,
    (lub_settles ownArrays (.param 3) (.param 4)).2.1 (.param 3, .param 4, 0) (ownArrays_circle 0)⟩

theorem not_lubWithin_ownArrays :
    ¬∃ n, (ownArrays.lubWithin n (.param 3) (.param 4) 0).isSome = true := by
  rintro ⟨n, hn⟩
  rw [lubWithin_of_circle ⟨_, .refl, ownArrays_circle 0⟩] at hn
  cases hn

end GenericCalls.Store

import GenericCalls.Inference.Answer
import GenericCalls.Proofs.Inference.Joins
import GenericCalls.Proofs.Store.Views

/-! # Formals paired with types

A type parameter is answered from pairs of a formal and a type: by the first pair that equates it
with a type, or else by the join of its upper bounds. Where this join breaks down, the bounds behind
the break are joined as if there were none before. Only if none are left is the answer the erasure
of the parameter. -/

namespace GenericCalls

theorem Substitution.get?_ofList_map (f : ParamId → Binding) (ps : List ParamId) (p : ParamId) :
    (ofList (ps.map fun q => (q, f q))).get? p = if p ∈ ps then some (f p) else none := by
  have hput : ∀ m : KeyedList ParamId Binding,
      (m.putAll (ps.map fun q => (q, f q))).get? p = if p ∈ ps then some (f p) else m.get? p := by
    unfold KeyedList.putAll
    induction ps with
    | nil => simp
    | cons q ps ih =>
      intro m
      rw [List.map_cons, List.foldl_cons, ih, KeyedList.get?_put]
      by_cases hq : q = p
      · simp [hq]
      · simp [hq, Ne.symm hq]
  exact hput .empty

namespace Store

variable {s : Store} {rs : List MatchResult} {e t u v w : Ty} {ts us after rest : List Ty}

/-! ### Breaks of a join -/

/-- What is joined of the types of a list in the end: all of them, if every step is defined, and
else what is joined of the types behind the first step that is not. -/
inductive Remains (s : Store) : List Ty → List Ty → Prop where
  | nil : Remains s [] []
  | all {t w : Ty} {ts : List Ty} (h : s.Joins t ts w) : Remains s (t :: ts) (t :: ts)
  | behind {v : Ty} {ts after rest : List Ty} (h : s.Breaks ts v after)
      (hrest : Remains s after rest) : Remains s ts rest

theorem Breaks.length_lt (h : s.Breaks ts v after) : after.length < ts.length := by
  cases h
  simp only [List.length_cons, List.length_append]
  omega

theorem exists_remains (s : Store) (ts : List Ty) : ∃ rest, s.Remains ts rest := by
  induction hn : ts.length using Nat.strongRecOn generalizing ts with
  | _ n ih =>
    cases ts with
    | nil => exact ⟨[], .nil⟩
    | cons t ts =>
      rcases joins_or_breaks s t ts with ⟨w, hw⟩ | ⟨v, after, hbreak⟩
      · exact ⟨_, .all hw⟩
      · obtain ⟨rest, hrest⟩ := ih after.length (hn ▸ hbreak.length_lt) after rfl
        exact ⟨rest, .behind hbreak hrest⟩

theorem Remains.joins (h : s.Remains ts (u :: us)) : ∃ w, s.Joins u us w := by
  generalize hrest : u :: us = rest at h
  induction h with
  | nil => cases hrest
  | all h =>
    cases hrest
    exact ⟨_, h⟩
  | behind _ _ ih => exact ih hrest

theorem Remains.mem (h : s.Remains ts rest) (hu : u ∈ rest) : u ∈ ts := by
  induction h with
  | nil => exact hu
  | all => exact hu
  | behind hbreak _ ih =>
    cases hbreak with
    | intro before =>
      exact List.mem_cons_of_mem _ (List.mem_append_right _ (List.mem_cons_of_mem _ (ih hu)))

/-! ### The running join -/

theorem joinUpper_append (h : s.Joins t ts u) (us : List Ty) :
    Engine.joinUpper s (some t) (ts ++ us) = Engine.joinUpper s (some u) us := by
  induction h with
  | nil => rfl
  | cons hstep _ ih => rw [List.cons_append, Engine.joinUpper, hstep, ih]

theorem joinUpper_of_breaks (h : s.Breaks ts v after) :
    Engine.joinUpper s none ts = Engine.joinUpper s none after := by
  cases h with
  | intro _ hbefore hbreak =>
    rw [Engine.joinUpper, joinUpper_append hbefore, Engine.joinUpper, hbreak]

theorem joinUpper_of_remains (h : s.Remains ts rest) :
    Engine.joinUpper s none ts = s.lubAll rest := by
  induction h with
  | nil => rfl
  | @all t w ts hjoin =>
    have hall := joinUpper_append hjoin []
    rw [List.append_nil] at hall
    rw [Engine.joinUpper, hall, lubAll_eq_some_iff.2 ⟨t, ts, rfl, hjoin⟩]
    rfl
  | behind hbreak _ ih => rw [joinUpper_of_breaks hbreak, ih]

/-! ### Answers -/

/-- The answer that matches give to a parameter with the erasure `e`. -/
inductive PairsGive (s : Store) (rs : List MatchResult) (e : Ty) : Ty → Prop where
  | equated {t : Ty} (h : FirstEquates rs t) : PairsGive s rs e t
  | joined {t u : Ty} {us : List Ty} (hnone : NoneEquates rs)
      (hrest : s.Remains (typesBearing .atMost rs) (u :: us)) (h : s.Joins u us t) :
      PairsGive s rs e t
  | erased (hnone : NoneEquates rs) (hrest : s.Remains (typesBearing .atMost rs) []) :
      PairsGive s rs e e

theorem pairsGive_iff : s.PairsGive rs e t ↔
    t = ((firstExact? (rs.filterMap MatchResult.constraint?)).or
      (Engine.joinUpper s none (typesBearing .atMost rs))).getD e := by
  constructor
  · intro h
    cases h with
    | equated h =>
      rw [firstExact?_eq_some_iff.2 h]
      rfl
    | joined hnone hrest h =>
      rw [firstExact?_eq_none_iff.2 hnone, joinUpper_of_remains hrest,
        lubAll_eq_some_iff.2 ⟨_, _, rfl, h⟩]
      rfl
    | erased hnone hrest =>
      rw [firstExact?_eq_none_iff.2 hnone, joinUpper_of_remains hrest]
      rfl
  · rintro rfl
    cases hexact : firstExact? (rs.filterMap MatchResult.constraint?) with
    | some t => exact .equated (firstExact?_eq_some_iff.1 hexact)
    | none =>
      have hnone := firstExact?_eq_none_iff.1 hexact
      obtain ⟨rest, hrest⟩ := exists_remains s (typesBearing .atMost rs)
      rw [Option.none_or, joinUpper_of_remains hrest]
      cases rest with
      | nil => exact .erased hnone hrest
      | cons u us =>
        obtain ⟨w, hw⟩ := hrest.joins
        rw [lubAll_eq_some_iff.2 ⟨u, us, rfl, hw⟩]
        exact .joined hnone hrest hw

theorem PairsGive.unique (h : s.PairsGive rs e t) (h' : s.PairsGive rs e u) : t = u :=
  (pairsGive_iff.1 h).trans (pairsGive_iff.1 h').symm

/-- The matches give what they lead to, or the erasure if they lead to nothing, unless the join of
the upper bounds breaks down and those behind the break are joined to another type. -/
theorem LeadTo.pairsGive_iff {a : Option Ty} (h : s.LeadTo .atMost rs a) :
    s.PairsGive rs e (a.getD e) ↔
      (NoneEquates rs → ∀ v after, s.Breaks (typesBearing .atMost rs) v after →
        ∀ u us w, s.Remains after (u :: us) → s.Joins u us w → w = e) := by
  cases h with
  | equated h => exact iff_of_true (.equated h) fun hnone => absurd hnone h.not_noneEquates
  | joined hnone hts h =>
    refine iff_of_true (.joined hnone (hts ▸ .all h) h) fun _ v after hbreak => ?_
    rw [hts] at hbreak
    exact absurd hbreak h.not_breaks
  | silent hnone hts =>
    have hrest : s.Remains (typesBearing .atMost rs) [] := by
      rw [hts]
      exact .nil
    refine iff_of_true (.erased hnone hrest) fun _ v after hbreak => ?_
    rw [hts] at hbreak
    cases hbreak
  | broken hnone hbreak =>
    constructor
    · intro hgive _ v after hbreak u us w hrest hjoin
      exact (PairsGive.joined hnone (.behind hbreak hrest) hjoin).unique hgive
    · intro hsame
      obtain ⟨rest, hrest⟩ := exists_remains s _
      cases rest with
      | nil => exact .erased hnone (.behind hbreak hrest)
      | cons u us =>
        obtain ⟨w, hjoin⟩ := hrest.joins
        obtain rfl : w = e := hsame hnone _ _ hbreak u us w hrest hjoin
        exact .joined hnone (.behind hbreak hrest) hjoin

end Store

namespace Engine

/-- What pairs of a formal and a type say about the parameter `p`, pair by pair. -/
def pairResults (s : Store) (pairs : List (Ty × Ty)) (p : ParamId) : List MatchResult :=
  pairs.map fun (formal, t) => s.constrain p .intoFormal formal t

variable {formals types : List Ty}

theorem pairsGive_pairAnswer (s : Store) (pairs : List (Ty × Ty)) (p : ParamId) :
    s.PairsGive (pairResults s pairs p) (s.paramErasure p) (pairAnswer s pairs p) := by
  have hconstraints : (pairResults s pairs p).filterMap MatchResult.constraint? =
      pairs.filterMap fun (formal, t) => (s.constrain p .intoFormal formal t).constraint? := by
    unfold pairResults
    rw [List.filterMap_map]
    rfl
  rw [Store.pairsGive_iff, ← map_filter_bearing, hconstraints]
  rfl

theorem inferPairs_of_length (s : Store) (params : List ParamId)
    (hlength : formals.length = types.length) :
    ∃ σ, inferPairs s params formals types = .ok σ ∧ ∀ p, σ.get? p =
      if p ∈ params then some (.bound (pairAnswer s (formals.zip types) p)) else none :=
  ⟨_, if_pos hlength, Substitution.get?_ofList_map _ params⟩

theorem length_of_inferPairs {s : Store} {params : List ParamId} {σ : Substitution}
    (h : inferPairs s params formals types = .ok σ) : formals.length = types.length := by
  unfold inferPairs at h
  split at h
  · assumption
  · cases h

/-- Each parameter is bound to what its pairs give, and nothing else is bound. That is the type of
the first equation; or else the join of the upper bounds, from left to right; or else the erasure of
the parameter. But a bound before a break of the join is dropped in favour of those behind it: the
answer is then the erasure only if none are left, or they are joined to the erasure. -/
theorem pairs_bind_iff (s : Store) (params : List ParamId) (formals types : List Ty)
    (hlength : formals.length = types.length) :
    ∃ σ, inferPairs s params formals types = .ok σ ∧ (∀ p, p ∉ params → σ.get? p = none) ∧
      ∀ p ∈ params, let rs := pairResults s (formals.zip types) p
        (∀ b, σ.get? p = some b ↔ ∃ t, b = .bound t ∧ s.PairsGive rs (s.paramErasure p) t) ∧
        ∃ a, s.LeadTo .atMost rs a ∧
          (σ.get? p = some (.bound (a.getD (s.paramErasure p))) ↔
            (NoneEquates rs → ∀ v after, s.Breaks (typesBearing .atMost rs) v after →
              ∀ u us w, s.Remains after (u :: us) → s.Joins u us w → w = s.paramErasure p)) := by
  obtain ⟨σ, hσ, hget⟩ := inferPairs_of_length s params hlength
  refine ⟨σ, hσ, fun p hp => (hget p).trans (if_neg hp), fun p hp => ?_⟩
  intro rs
  have hgive : s.PairsGive rs (s.paramErasure p) (pairAnswer s (formals.zip types) p) :=
    pairsGive_pairAnswer s (formals.zip types) p
  have hbound : ∀ b,
      σ.get? p = some b ↔ ∃ t, b = .bound t ∧ s.PairsGive rs (s.paramErasure p) t := by
    intro b
    rw [hget, if_pos hp, Option.some.injEq]
    constructor
    · rintro rfl
      exact ⟨_, rfl, hgive⟩
    · rintro ⟨t, rfl, ht⟩
      rw [hgive.unique ht]
  obtain ⟨a, ha⟩ := Store.exists_leadTo s .atMost rs
  refine ⟨hbound, a, ha, ?_⟩
  rw [← ha.pairsGive_iff, hbound]
  constructor
  · rintro ⟨t, heq, ht⟩
    cases heq
    exact ht
  · exact fun ht => ⟨_, rfl, ht⟩

def sorting : Store :=
  let (s, m) := Store.lists.declareMethod "sort" .method none
  (s.declareParam "T" (.method m)).1

def sink : Ty := .cls 13 [Ty.above (.param 19)]

/-- Lists of integers and of doubles, in place of a `List<? super T>` each, are joined to numbers. A
list of strings in place of a `List<T>` equates `T` with them. -/
theorem pairs_bind_numbers :
    (∃ σ, inferPairs sorting [19] [sink, sink] [.cls 13 [.raw 9], .cls 13 [.raw 12]] = .ok σ ∧
      σ.get? 19 = some (.bound (.raw 2))) ∧
    ∃ σ, inferPairs sorting [19] [sink, .cls 13 [.param 19]] [.cls 13 [.raw 9], .cls 13 [.raw 4]] =
        .ok σ ∧ σ.get? 19 = some (.bound (.raw 4)) := by
  constructor
  · obtain ⟨σ, hσ, -, hbind⟩ :=
      pairs_bind_iff sorting [19] [sink, sink] [.cls 13 [.raw 9], .cls 13 [.raw 12]] rfl
    have hjoin : sorting.Joins (.raw 9) [.raw 12] (.raw 2) := .cons rfl .nil
    have hnone : NoneEquates
        (pairResults sorting ([sink, sink].zip [.cls 13 [.raw 9], .cls 13 [.raw 12]]) 19) :=
      firstExact?_eq_none_iff.1 rfl
    exact ⟨σ, hσ, ((hbind 19 List.mem_cons_self).1 _).2 ⟨_, rfl, .joined hnone (.all hjoin) hjoin⟩⟩
  · obtain ⟨σ, hσ, -, hbind⟩ :=
      pairs_bind_iff sorting [19] [sink, .cls 13 [.param 19]] [.cls 13 [.raw 9], .cls 13 [.raw 4]]
        rfl
    exact ⟨σ, hσ, ((hbind 19 List.mem_cons_self).1 _).2
      ⟨_, rfl, .equated (firstExact?_eq_some_iff.1 rfl)⟩⟩

/-- Integers and `void` have no upper bound in common, so that the join breaks down. But the answer
is not the erasure `Object`: it is `String`, from the only bound behind the break. -/
theorem pairs_drop_integers :
    let formals := [sink, sink, sink]
    let types : List Ty := [.cls 13 [.raw 9], .cls 13 [.prim .void], .cls 13 [.raw 4]]
    let rs := pairResults sorting (formals.zip types) 19
    NoneEquates rs ∧ sorting.Breaks (typesBearing .atMost rs) (.prim .void) [.raw 4] ∧
      sorting.paramErasure 19 = .raw 1 ∧
      ∃ σ, inferPairs sorting [19] formals types = .ok σ ∧
        σ.get? 19 = some (.bound (.raw 4)) :=
  ⟨firstExact?_eq_none_iff.1 rfl, .intro [] .nil rfl, rfl, _, rfl, rfl⟩

end Engine

end GenericCalls

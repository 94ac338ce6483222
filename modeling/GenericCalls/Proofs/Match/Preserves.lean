import GenericCalls.Match.Basic
import GenericCalls.Proofs.Lub.Arguments
import GenericCalls.Proofs.Store.Preserves

/-! # Matches that find types with a property

What a match finds is a part of the type that is matched, as it is seen at the class of the pattern;
nothing of the pattern gets into it. So where the store preserves a property, a type that has it is
found to equate or bound the target with types that have it only, whatever the pattern is. -/

namespace GenericCalls

open Ty

variable {P : Ty → Prop}

/-- What a match found, if anything, has the property `P`. -/
def MatchResult.Finds (P : Ty → Prop) (r : MatchResult) : Prop := ∀ c, r = .found c → P c.ty

theorem MatchResult.finds_found {c : Constraint} (h : P c.ty) : (MatchResult.found c).Finds P := by
  intro c' hc
  cases hc
  exact h

theorem MatchResult.Finds.constraint? {r : MatchResult} (h : r.Finds P) {c : Constraint}
    (hc : r.constraint? = some c) : P c.ty := by
  cases r with
  | found c' =>
    cases hc
    exact h c rfl
  | _ => cases hc

namespace Store

variable {s : Store} {target : ParamId} {t : Ty} {r : MatchResult}

/-! ### Views -/

theorem Preserves.liftWithin (hs : s.Preserves P) {c : ClassId} {n : Nat} {u : ClassTy} (ht : P t)
    (h : s.liftWithin c n t = some u) : P u.toTy := by
  induction n generalizing t with
  | zero => cases h
  | succ n ih =>
    cases t with
    | cls d args =>
      obtain ⟨lifted, hlifted, rfl⟩ := Option.map_eq_some_iff.1 h
      exact hs.ancestorArgs (c := ⟨d, args⟩) ht hlifted
    | param p =>
      rw [Store.liftWithin] at h
      split at h
      · exact ih hs.object h
      · obtain ⟨b, hb, hlift⟩ := List.exists_of_findSome?_eq_some h
        exact ih (hs.bounds ht b hb) hlift
    | inter ts =>
      obtain ⟨b, hb, hlift⟩ := List.exists_of_findSome?_eq_some h
      exact ih (hs.inter.1 ht b hb) hlift
    | _ => cases h

theorem Preserves.promoteAll (hs : s.Preserves P) {c : ClassTy} (hc : P c.toTy) :
    ∀ t ∈ s.promoteAll c, P t := by
  intro t ht
  obtain ⟨i, hi, rfl⟩ := List.mem_mapIdx.1 ht
  have hi : P c.args[i] := hs.args hc _ (List.getElem_mem hi)
  generalize c.args[i] = u at hi ⊢
  unfold promote
  split
  · dsimp only
    split
    · rename_i b hb
      obtain ⟨p, hp, hbound⟩ := Option.bind_eq_some_iff.1 hb
      split
      · exact hi
      · rename_i hkept
        rw [Bool.or_eq_true, not_or, List.any_eq_true] at hkept
        have hpromoted := hs.promoted hc p (List.mem_of_getElem? hp) b hbound
        exact hs.wild.2 (hpromoted.resolve_right hkept.2)
    · exact hi
  · exact hi

/-! ### Type arguments -/

theorem finds_matchArgs {go : Ty → Ty → Option MatchResult} {pairs : List (Ty × Ty)}
    (hgo : ∀ p ∈ pairs, ∀ r, go p.1 p.2 = some r → r.Finds P) {captured : Option Constraint}
    (hcaptured : ∀ c, captured = some c → P c.ty)
    (h : matchArgs go captured pairs = some r) : r.Finds P := by
  induction pairs generalizing captured with
  | nil =>
    cases captured with
    | none =>
      cases h
      exact nofun
    | some c =>
      cases h
      exact MatchResult.finds_found (hcaptured c rfl)
  | cons p pairs ih =>
    obtain ⟨hp, hpairs⟩ := List.forall_mem_cons.1 hgo
    rw [matchArgs] at h
    split at h
    · cases h
    · exact ih hpairs hcaptured h
    · rename_i c hc
      split at h
      · split at h
        · cases h
          exact nofun
        · refine ih hpairs (fun c' hc' => ?_) h
          cases hc'
          exact hp _ hc c rfl
      · cases h
        exact hp _ hc
    · rename_i hr
      cases h
      exact hp _ hr

theorem finds_joinBoundResults {results : List MatchResult} (h : ∀ r ∈ results, r.Finds P) :
    (joinBoundResults results).Finds P := by
  unfold joinBoundResults
  split
  · exact nofun
  · cases hfind : results.find? fun r => !r.isNoInfo with
    | none => exact nofun
    | some r => exact h r (List.mem_of_find?_eq_some hfind)

theorem finds_matchBoundArgs {go : Ty → Ty → Option MatchResult} {pairs : List (Ty × Ty)}
    (hgo : ∀ p ∈ pairs, ∀ r, go p.1 p.2 = some r → r.Finds P)
    (h : matchBoundArgs go pairs = some r) : r.Finds P := by
  obtain ⟨results, hresults, rfl⟩ := Option.map_eq_some_iff.1 h
  rw [mapM_eq_some_iff] at hresults
  refine finds_joinBoundResults fun r hr => ?_
  have hmem : some r ∈ results.map some := List.mem_map_of_mem hr
  rw [← hresults] at hmem
  obtain ⟨p, hp, hfound⟩ := List.mem_map.1 hmem
  exact hgo p hp r hfound

/-! ### Steps -/

/-- What the matching of parts provides: what is found in a type with the property has it. -/
def PartsFind (P : Ty → Prop) (go : Ty → Ty → Option MatchResult) : Prop :=
  ∀ p t r, P t → go p t = some r → r.Finds P

theorem Preserves.matchClass (hs : s.Preserves P) {go : Ty → Ty → Option MatchResult}
    (hgo : PartsFind P go) {pattern arg : ClassTy} (harg : P arg.toTy)
    (h : s.matchClass target go pattern arg = some r) : r.Finds P := by
  unfold Store.matchClass at h
  split at h
  · cases h
    split
    · exact nofun
    · exact nofun
  · refine finds_matchArgs (fun p hp r hr => ?_) (fun c hc => ?_) h
    · exact hgo p.1 p.2 r (hs.promoteAll harg _ (mem_of_pairArgs hp).2) hr
    · cases hc

theorem Preserves.matchBound (hs : s.Preserves P) {go : Ty → Ty → Bearing → Option MatchResult}
    {deeper : Ty → Ty → Option MatchResult} (hgo : ∀ b, PartsFind P fun p t => go p t b)
    (hdeeper : PartsFind P deeper) {kind : WildcardKind} {bound arg : Ty} (harg : P arg)
    (h : s.matchBound target go deeper kind bound arg = some r) : r.Finds P := by
  unfold Store.matchBound at h
  dsimp only at h
  split at h
  · split at h
    · split at h
      · exact hgo _ _ _ _ (hs.bound harg rfl rfl) h
      · cases h
        exact nofun
    · cases h
      exact nofun
  · split at h
    · exact hgo _ _ _ _ harg h
    · split at h
      · exact hgo _ _ _ _ (hs.array.1 harg) h
      · rename_i c cs d ds _ _
        -- The arguments paired are those of the type, or those with which it is seen.
        split at h
        · rename_i pairs hpairs
          refine finds_matchBoundArgs (fun p hp r hr => hdeeper p.1 p.2 r ?_ hr) h
          cases kind with
          | upper =>
            obtain ⟨lifted, hlifted, rfl⟩ := Option.map_eq_some_iff.1 hpairs
            have hargs := hs.ancestorArgs (c := ⟨d, ds⟩) harg hlifted
            exact hs.args hargs _ (mem_of_pairArgs hp).2
          | lower =>
            obtain ⟨lifted, _, rfl⟩ := Option.map_eq_some_iff.1 hpairs
            exact hs.args harg _ (mem_of_pairArgs hp).2
        · cases h
          exact nofun
      · cases h
        exact nofun

theorem Preserves.matchStep (hs : s.Preserves P)
    {go : Ty → Ty → Bearing → Nat → Option MatchResult}
    (hgo : ∀ b d, PartsFind P fun p t => go p t b d) {pattern arg : Ty} {b : Bearing} {d : Nat}
    (harg : P arg) (h : s.matchStep target go pattern arg b d = some r) : r.Finds P := by
  have harg := hs.reopen harg
  unfold Store.matchStep at h
  dsimp only at h
  generalize arg.reopen = arg at harg h
  split at h
  · split at h
    · cases h
      exact nofun
    · split at h
      · cases h
        exact nofun
      · cases h
        exact MatchResult.finds_found harg
  · split at h
    · exact hgo _ _ _ _ _ (hs.array.1 harg) h
    · cases h
      exact nofun
    · exact hs.matchBound (fun b => hgo b d) (hgo _ _) harg h
    · rename_i c cs d ds _
      split at h
      · have harg : P (ClassTy.toTy ⟨d, ds⟩) := harg
        exact hs.matchClass (hgo _ _) harg h
      · cases h
        exact nofun
    · cases h
      exact nofun

theorem Preserves.matchWithin (hs : s.Preserves P) (target : ParamId) (n : Nat) (b : Bearing)
    (d : Nat) : PartsFind P fun p t => s.matchWithin target n p t b d := by
  induction n generalizing b d with
  | zero =>
    intro p t r _ h
    cases h
  | succ n ih =>
    intro p t r ht h
    exact hs.matchStep ih ht h

/-! ### Whole types -/

theorem Preserves.matchTypes (hs : s.Preserves P) {pattern : Ty} {b : Bearing} {d : Nat}
    (ht : P t) : (s.matchTypes target pattern t b d).Finds P := by
  unfold Store.matchTypes
  cases h : s.matchWithin target (matchBudget pattern t) pattern t b d with
  | none => exact nofun
  | some r => exact hs.matchWithin target _ b d pattern t r ht h

theorem Preserves.constrainClass (hs : s.Preserves P) {flow : Flow} {pattern : ClassTy}
    (ht : P t) : (s.constrainClass target flow pattern t).Finds P := by
  unfold Store.constrainClass
  split
  · split
    · rename_i lifted hlifted
      exact hs.matchTypes (hs.liftWithin ht hlifted)
    · exact nofun
  · split
    · exact hs.matchTypes ht
    · exact nofun
  · exact nofun

theorem Preserves.constrain (hs : s.Preserves P) {flow : Flow} {declared : Ty} (ht : P t) :
    (s.constrain target flow declared t).Finds P := by
  fun_induction Store.constrain s target flow declared t with
  | case1 p t ih => exact ih (hs.array.1 ht)
  | case2 p t u hbox _ => exact MatchResult.finds_found (hs.box ht hbox)
  | case5 c cs t u hbox => exact hs.constrainClass (hs.box ht hbox)
  | _ => exact nofun

end Store

end GenericCalls

import GenericCalls.Proofs.Inference.Answers
import GenericCalls.Proofs.Ranking.Nesting

/-! # What a ranking ran through

A ranking of calls whose arguments all have types that are known beforehand types the arguments by
capturing them, and ranks the candidates one after another. From a ranking that ended its steps are
read off: the typed arguments, and the substitution and phase of each candidate. The type of a call
is that of its only best candidate. -/

namespace GenericCalls

/-! ### The best candidate -/

theorem Resolution.mem_of_uniqueBest? {r : Resolution} {c : Candidate}
    (h : r.uniqueBest? = some c) : c ∈ r.candidates := by
  have hbest : c ∈ r.best := by
    unfold uniqueBest? at h
    split at h
    · rename_i d hd
      split at h
      · cases h
        rw [hd]
        exact List.mem_singleton.2 rfl
      · cases h
    · cases h
  unfold best at hbest
  split at hbest
  · cases hbest
  · split at hbest
    · exact (List.takeWhile_subset _) hbest
    · cases hbest

namespace Engine
open Run

variable {e : Engine} {rank : CallId → Run Ranked} {site : CallSite} {s t : Session}

/-! ### Typed arguments -/

/-- Class types with the wildcards among their arguments captured, from first to last. -/
def captureEach (s : Session) : List ClassTy → List ClassTy
  | [] => []
  | c :: cs => ⟨c.id, (s.captureArgs c.args).1⟩ :: captureEach (s.captureArgs c.args).2 cs

theorem typed_of_typeArgs {cs : List ClassTy} {as : List TypedArg}
    (h : (e.typeArgs rank (cs.map fun c => .known (some c.toTy))).run s = .ok (as, t)) :
    as = ((captureEach s cs).map ClassTy.toTy).map fun t => { ty := some t } := by
  induction cs generalizing s as with
  | nil =>
    cases h
    rfl
  | cons c cs ih =>
    obtain ⟨a, u, ha, hrest⟩ := exists_of_run_bind h
    obtain ⟨as', v, has, hpure⟩ := exists_of_run_bind hrest
    cases hpure
    cases ha
    rw [ih has]
    rfl

theorem slots_of_typed (r : Request) {ts : List Ty}
    (hargs : r.args = ts.map fun t => { ty := some t }) (blocked : CallId → Bool) :
    r.slots blocked = ts.zipIdx.filterMap fun e => r.slot? e.2 e.1 := by
  unfold Request.slots
  rw [hargs, List.zipIdx_map, List.filterMap_map]
  rfl

/-! ### Ranked candidates -/

structure RankedBy (e : Engine) (rank : CallId → Run Ranked) (site : CallSite)
    (args : List TypedArg) (id : MethodId) (c : Candidate) : Prop where
  method : c.method = id
  substituted : ∀ method, e.store.method? id = some method → ∃ s t,
    (e.candidateSubstitution rank site method args).run s = .ok (c.substitution, t)
  phase : ∀ method, e.store.method? id = some method →
    c.phase = phaseOf e.store method c.substitution args

theorem ranked_of_rankCandidates {as : List TypedArg} {ids : List MethodId}
    {r : Except RankError (List Candidate)} (hids : ∀ id ∈ ids, (e.store.method? id).isSome = true)
    (h : (e.rankCandidates rank site as ids).run s = .ok (r, t)) :
    ∃ cs, r = .ok cs ∧ List.Forall₂ (RankedBy e rank site as) ids cs := by
  induction ids generalizing s t r with
  | nil =>
    cases h
    exact ⟨[], rfl, .nil⟩
  | cons id ids ih =>
    obtain ⟨hid, hrest⟩ := List.forall_mem_cons.1 hids
    obtain ⟨method, hmethod⟩ := Option.isSome_iff_exists.1 hid
    unfold rankCandidates at h
    rw [hmethod] at h
    obtain ⟨c, u, hc, h⟩ := exists_of_run_bind h
    obtain ⟨r', v, hr', h⟩ := exists_of_run_bind h
    obtain ⟨cs, rfl, hcs⟩ := ih hrest hr'
    cases h
    obtain ⟨σ, w, hσ, hpure⟩ := exists_of_run_bind hc
    cases hpure
    refine ⟨_, rfl, .cons ⟨rfl, fun method' hmethod' => ?_, fun method' hmethod' => ?_⟩ hcs⟩
    · cases hmethod.symm.trans hmethod'
      exact ⟨s, _, hσ⟩
    · cases hmethod.symm.trans hmethod'
      rfl

theorem isSome_of_rankCandidates {as : List TypedArg} {ids : List MethodId} {cs : List Candidate}
    (h : (e.rankCandidates rank site as ids).run s = .ok (.ok cs, t)) :
    ∀ id ∈ ids, (e.store.method? id).isSome = true := by
  induction ids generalizing s t cs with
  | nil => exact nofun
  | cons id ids ih =>
    unfold rankCandidates at h
    cases hmethod : e.store.method? id with
    | none =>
      rw [hmethod] at h
      cases h
    | some method =>
      rw [hmethod] at h
      obtain ⟨c, u, _, h⟩ := exists_of_run_bind h
      obtain ⟨r, v, hr, h⟩ := exists_of_run_bind h
      cases r with
      | error err => cases h
      | ok cs => exact List.forall_mem_cons.2 ⟨by rw [hmethod]; rfl, ih hr⟩

/-- In the ranking of a call site the arguments are typed, and every candidate is a declared method,
ranked by itself. -/
theorem ranked_of_rankSiteWith {res : Resolution}
    (h : (e.rankSiteWith rank site).run s = .ok (.ok res, t)) :
    ∃ as u, (e.typeArgs rank site.args).run s = .ok (as, u) ∧
      ∀ c ∈ res.candidates, RankedBy e rank site as c.method c ∧
        ∃ method, e.store.method? c.method = some method := by
  unfold rankSiteWith at h
  obtain ⟨as, u, has, h⟩ := exists_of_run_bind h
  obtain ⟨r, v, hr, h⟩ := exists_of_run_bind h
  cases r with
  | error err => cases h
  | ok cs =>
    cases h
    have hids := isSome_of_rankCandidates hr
    obtain ⟨cs', heq, hcs⟩ := ranked_of_rankCandidates hids hr
    cases heq
    refine ⟨as, u, has, fun c hc => ?_⟩
    obtain ⟨id, hid, hranked⟩ := exists_mem_of_forall₂ hcs.flip (mem_sortByTier.1 hc)
    have hranked : RankedBy e rank site as id c := hranked
    obtain rfl := hranked.method
    exact ⟨hranked, Option.isSome_iff_exists.1 (hids _ hid)⟩

theorem exists_candidate_of_typeOfRanked {res : Resolution} {ty : Ty}
    (h : (e.typeOfRanked (.ok res)).run s = .ok (some ty, t)) :
    ∃ k ∈ res.candidates, ∃ method, e.store.method? k.method = some method ∧
      ty = (s.capture (instantiate e.store k.substitution method.returns)).1 := by
  unfold typeOfRanked at h
  dsimp only at h
  split at h
  · cases h
  · rename_i k hk
    split at h
    · cases h
    · rename_i method hmethod
      cases h
      exact ⟨k, Resolution.mem_of_uniqueBest? hk, method, hmethod, rfl⟩

/-- Without explicit type arguments, the substitution of a candidate is concluded from verdicts on
its type parameters, which are those that the arguments decide. -/
theorem exists_verdicts {method : MethodDecl} {as : List TypedArg} {σ : Substitution}
    (hgeneric : method.typeParams ≠ []) (htypeArgs : site.typeArgs = [])
    (hσ : (e.candidateSubstitution rank site method as).run s = .ok (σ, t)) :
    let r := Request.ofMethod method as site.given (some site.id)
    ∃ vs, σ = conclude e.store r vs ∧ vs.length = method.typeParams.length ∧
      ∀ p v w, (p, v) ∈ method.typeParams.zip vs →
        (∀ blocked, r.argumentVerdict e.store blocked p = .decided w) → v = w := by
  intro r
  unfold candidateSubstitution at hσ
  rw [if_neg (fun hnil => hgeneric (List.isEmpty_iff.1 hnil)),
    if_pos (by rw [htypeArgs]; rfl)] at hσ
  obtain ⟨vs, u, hvs, hpure⟩ := exists_of_run_bind hσ
  cases hpure
  have hjudged := forall₂_of_judgeAll (J := fun p v => ∀ w,
    (∀ blocked, r.argumentVerdict e.store blocked p = .decided w) → v = w)
    (fun p s v t hrun w hw => eq_of_judge hw hrun) hvs
  exact ⟨vs, rfl, hjudged.length_eq.symm,
    fun p v w hmem => (List.forall₂_iff_zip.1 hjudged).2 hmem w⟩

/-- Where all arguments are known to be of class types and all candidates are declared, the call is
ranked, each candidate by itself against captures of the arguments. -/
theorem exists_rankSite (e : Engine) (site : CallSite) (s : Session) {cs : List ClassTy}
    (hargs : site.args = cs.map fun c => .known (some c.toTy))
    (hdeclared : ∀ id ∈ site.candidates, (e.store.method? id).isSome = true) :
    ∃ r, (e.rankSite site s).1 = .ok r ∧
      (∀ id ∈ site.candidates, ∃ c ∈ r.candidates, c.method = id) ∧
      ∀ c ∈ r.candidates, RankedBy e (e.rankWithin s.nesting) site
        (((captureEach s cs).map ClassTy.toTy).map fun t => { ty := some t }) c.method c := by
  obtain ⟨ranked, hresult⟩ : ∃ ranked, (e.rankSite site s).1 = ranked := ⟨_, rfl⟩
  have hrun := run_of_rankSite hresult
  unfold rankSiteWith at hrun
  obtain ⟨as, u, has, hrun⟩ := exists_of_run_bind hrun
  obtain ⟨r, v, hr, hrun⟩ := exists_of_run_bind hrun
  rw [hargs] at has
  obtain rfl := typed_of_typeArgs has
  obtain ⟨cands, rfl, hcands⟩ := ranked_of_rankCandidates hdeclared hr
  cases hrun
  refine ⟨_, hresult, fun id hid => ?_, fun c hc => ?_⟩
  · obtain ⟨c, hc, hranked⟩ := exists_mem_of_forall₂ hcands hid
    exact ⟨c, mem_sortByTier.2 hc, hranked.method⟩
  · obtain ⟨id, _, hranked⟩ := exists_mem_of_forall₂ hcands.flip (mem_sortByTier.1 hc)
    have hranked : RankedBy e (e.rankWithin s.nesting) site _ id c := hranked
    rw [hranked.method]
    exact hranked

end Engine

end GenericCalls

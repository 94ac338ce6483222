import GenericCalls.Proofs.Inference.Answers
import GenericCalls.Proofs.Inference.Contexts
import GenericCalls.Proofs.Ranking.Runs

/-! # Rankings with a property

Where all types that an engine works on have a property that its store preserves, the types that
inference finds have it, too: those that candidates bind type parameters to and those of calls,
however deep the rankings are nested. -/

namespace GenericCalls

open Ty

variable {P : Ty → Prop}

/-! ### Substitutions -/

namespace Substitution

variable {σ τ : Substitution} {ps : List ParamId} {p : ParamId}

/-- The type parameters that a substitution binds, and the types that it binds them to, have the
property `P`. -/
def Within (P : Ty → Prop) (σ : Substitution) : Prop :=
  ∀ p b, σ.get? p = some b → P (.param p) ∧ ∀ t, b = .bound t → P t

theorem Within.binds (h : σ.Within P) (p : ParamId) (t : Ty) (ht : σ.get? p = some (.bound t)) :
    P t :=
  (h p _ ht).2 t rfl

theorem within_empty (P : Ty → Prop) : empty.Within P := fun _ _ h => nomatch h

theorem Within.put (h : σ.Within P) {b : Binding} (hp : P (.param p))
    (hb : ∀ t, b = .bound t → P t) : (σ.put p b).Within P := by
  intro q c hq
  rw [get?_put] at hq
  split at hq
  · rename_i heq
    cases hq
    exact ⟨heq ▸ hp, hb⟩
  · exact h q c hq

theorem Within.eraseAll (h : σ.Within P) (hps : ∀ p ∈ ps, P (.param p)) :
    (σ.eraseAll ps).Within P := by
  intro q b hq
  rw [get?_eraseAll] at hq
  split at hq
  · rename_i hmem
    cases hq
    exact ⟨hps q hmem, nofun⟩
  · exact h q b hq

theorem within_ofArgs {args : List Ty} (hps : ∀ p ∈ ps, P (.param p)) (hargs : ∀ t ∈ args, P t) :
    (ofArgs ps args).Within P := by
  intro q b hq
  obtain ⟨hmem, t, ht, rfl⟩ := get?_ofArgs hq
  refine ⟨hps q hmem, fun u hu => ?_⟩
  cases hu
  exact hargs t ht

theorem Within.merge (hσ : σ.Within P) (hτ : τ.Within P) : (σ.merge τ).Within P := by
  intro q b hq
  rw [get?_merge, Option.or_eq_some_iff] at hq
  rcases hq with hq | ⟨_, hq⟩
  · exact hτ q b hq
  · exact hσ q b hq

theorem Within.bindAll {l : List (ParamId × Option Ty)} (hσ : σ.Within P)
    (hl : ∀ a ∈ l, P (.param a.1) ∧ ∀ t, a.2 = some t → P t)
    (h : Engine.bindAll? σ l = some τ) : τ.Within P := by
  induction l generalizing σ with
  | nil =>
    cases h
    exact hσ
  | cons a rest ih =>
    obtain ⟨p, t⟩ := a
    obtain ⟨⟨hp, ht⟩, hrest⟩ := List.forall_mem_cons.1 hl
    cases t with
    | none => cases h
    | some t =>
      rw [Engine.bindAll?] at h
      refine ih ?_ hrest h
      split
      · exact hσ
      · refine hσ.put hp fun u hu => ?_
        cases hu
        exact ht t rfl

end Substitution

/-! ### What an engine works on -/

structure MethodDecl.Within (P : Ty → Prop) (d : MethodDecl) : Prop where
  typeParams : ∀ p ∈ d.typeParams, P (.param p)
  formals : ∀ f ∈ d.formals, P f.ty
  returns : P d.returns

structure CallSite.Within (P : Ty → Prop) (site : CallSite) : Prop where
  args : ∀ t, .known (some t) ∈ site.args → P t
  context : ∀ t, site.context.expected? = some t → P t
  typeArgs : ∀ t ∈ site.typeArgs, P t
  given : site.given.Within P

structure Request.Within (P : Ty → Prop) (r : Request) : Prop where
  typeParams : ∀ p ∈ r.typeParams, P (.param p)
  returns : P r.method.returns
  args : ∀ a ∈ r.args, ∀ t ∈ a.ty, P t
  given : r.given.Within P

namespace Engine
open Run Store

/-- The store of an engine preserves a property that all types in signatures and calls have. -/
structure Within (P : Ty → Prop) (e : Engine) : Prop where
  store : e.store.Preserves P
  methods : ∀ {m d}, e.store.method? m = some d → d.Within P
  sites : ∀ {c site}, e.calls.site? c = some site → site.Within P

/-- The rankings of calls bind type parameters to types with the property `P`. -/
def RanksWithin (P : Ty → Prop) (rank : CallId → Run Ranked) : Prop :=
  ∀ call s res t, (rank call).run s = .ok (.ok res, t) →
    ∀ k ∈ res.candidates, k.substitution.Within P

variable {e : Engine} {rank : CallId → Run Ranked} {r : Request} {p : ParamId} {s t : Session}
  {σ : Substitution}

/-! ### Expected types -/

theorem instantiate_has {st : Store} (hst : st.Preserves P) (hσ : σ.Within P) {u : Ty} (hu : P u) :
    P (instantiate st σ u) := by
  unfold instantiate
  cases h : σ.substitute u with
  | none => exact hst.erasure hu
  | some v => exact hst.substitute hσ.binds hu h

theorem narrow_has {st : Store} (hst : st.Preserves P) (hσ : σ.Within P) (hp : P (.param p))
    {guess : Ty} {bs : List Ty} (hguess : P guess) (hbs : ∀ b ∈ bs, P b) :
    P (narrow st σ p guess bs) := by
  induction bs generalizing guess with
  | nil => exact hguess
  | cons b bs ih =>
    obtain ⟨hb, hbs⟩ := List.forall_mem_cons.1 hbs
    rw [narrow]
    split
    · exact hguess
    · rename_i u hu
      split
      · exact ih hguess hbs
      · split
        · refine ih (hst.substitute (hσ.put hp fun v hv => ?_).binds hb hu) hbs
          cases hv
          exact hguess
        · exact hguess

theorem fromBound_has (hst : e.store.Preserves P) (hr : r.Within P) (hp : P (.param p)) :
    P (e.fromBound p r).ty := by
  have hbound : P (((e.store.primaryBound? p).bind (r.given.put p .erased).substitute).getD
      e.store.object) := by
    cases h : (e.store.primaryBound? p).bind (r.given.put p .erased).substitute with
    | none => exact hst.object
    | some u =>
      obtain ⟨b, hb, hu⟩ := Option.bind_eq_some_iff.1 h
      exact hst.substitute (hr.given.put (b := .erased) hp nofun).binds (hst.primaryBound hp hb) hu
  unfold fromBound
  dsimp only
  split
  · exact hst.wild.2 hbound
  · exact hbound

theorem refine_has (hst : e.store.Preserves P) (hr : r.Within P) (hp : P (.param p))
    {c : Constraint} (hc : P c.ty) : P (e.refine p r c).ty := by
  have hguess : P (if e.options.isBestEffort && !c.ty.isWild then extending c.ty else c.ty) := by
    split
    · exact hst.wild.2 hc
    · exact hc
  unfold refine
  dsimp only
  split
  · exact narrow_has hst hr.given hp hguess (hst.bounds hp)
  · exact hguess

theorem fromExpected_has (hst : e.store.Preserves P) (hr : r.Within P) (hp : P (.param p))
    {expected : Option Ty} (hexpected : ∀ t, expected = some t → P t) :
    P (e.fromExpected p r expected).ty := by
  have hassumed : P (expected.getD (if e.options.isBestEffort then .null else e.store.object)) := by
    cases expected with
    | some t => exact hexpected t rfl
    | none =>
      rw [Option.getD_none]
      split
      · exact hst.null
      · exact hst.object
  unfold fromExpected
  dsimp only
  split
  · rename_i c hc
    exact refine_has hst hr hp (hst.constrain hassumed c hc)
  · exact fromBound_has hst hr hp

theorem formalFor_has (hst : e.store.Preserves P) {method : MethodDecl} (hmethod : method.Within P)
    {index : Nat} {returns u : Ty} (h : formalFor? method index returns = some u) : P u := by
  unfold formalFor? at h
  split at h
  · obtain ⟨last, hlast, rfl⟩ := Option.map_eq_some_iff.1 h
    have hlast := hmethod.formals last (List.mem_of_getLast? hlast)
    have hcomponent {c : Ty} (hc : last.ty.component? = some c) : P c := by
      cases hty : last.ty with
      | array t =>
        rw [hty] at hc hlast
        cases hc
        exact hst.array.1 hlast
      | _ =>
        rw [hty] at hc
        cases hc
    split
    · rename_i c _ hc _
      split
      · exact hlast
      · exact hcomponent hc
    · rename_i c hc _
      exact hcomponent hc
    · exact hlast
  · obtain ⟨f, hf, rfl⟩ := Option.map_eq_some_iff.1 h
    exact hmethod.formals f (List.mem_of_getElem? hf)

/-! ### Verdicts -/

theorem contextAnswer_has (he : e.Within P) (hrank : RanksWithin P rank) (hr : r.Within P)
    (hp : P (.param p)) {c : Constraint} (h : e.ContextAnswer rank p r s c) : P c.ty := by
  cases h with
  | expected hsite h =>
    obtain ⟨call, _, hsite⟩ := exists_call_of_contextSite hsite
    exact fromExpected_has he.store hr hp fun t ht => (he.sites hsite).context t (h t ht)
  | candidate _ _ _ hconsult hk hc =>
    obtain ⟨u, v, hrun⟩ := exists_run_of_consulting hconsult
    refine finds_fromCandidate he.store (fun method t hmethod ht => ?_) hc
    exact instantiate_has he.store (hrank _ _ _ _ hrun _ hk)
      (formalFor_has he.store (he.methods hmethod) ht)

theorem judge_has (he : e.Within P) (hrank : RanksWithin P rank) (hr : r.Within P)
    (hp : P (.param p)) {v : Verdict} (h : (e.judge rank r p).run s = .ok (v, t)) :
    ∀ u, v.ty? = some u → P u := by
  have hdecides := Request.decides_argumentVerdict he.store hr.args s.guard.isBlocked p
  intro u hu
  rcases cases_of_judge h with hv | ⟨upper, answer, hv, hcontext, rfl⟩
  · rw [hv] at hdecides
    cases hdecides with
    | fatal hfatal => cases v <;> cases hfatal <;> cases hu
    | exact ht =>
      cases hu
      exact ht
  · rw [hv] at hdecides
    cases hdecides with
    | pending hupper =>
      rcases ty?_settleOpen hu with hbound | ⟨c, rfl, rfl⟩
      · exact hupper u hbound
      · exact contextAnswer_has he hrank hr hp (contextAnswer_of_fromContext hcontext)

/-! ### Conclusions -/

theorem conclude_within {st : Store} (hst : st.Preserves P) (hr : r.Within P) {vs : List Verdict}
    (hvs : ∀ v ∈ vs, ∀ u, v.ty? = some u → P u) : (conclude st r vs).Within P := by
  rcases conclude_cases st r vs with herased | ⟨_, hσ⟩
  · rw [herased]
    exact hr.given.eraseAll hr.typeParams
  · refine hr.given.bindAll (fun a ha => ?_) hσ
    obtain ⟨hmem, hfound⟩ := List.of_mem_zip ha
    refine ⟨hr.typeParams _ hmem, fun u hu => ?_⟩
    rw [hu] at hfound
    obtain ⟨i, hi⟩ := List.mem_iff_getElem?.1 hfound
    rcases reconcile_or_upperTy hi with hfollows | ⟨v, hv, hupper⟩
    · refine hst.reconcileFrom (fun u hu => ?_) u (List.mem_of_getElem? hfollows)
      obtain ⟨v, hv, hexact⟩ := List.mem_map.1 hu
      exact hvs v hv u (ty?_of_exactTy? hexact)
    · exact hvs v (List.mem_of_getElem? hv) u (ty?_of_upperTy? hupper)

theorem inferWith_within (he : e.Within P) (hrank : RanksWithin P rank) (hr : r.Within P)
    (h : (e.inferWith rank r).run s = .ok (σ, t)) : σ.Within P := by
  obtain ⟨vs, u, hvs, hpure⟩ := exists_of_run_bind h
  cases hpure
  have hjudged := forall₂_of_judgeAll (J := fun p v => P (.param p) → ∀ u, v.ty? = some u → P u)
    (fun p s v t hrun hp => judge_has he hrank hr hp hrun) hvs
  refine conclude_within he.store hr fun v hv => ?_
  obtain ⟨p, hp, hv⟩ := exists_mem_of_forall₂ hjudged.flip hv
  exact hv (hr.typeParams p hp)

theorem candidateSubstitution_within (he : e.Within P) (hrank : RanksWithin P rank)
    {site : CallSite} (hsite : site.Within P) {method : MethodDecl} (hmethod : method.Within P)
    {as : List TypedArg} (has : ∀ a ∈ as, ∀ t ∈ a.ty, P t)
    (h : (e.candidateSubstitution rank site method as).run s = .ok (σ, t)) : σ.Within P := by
  unfold candidateSubstitution at h
  split at h
  · cases h
    exact hsite.given
  · split at h
    · exact inferWith_within he hrank
        ⟨hmethod.typeParams, hmethod.returns, has, hsite.given⟩ h
    · split at h
      · cases h
        exact hsite.given.merge (Substitution.within_ofArgs hmethod.typeParams hsite.typeArgs)
      · cases h
        exact hsite.given.eraseAll hmethod.typeParams

/-! ### Types of calls and arguments -/

theorem typeOfRanked_has (he : e.Within P) {ranked : Ranked}
    (hranked : ∀ res, ranked = .ok res → ∀ k ∈ res.candidates, k.substitution.Within P) {u : Ty}
    (h : (e.typeOfRanked ranked).run s = .ok (some u, t)) : P u := by
  cases ranked with
  | error err => cases h
  | ok res =>
    obtain ⟨k, hk, method, hmethod, rfl⟩ := exists_candidate_of_typeOfRanked h
    exact he.store.capture
      (instantiate_has he.store (hranked res rfl k hk) (he.methods hmethod).returns) s

theorem callTypeWith_has (he : e.Within P) (hrank : RanksWithin P rank) {call : CallId} {u : Ty}
    (h : (e.callTypeWith rank call).run s = .ok (some u, t)) : P u := by
  obtain ⟨answer, v, hanswer, h⟩ := exists_of_run_bind h
  cases answer with
  | none => cases h
  | some ranked =>
    obtain ⟨w, x, hrun⟩ := exists_run_of_evaluating hanswer
    refine typeOfRanked_has he (fun res hres => ?_) h
    rw [hres] at hrun
    exact hrank _ _ _ _ hrun

theorem typeArg_has (he : e.Within P) (hrank : RanksWithin P rank) {arg : Argument}
    (harg : ∀ t, arg = .known (some t) → P t) {a : TypedArg}
    (h : (e.typeArg rank arg).run s = .ok (a, t)) : ∀ u ∈ a.ty, P u := by
  intro u hu
  cases arg with
  | known ty =>
    cases ty with
    | none =>
      cases h
      cases hu
    | some ty =>
      cases h
      cases hu
      exact he.store.capture (harg ty rfl) s
  | call c =>
    obtain ⟨blocked, v, _, h⟩ := exists_of_run_bind h
    split at h
    · cases h
      cases hu
    · obtain ⟨ty, w, hty, h⟩ := exists_of_run_bind h
      cases h
      cases hu
      exact callTypeWith_has he hrank hty

theorem typeArgs_have (he : e.Within P) (hrank : RanksWithin P rank) {args : List Argument}
    (hargs : ∀ t, .known (some t) ∈ args → P t) {as : List TypedArg}
    (h : (e.typeArgs rank args).run s = .ok (as, t)) : ∀ a ∈ as, ∀ u ∈ a.ty, P u := by
  induction args generalizing s as with
  | nil =>
    cases h
    exact nofun
  | cons arg args ih =>
    obtain ⟨a, u, ha, hrest⟩ := exists_of_run_bind h
    obtain ⟨as', v, has, hpure⟩ := exists_of_run_bind hrest
    cases hpure
    refine List.forall_mem_cons.2
      ⟨typeArg_has he hrank (fun t ht => ?_) ha, ih (fun t ht => ?_) has⟩
    · exact hargs t (ht ▸ List.mem_cons_self)
    · exact hargs t (List.mem_cons_of_mem arg ht)

/-! ### Rankings -/

theorem rankSiteWith_within (he : e.Within P) (hrank : RanksWithin P rank) {site : CallSite}
    (hsite : site.Within P) {res : Resolution}
    (h : (e.rankSiteWith rank site).run s = .ok (.ok res, t)) :
    ∀ k ∈ res.candidates, k.substitution.Within P := by
  obtain ⟨as, u, has, hcandidates⟩ := ranked_of_rankSiteWith h
  intro k hk
  obtain ⟨hranked, method, hmethod⟩ := hcandidates k hk
  obtain ⟨v, w, hσ⟩ := hranked.substituted method hmethod
  exact candidateSubstitution_within he hrank hsite (he.methods hmethod)
    (typeArgs_have he hrank hsite.args has) hσ

theorem Within.ranksWithin (he : e.Within P) (n : Nat) : RanksWithin P (e.rankWithin n) := by
  induction n with
  | zero =>
    intro call s res t h
    cases h
  | succ n ih =>
    intro call s res t h
    rw [rankWithin_succ, rankKnown] at h
    cases hsite : e.calls.site? call with
    | none =>
      rw [hsite] at h
      cases h
    | some site =>
      rw [hsite] at h
      exact rankSiteWith_within he ih (he.sites hsite) h

theorem Within.rankCall (he : e.Within P) {call : CallId} {res : Resolution}
    (h : (e.rankCall call s).1 = .ok res) : ∀ k ∈ res.candidates, k.substitution.Within P := by
  have hrun := run_rankCall e call s
  rw [show e.rankCall call s = (.ok res, (e.rankCall call s).2) by rw [← h]] at hrun
  exact he.ranksWithin _ _ _ _ _ hrun

theorem Within.callType (he : e.Within P) {call : CallId} {u : Ty}
    (h : (e.callType call s).1 = some u) : P u := by
  have hrun := run_callType e call s
  rw [show e.callType call s = (some u, (e.callType call s).2) by rw [← h]] at hrun
  exact callTypeWith_has he (he.ranksWithin _) hrun

end Engine

end GenericCalls

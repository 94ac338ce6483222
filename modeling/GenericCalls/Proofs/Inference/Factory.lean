import GenericCalls.Proofs.Assignable.Captured
import GenericCalls.Proofs.Inference.Answers
import GenericCalls.Proofs.Match.Parameters
import GenericCalls.Proofs.Ranking.Nesting
import GenericCalls.Proofs.Store.Views

/-! # Generic factories

A generic factory takes no arguments and returns a class applied to its type parameters, so that the
type of a call follows from what is expected of it alone. The returned type is seen at the expected
class before its parameters are inferred, and the type of the call is seen there again when it is
assigned. Both searches take the same way, so the expected type accepts the type of the call. -/

namespace GenericCalls

/-! ### The view of a filled type -/

namespace Store

variable {s : Store} {ps : List ParamId} {fill : List Ty}

/-- Where a type argument of the first class type is one of the parameters `ps`, the second has a
type in its place that stands for it in `fill`; or the second is raw. -/
def Filled (ps : List ParamId) (fill : List Ty) (c c' : ClassTy) : Prop :=
  c.id = c'.id ∧ (c'.args = [] ∨
    List.Forall₂ (fun t t' => ∀ p ∈ ps, t = .param p → (p, t') ∈ ps.zip fill) c.args c'.args)

/-- Supertypes are filled alike, unless one of the parameters is written into a declared one. -/
theorem passing_filled (fill : List Ty)
    (hscope : ∀ c d, s.class? c = some d → ∀ t ∈ d.supertypes, ∀ u ∈ t.args, ∀ p ∈ ps,
      u.isParam p = false) :
    Passing s (Filled ps fill) := by
  refine .of_superWith (fun h => h.1) ?_
  rintro ⟨c, args⟩ ⟨_, args'⟩ d ⟨rfl, hargs⟩ hd t ht
  refine ⟨?_, ?_⟩
  · rw [superWith_id, superWith_id]
  by_cases hbare : args' = [] ∨ args'.length ≠ d.params.length
  · rw [superWith_of_bare t hbare]
    exact .inl rfl
  · rw [not_or, Classical.not_not] at hbare
    have hargs := hargs.resolve_left hbare.1
    have hlength : args.length = args'.length := hargs.length_eq
    have hne : args ≠ [] := fun hnil => hbare.1 (by simpa [hnil] using hlength.symm)
    obtain ⟨us, hus, _, hsuper⟩ := superWith_of_args t hne (hlength.trans hbare.2)
    obtain ⟨us', hus', _, hsuper'⟩ := superWith_of_args t hbare.1 hbare.2
    dsimp only
    rw [hsuper, hsuper']
    refine .inr (Substitution.forall₂_applyAll hus hus' fun u hu v v' hv hv' p hp hvp => ?_)
    -- The parameter was put in for a parameter of the class: it is not written there.
    subst hvp
    obtain ⟨q, rfl, hq | ⟨_, rfl⟩⟩ := Substitution.apply_eq_param hv
    · have hrelated := Substitution.get?_ofArgs_related hargs d.params q
      rw [hq] at hrelated
      cases hq' : (Substitution.ofArgs d.params args').get? q with
      | none =>
        rw [hq'] at hrelated
        cases hrelated
      | some b =>
        rw [hq'] at hrelated
        cases hrelated with
        | some hrelated =>
          obtain ⟨t, t', ht, rfl, hfill⟩ := hrelated
          cases ht
          rw [Substitution.apply, hq'] at hv'
          cases hv'
          exact hfill p hp rfl
    · have hforeign := hscope c d hd t ht _ hu _ hp
      rw [Ty.isParam, beq_self_eq_true] at hforeign
      cases hforeign

theorem filled_self {c : ClassId} (h : fill = [] ∨ fill.length = ps.length) :
    Filled ps fill ⟨c, ps.map .param⟩ ⟨c, fill⟩ := by
  refine ⟨rfl, h.imp_right fun hlength => ?_⟩
  rw [List.forall₂_map_left_iff, List.forall₂_iff_zip]
  refine ⟨hlength.symm, fun {p u} hmem q _ hpq => ?_⟩
  cases hpq
  exact hmem

/-- Where a class applied to the parameters `ps` is seen with the parameters `qs`, it is seen with
what they stand for once they are filled, or raw. -/
theorem exists_view_of_filled {c d : ClassId} {qs : List ParamId}
    (hscope : ∀ c d, s.class? c = some d → ∀ t ∈ d.supertypes, ∀ u ∈ t.args, ∀ p ∈ ps,
      u.isParam p = false)
    (hview : s.ancestorArgs ⟨c, ps.map .param⟩ d = some (qs.map .param))
    (h : fill = [] ∨ fill.length = ps.length) :
    ∃ lifted, s.ancestorArgs ⟨c, fill⟩ d = some lifted ∧
      (lifted = [] ∨ ∀ q u, (q, u) ∈ qs.zip lifted → q ∈ ps → (q, u) ∈ ps.zip fill) := by
  have hviews := (passing_filled fill hscope).ancestorArgs (filled_self (c := c) h) d
  rw [hview] at hviews
  cases hlifted : s.ancestorArgs ⟨c, fill⟩ d with
  | none =>
    rw [hlifted] at hviews
    cases hviews
  | some lifted =>
    rw [hlifted] at hviews
    cases hviews with
    | some hviews =>
      refine ⟨lifted, rfl, ?_⟩
      rcases hviews with ⟨_, hraw⟩ | ⟨_, hraw | hplaces⟩
      · exact .inl hraw
      · exact .inl hraw
      · rw [List.forall₂_map_left_iff, List.forall₂_iff_zip] at hplaces
        exact .inr fun q u hmem hq => hplaces.2 hmem q hq rfl

end Store

/-! ### What is expected -/

/-- A type that is expected of a type argument: neither `null` nor unknown nor captured, not a
wildcard around what is unknown, and without any of the parameters `ps`. -/
structure Ty.Expected (ps : List ParamId) (t : Ty) : Prop where
  notNull : t ≠ .null
  known : t ≠ .unknown
  notCaptured : ∀ i k b, t ≠ .captured i k b
  knownBound : ∀ k, t ≠ .wild k (some .unknown)
  foreign : ∀ p ∈ ps, t.mentions p = false

theorem Ty.Expected.reopen {ps : List ParamId} {t : Ty} (h : t.Expected ps) : t.reopen = t := by
  cases t with
  | captured i k b => exact absurd rfl (h.notCaptured i k b)
  | _ => rfl

theorem Ty.Expected.informative {ps : List ParamId} {t : Ty} (h : t.Expected ps) :
    (t.isNull || t.isUnknown) = false := by
  cases t with
  | null => exact absurd rfl h.notNull
  | unknown => exact absurd rfl h.known
  | _ => rfl

namespace Engine
open Run

/-- A method without formals that returns a class applied to the type parameters of the method. -/
structure IsFactory (s : Store) (m : MethodId) (method : MethodDecl) (c : ClassId) : Prop where
  declared : s.method? m = some method
  owned : ∀ p ∈ method.typeParams, (s.param? p).map ParamDecl.owner = some (.method m)
  formals : method.formals = []
  returns : method.returns = .cls c (method.typeParams.map .param)

/-- A call without arguments of the method `m` alone, where `expected` is the type of a variable, of
the target of an assignment, or of what is returned. -/
structure IsFactoryCall (e : Engine) (call : CallId) (site : CallSite) (m : MethodId)
    (method : MethodDecl) (expected : Ty) : Prop where
  known : e.calls.site? call = some site
  id_eq : site.id = call
  kind : site.kind = .method
  candidates : site.candidates = [m]
  accessible : e.access method site.caller = true
  args : site.args = []
  typeArgs : site.typeArgs = []
  context : site.context = .initial expected ∨ site.context = .assignment expected ∨
    site.context = .returned (some expected)

variable {e : Engine} {m : MethodId} {method : MethodDecl} {c d : ClassId} {site : CallSite}
  {call : CallId} {es : List Ty} {qs : List ParamId} {rank : CallId → Run Ranked} {s : Session}

def factoryRequest (site : CallSite) (method : MethodDecl) : Request :=
  .ofMethod method [] site.given (some site.id)

/-! ### Verdicts -/

theorem run_judge_factory {t : Ty} (hm : IsFactory e.store m method c)
    (hcall : IsFactoryCall e call site m method t) {p : ParamId} (hp : p ∈ method.typeParams) :
    (e.judge rank (factoryRequest site method) p).run s =
      .ok (settleOpen none (some (e.fromExpected p (factoryRequest site method) (some t))), s) := by
  have hsite : e.contextSite? p (factoryRequest site method) = some site := by
    unfold contextSite?
    rw [hm.owned p hp]
    have hknown : e.calls.site? site.id = some site := by
      rw [hcall.id_eq, hcall.known]
    simp only [factoryRequest, Request.ofMethod, Option.bind_some, hknown, Option.filter_some,
      hcall.kind, beq_self_eq_true, if_true]
  have hcontext : e.fromContext? rank p (factoryRequest site method) =
      return some (e.fromExpected p (factoryRequest site method) (some t)) := by
    have hid : (factoryRequest site method).call = some site.id := rfl
    unfold fromContext?
    simp only [hid, hsite]
    rcases hcall.context with h | h | h <;> simp only [h]
  unfold judge
  rw [run_bind_of_ok (a := s) (t := s) rfl]
  show (do return settleOpen none (← e.fromContext? rank p (factoryRequest site method))).run s = _
  rw [hcontext]
  rfl

theorem fromExpected_factory (hstrict : e.options.mode = .strict)
    (hm : IsFactory e.store m method c)
    (hview : e.store.ancestorArgs ⟨c, method.typeParams.map .param⟩ d = some (qs.map .param))
    (hdistinct : qs.Nodup) (hlength : qs.length = es.length) {q : ParamId} {t : Ty}
    (hmem : (q, t) ∈ qs.zip es) (ht : t.Expected method.typeParams)
    (hstated : ∀ k, t ≠ .wild k none) :
    e.fromExpected q (factoryRequest site method) (some (.cls d es)) = ⟨t, .exactly⟩ := by
  have honce : qs.count q = 1 := List.count_eq_one_of_mem hdistinct (List.of_mem_zip hmem).1
  have hmatch : e.store.constrain q .intoContext method.returns (.cls d es) =
      .found ⟨t, .exactly⟩ := by
    rw [hm.returns]
    unfold Store.constrain
    simp only [Store.box?, Store.constrainClass, hview]
    rw [Store.matchTypes_params hlength honce hmem hstated ht.informative, ht.reopen]
  have hbest : e.options.isBestEffort = false := by
    unfold Options.isBestEffort
    rw [hstrict]
    rfl
  have hmethod : (factoryRequest site method).method = method := rfl
  have hreturns : method.returns.isParam q = false := by
    rw [hm.returns]
    rfl
  unfold fromExpected refine
  simp only [hmethod, Option.getD_some, hmatch, hbest, hreturns, Bool.false_and,
    Bool.false_eq_true, if_false]

/-! ### The substitution -/

/-- Each parameter in `qs` is erased or stands for the type in its place, unless that is `?`. -/
def Supplies (qs : List ParamId) (es : List Ty) (σ : Substitution) : Prop :=
  ∀ q t, (q, t) ∈ qs.zip es → (∀ k, t ≠ .wild k none) → σ.Gives q t

theorem run_candidateSubstitution_factory (rank : CallId → Run Ranked) (s : Session)
    (hstrict : e.options.mode = .strict)
    (hm : IsFactory e.store m method c)
    (hcall : IsFactoryCall e call site m method (.cls d es))
    (hview : e.store.ancestorArgs ⟨c, method.typeParams.map .param⟩ d = some (qs.map .param))
    (hqs : ∀ q ∈ qs, q ∈ method.typeParams) (hdistinct : qs.Nodup)
    (hlength : qs.length = es.length) (hes : ∀ t ∈ es, t.Expected method.typeParams) :
    ∃ σ, (e.candidateSubstitution rank site method []).run s = .ok (σ, s) ∧ Supplies qs es σ := by
  unfold candidateSubstitution
  split
  · rename_i hnone
    refine ⟨site.given, rfl, fun q t hmem => ?_⟩
    have hq := hqs q (List.of_mem_zip hmem).1
    rw [List.isEmpty_iff.1 hnone] at hq
    cases hq
  · rw [if_pos (by rw [hcall.typeArgs]; rfl)]
    let r := factoryRequest site method
    let V (p : ParamId) := settleOpen none (some (e.fromExpected p r (some (.cls d es))))
    have hjudge : (e.judgeAll rank r r.typeParams).run s = .ok (r.typeParams.map V, s) :=
      run_judgeAll fun p hp => run_judge_factory hm hcall hp
    refine ⟨conclude e.store r (r.typeParams.map V), ?_, fun q t hmem hstated => ?_⟩
    · show (e.inferWith rank r).run s = _
      unfold inferWith
      rw [run_bind_of_ok hjudge]
      rfl
    · obtain ⟨hq, ht⟩ := List.of_mem_zip hmem
      have hverdict : V q = .resolved ⟨t, .exactly⟩ := by
        show settleOpen none (some (e.fromExpected q r (some (.cls d es)))) = _
        rw [fromExpected_factory hstrict hm hview hdistinct hlength hmem (hes t ht) hstated]
        rfl
      refine conclude_gives e.store r (List.length_map _) (hqs q hq)
        ((hes t ht).foreign q (hqs q hq)) fun v hv => ?_
      obtain ⟨i, hi, hvi⟩ := mem_zip_iff.1 hv
      rw [List.getElem?_map, hi, Option.map_some, Option.some_inj] at hvi
      rw [← hvi, hverdict]
      rfl

/-! ### The type of the call -/

theorem uniqueBest?_single {id : CallId} {cand : Candidate} (hphase : cand.phase = .exact)
    (haccess : cand.accessible = true) :
    (Resolution.mk id (sortByTier [cand])).uniqueBest? = some cand := by
  obtain ⟨m, σ, phase, accessible⟩ := cand
  cases hphase
  cases haccess
  rfl

theorem run_rankSiteWith_factory {σ : Substitution} (hm : IsFactory e.store m method c)
    {t : Ty} (hcall : IsFactoryCall e call site m method t)
    (hσ : (e.candidateSubstitution rank site method []).run s = .ok (σ, s)) :
    (e.rankSiteWith rank site).run s =
      .ok (.ok ⟨site.id, sortByTier [⟨m, σ, .exact, true⟩]⟩, s) := by
  have hphase : phaseOf e.store method σ [] = .exact := by
    unfold phaseOf
    rw [hm.formals]
    rfl
  have hcandidate : (e.rankCandidate rank site [] m method).run s =
      .ok (⟨m, σ, .exact, true⟩, s) := by
    unfold rankCandidate
    rw [run_bind_of_ok hσ, hphase, hcall.accessible]
    rfl
  unfold rankSiteWith
  rw [hcall.args, hcall.candidates, run_bind_of_ok (a := []) (t := s) rfl]
  unfold rankCandidates
  simp only [hm.declared]
  rw [run_bind_of_ok (a := .ok [⟨m, σ, .exact, true⟩]) (t := s)]
  · rfl
  · rw [run_bind_of_ok hcandidate]
    rfl

/-- A call of a factory has the returned type, with the parameters replaced and the wildcards
captured. -/
theorem callType_factory (hstrict : e.options.mode = .strict) (hm : IsFactory e.store m method c)
    (hcall : IsFactoryCall e call site m method (.cls d es))
    (henter : (s.guard.evaluating.enter call).1 = .entered)
    (hview : e.store.ancestorArgs ⟨c, method.typeParams.map .param⟩ d = some (qs.map .param))
    (hqs : ∀ q ∈ qs, q ∈ method.typeParams) (hdistinct : qs.Nodup)
    (hlength : qs.length = es.length) (hes : ∀ t ∈ es, t.Expected method.typeParams) :
    ∃ σ args fill, Supplies qs es σ ∧
      σ.substitute (.cls c (method.typeParams.map .param)) = some (.cls c args) ∧
      List.Forall₂ Ty.Captures args fill ∧ (e.callType call s).1 = some (.cls c fill) := by
  obtain ⟨g, henter⟩ : ∃ g, s.guard.evaluating.enter call = (.entered, g) :=
    ⟨_, Prod.ext henter rfl⟩
  obtain ⟨n, hn⟩ : ∃ n, s.nesting = n + 1 := ⟨_, (Nat.sub_add_cancel (one_le_nesting s)).symm⟩
  let inside : Session := { s with guard := { s.guard with evaluating := g } }
  obtain ⟨σ, hσ, hsupplies⟩ := run_candidateSubstitution_factory (e.rankWithin n) inside hstrict
    hm hcall hview hqs hdistinct hlength hes
  obtain ⟨args, hargs, _⟩ := Substitution.substitute_params σ c method.typeParams
  have hrank : (e.rankWithin (n + 1) call).run inside =
      .ok (.ok ⟨site.id, sortByTier [⟨m, σ, .exact, true⟩]⟩, inside) := by
    unfold rankWithin
    simp only [hcall.known]
    exact run_rankSiteWith_factory hm hcall hσ
  have hevaluating := run_evaluating_entered henter hrank (RecursionGuard.leave?_enter henter)
  have hinstantiate : instantiate e.store σ method.returns = .cls c args := by
    unfold instantiate
    rw [hm.returns, hargs]
    rfl
  refine ⟨σ, args, (s.captureArgs args).1, hsupplies, hargs, s.captureArgs_captures args, ?_⟩
  have hrun : (e.callTypeWith (e.rankWithin s.nesting) call).run s =
      .ok (some (.cls c (s.captureArgs args).1), (s.captureArgs args).2) := by
    unfold callTypeWith
    rw [hn, run_bind_of_ok hevaluating]
    unfold typeOfRanked
    simp only [uniqueBest?_single, hm.declared, hinstantiate]
    rfl
  unfold callType
  rw [settle_eq none hrun]

theorem fallsUnder_supplied {σ : Substitution} {ps : List ParamId} {fill : List Ty}
    (hsupplies : Supplies qs es σ)
    (hcaptures : List.Forall₂ Ty.Captures (ps.map σ.valueOf) fill)
    (hbound : ∀ p ∈ ps, σ.get? p ≠ some .erased) {q : ParamId} {t u : Ty}
    (hmem : (q, t) ∈ qs.zip es) (hfill : (q, u) ∈ ps.zip fill)
    (hknown : ∀ k, t ≠ .wild k (some .unknown)) : e.store.FallsUnder t u := by
  by_cases hstated : ∀ k, t ≠ .wild k none
  · rw [List.forall₂_map_left_iff, List.forall₂_iff_zip] at hcaptures
    have hcapture : (σ.valueOf q).Captures u := hcaptures.2 hfill
    rcases hsupplies q t hmem hstated with herased | hget
    · exact absurd herased (hbound q (List.of_mem_zip hfill).1)
    · rw [Substitution.valueOf_of_get? hget] at hcapture
      exact Store.fallsUnder_of_captures hcapture hknown
  · obtain ⟨k, hk⟩ := Classical.not_forall.1 hstated
    rw [Classical.not_not.1 hk]
    exact Store.fallsUnder_anything k u

/-- In strict mode, the type that is expected of a call of a generic factory accepts the type that
the call is found to have. -/
theorem assignable_callType_factory (e : Engine) (s : Session) {m : MethodId} {method : MethodDecl}
    {c d : ClassId} {call : CallId} {site : CallSite} {qs : List ParamId} {es : List Ty}
    (hstrict : e.options.mode = .strict) (hm : IsFactory e.store m method c)
    (hcall : IsFactoryCall e call site m method (.cls d es))
    (henter : (s.guard.evaluating.enter call).1 = .entered)
    (hview : e.store.ancestorArgs ⟨c, method.typeParams.map .param⟩ d = some (qs.map .param))
    (hqs : ∀ q ∈ qs, q ∈ method.typeParams) (hdistinct : qs.Nodup)
    (hlength : qs.length = es.length) (hes : ∀ t ∈ es, t.Expected method.typeParams)
    (hscope : ∀ c d, e.store.class? c = some d → ∀ t ∈ d.supertypes, ∀ u ∈ t.args,
      ∀ p ∈ method.typeParams, u.isParam p = false) :
    ∃ t, (e.callType call s).1 = some t ∧ e.store.assignable (.cls d es) t = true := by
  obtain ⟨σ, args, fill, hsupplies, hargs, hcaptures, htype⟩ :=
    callType_factory hstrict hm hcall henter hview hqs hdistinct hlength hes
  refine ⟨.cls c fill, htype, ?_⟩
  obtain ⟨args', hargs', hvalues⟩ := Substitution.substitute_params σ c method.typeParams
  cases hargs.symm.trans hargs'
  have hfill : fill = [] ∨ fill.length = method.typeParams.length := by
    rcases hvalues with rfl | ⟨rfl, _⟩
    · cases hcaptures
      exact .inl rfl
    · rw [← hcaptures.length_eq, List.length_map]
      exact .inr rfl
  obtain ⟨lifted, hlifted, hraw | hplaces⟩ := Store.exists_view_of_filled hscope hview hfill
  · exact Store.assignableWithin_of_raw _ hlifted (.inr (.inl hraw))
  · refine Store.assignableWithin_of_fallsUnder _ hlifted fun p hp => ?_
    obtain ⟨t, u⟩ := p
    obtain ⟨i, ht, hu⟩ := mem_zip_iff.1 hp
    obtain ⟨hlt, _⟩ := List.getElem?_eq_some_iff.1 ht
    have hq : qs[i]? = some qs[i] := List.getElem?_eq_getElem (hlength ▸ hlt)
    have hmem : (qs[i], t) ∈ qs.zip es := mem_zip_iff.2 ⟨i, hq, ht⟩
    have hplace := hplaces _ u (mem_zip_iff.2 ⟨i, hq, hu⟩) (hqs _ (List.of_mem_zip hmem).1)
    rcases hvalues with rfl | ⟨rfl, hbound⟩
    · cases hcaptures
      rw [List.zip_nil_right] at hplace
      cases hplace
    · exact fallsUnder_supplied hsupplies hcaptures hbound hmem hplace
        (hes t (List.mem_of_getElem? ht)).knownBound

/-- The engine that knows lists, a method `of` that returns `ArrayList<T>`, and a call of it for a
variable of the type `List<? extends Number>`. -/
def listFactory : Engine :=
  let (s, m) := Store.lists.declareMethod "of" .method none
  let (s, t) := s.declareParam "T" (.method m)
  let s := s.setSignature m [] (.cls 16 [.param t]) false
  let call : CallSite :=
    { id := 0, candidates := [m], context := .initial (.cls 13 [Ty.extending (.raw 2)]) }
  { store := s, calls := CallGraph.empty.insert call }

theorem assignable_callType_listFactory :
    (listFactory.store.ancestorArgs ⟨16, [.param 19]⟩ 13).isSome = true ∧
    ∃ t, (listFactory.callType 0 {}).1 = some t ∧
      listFactory.store.assignable (.cls 13 [Ty.extending (.raw 2)]) t = true := by
  have hscope : ∀ c d, listFactory.store.class? c = some d → ∀ t ∈ d.supertypes, ∀ u ∈ t.args,
      ∀ p ∈ [19], u.isParam p = false := Store.forall_supertypes (by decide +kernel)
  have hexpected : ∀ t ∈ [Ty.extending (.raw 2)], t.Expected [19] := by
    intro t ht
    rw [List.mem_singleton.1 ht]
    exact ⟨nofun, nofun, nofun, nofun, by decide⟩
  have hm : IsFactory listFactory.store 18 _ 16 := ⟨rfl, by decide, rfl, rfl⟩
  have hview : listFactory.store.ancestorArgs ⟨16, [.param 19]⟩ 13 = some ([19].map Ty.param) := rfl
  exact ⟨rfl, assignable_callType_factory listFactory {} rfl hm
    ⟨rfl, rfl, rfl, rfl, rfl, rfl, rfl, .inl rfl⟩ rfl hview (by decide) (by decide) rfl hexpected
    hscope⟩

/-- An engine with `List<E>`, `D<X>`, a method `of` that returns `List<T>`, and a class `C<Y>` that
extends `D<U>` where `U` belongs to the method `make`, which returns `C<U>`. One call of `of` is
expected to return a list of what is not known, and one has an argument; a call of `make` is
expected to return `D<String>`. -/
def oddFactories : Engine :=
  let (s, list) := Store.standard.declareClass "List" .interface
  let (s, _) := s.declareParam "E" (.cls list)
  let (s, d) := s.declareClass "D" .interface
  let (s, _) := s.declareParam "X" (.cls d)
  let (s, c) := s.declareClass "C" .concrete
  let (s, _) := s.declareParam "Y" (.cls c)
  let (s, of) := s.declareMethod "of" .method none
  let (s, t) := s.declareParam "T" (.method of)
  let s := s.setSignature of [] (.cls list [.param t]) false
  let (s, make) := s.declareMethod "make" .method none
  let (s, u) := s.declareParam "U" (.method make)
  let s := s.setSignature make [] (.cls c [.param u]) false
  let s := s.addSupertype c ⟨d, [.param u]⟩
  let unknowns : CallSite :=
    { id := 0, candidates := [of], context := .initial (.cls list [Ty.extending .unknown]) }
  let made : CallSite := { id := 1, candidates := [make], context := .initial (.cls d [.raw 4]) }
  let applied : CallSite :=
    { id := 2, candidates := [of], args := [.known (some (.raw 4))],
      context := .initial (.cls list [.raw 4]) }
  { store := s, calls := ((CallGraph.empty.insert unknowns).insert made).insert applied }

/-- The type of a call is not accepted where the expected one is a wildcard around what is not
known, or where a supertype has the parameter of the factory written in it; and a call with
arguments has no type. -/
theorem factory_call_not_accepted :
    ((∃ site method, IsFactory oddFactories.store 19 method 13 ∧
        IsFactoryCall oddFactories 0 site 19 method (.cls 13 [Ty.extending .unknown])) ∧
      oddFactories.store.ancestorArgs ⟨13, [.param 20]⟩ 13 = some [.param 20] ∧
      ∃ t, (oddFactories.callType 0 {}).1 = some t ∧
        oddFactories.store.assignable (.cls 13 [Ty.extending .unknown]) t = false) ∧
    ((∃ site method, IsFactory oddFactories.store 21 method 17 ∧
        IsFactoryCall oddFactories 1 site 21 method (.cls 15 [.raw 4])) ∧
      oddFactories.store.ancestorArgs ⟨17, [.param 22]⟩ 15 = some [.param 22] ∧
      ∃ t, (oddFactories.callType 1 {}).1 = some t ∧
        oddFactories.store.assignable (.cls 15 [.raw 4]) t = false) ∧
    (∃ method, IsFactory oddFactories.store 19 method 13) ∧
      (oddFactories.callType 2 {}).1 = none := by
  have hof : IsFactory oddFactories.store 19 _ 13 := ⟨rfl, by decide, rfl, rfl⟩
  have hmake : IsFactory oddFactories.store 21 _ 17 := ⟨rfl, by decide, rfl, rfl⟩
  exact ⟨⟨⟨_, _, hof, rfl, rfl, rfl, rfl, rfl, rfl, rfl, .inl rfl⟩, rfl, _, rfl, rfl⟩,
    ⟨⟨_, _, hmake, rfl, rfl, rfl, rfl, rfl, rfl, rfl, .inl rfl⟩, rfl, _, rfl, rfl⟩,
    ⟨_, hof⟩, rfl⟩

end Engine

end GenericCalls

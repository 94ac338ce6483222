import GenericCalls.Proofs.Session.Balance
import GenericCalls.Ranking.Basic
import Mathlib.Data.List.Forall2

/-! # Nested rankings

Ranking a call ranks the calls nested in it and the calls that enclose it, along two ways that take
room in two guards. All steps of a ranking are followed here with two ways to rank the calls that
they meet, which concur as long as a session has little enough room. Each step then concurs with
itself, and so does the ranking of a call with one level of nesting more. By induction on the room
that is left, every ranking ends and gives back the calls in use, and neither a larger budget nor an
assertion about the calls in use changes its course. -/

namespace GenericCalls.Engine
open Run

variable {I : CallGuard → Prop} {n : Nat} {rank rank' : CallId → Run Ranked}

/-! ### Inference -/

theorem concur_fromOuterCall? (e : Engine) (hI : CallGuard.Lasting I)
    (hr : ConcurWithin I n rank rank') (p : ParamId) (inner outer : CallId) (index : Nat)
    (returns : Ty) {s : Session} (hs : s.Ready I n) :
    Concur (e.fromOuterCall? rank p inner outer index returns)
      (e.fromOuterCall? rank' p inner outer index returns) s := by
  unfold fromOuterCall?
  refine concur_bind (concur_consulting hI hr outer inner hs) ?_
  intro ranked t _
  split
  · exact concur_pure _ t
  · exact concur_pure _ t

theorem concur_fromContext? (e : Engine) (hI : CallGuard.Lasting I)
    (hr : ConcurWithin I n rank rank') (p : ParamId) (r : Request) {s : Session}
    (hs : s.Ready I n) :
    Concur (e.fromContext? rank p r) (e.fromContext? rank' p r) s := by
  unfold fromContext?
  split
  · rename_i call site _ _
    cases site.context with
    | standalone => exact concur_pure _ s
    | initial t => exact concur_pure _ s
    | assignment t => exact concur_pure _ s
    | returned t => exact concur_pure _ s
    | argument outer index =>
      by_cases hu : e.options.usesOuterContext
      · simp only [hu, if_true]
        refine concur_bind (concur_fromOuterCall? e hI hr p call outer index _ hs) ?_
        intro c t _
        cases c with
        | some c => exact concur_pure _ t
        | none => exact concur_pure _ t
      · simp only [hu]
        exact concur_pure _ s
  · exact concur_pure _ s

theorem concur_judge (e : Engine) (hI : CallGuard.Lasting I) (hr : ConcurWithin I n rank rank')
    (r : Request) (p : ParamId) {s : Session} (hs : s.Ready I n) :
    Concur (e.judge rank r p) (e.judge rank' r p) s := by
  unfold judge
  have hget : Concur (get : Run Session) get s := ⟨s, s, rfl, rfl, .refl _⟩
  refine concur_bind hget ?_
  intro a t hst
  dsimp only
  split
  · exact concur_pure _ t
  · refine concur_bind (concur_fromContext? e hI hr p r (hs.after hI hst)) ?_
    intro c u _
    exact concur_pure _ u

theorem concur_judgeAll (e : Engine) (hI : CallGuard.Lasting I) (hr : ConcurWithin I n rank rank')
    (r : Request) (ps : List ParamId) {s : Session} (hs : s.Ready I n) :
    Concur (e.judgeAll rank r ps) (e.judgeAll rank' r ps) s := by
  induction ps generalizing s with
  | nil => exact concur_pure _ s
  | cons p ps ih =>
    unfold judgeAll
    refine concur_bind (concur_judge e hI hr r p hs) ?_
    intro v t hst
    refine concur_bind (ih (hs.after hI hst)) ?_
    intro vs u _
    exact concur_pure _ u

theorem concur_inferWith (e : Engine) (hI : CallGuard.Lasting I) (hr : ConcurWithin I n rank rank')
    (r : Request) {s : Session} (hs : s.Ready I n) :
    Concur (e.inferWith rank r) (e.inferWith rank' r) s := by
  unfold inferWith
  refine concur_bind (concur_judgeAll e hI hr r _ hs) ?_
  intro vs t _
  exact concur_pure _ t

/-! ### Typing arguments -/

theorem concur_typeOfRanked (e : Engine) (ranked : Ranked) (s : Session) :
    Concur (e.typeOfRanked ranked) (e.typeOfRanked ranked) s := by
  unfold typeOfRanked
  split
  · exact concur_pure _ s
  · split
    · exact concur_pure _ s
    · split
      · exact concur_pure _ s
      · refine concur_bind (concur_capture _ s) ?_
        intro t u _
        exact concur_pure _ u

theorem concur_callTypeWith (e : Engine) (hI : CallGuard.Lasting I)
    (hr : ConcurWithin I n rank rank') (call : CallId) {s : Session} (hs : s.Ready I n) :
    Concur (e.callTypeWith rank call) (e.callTypeWith rank' call) s := by
  unfold callTypeWith
  refine concur_bind (concur_evaluating hI hr call hs) ?_
  intro ranked t _
  cases ranked with
  | none => exact concur_pure _ t
  | some ranked => exact concur_typeOfRanked e ranked t

theorem concur_typeArg (e : Engine) (hI : CallGuard.Lasting I) (hr : ConcurWithin I n rank rank')
    (a : Argument) {s : Session} (hs : s.Ready I n) :
    Concur (e.typeArg rank a) (e.typeArg rank' a) s := by
  cases a with
  | known ty =>
    cases ty with
    | none => exact concur_pure _ s
    | some t =>
      refine concur_bind (concur_capture t s) ?_
      intro c u _
      exact concur_pure _ u
  | call c =>
    refine concur_bind (concur_isBlocked c s) ?_
    intro b t hst
    cases b with
    | true => exact concur_pure _ t
    | false =>
      refine concur_bind (concur_callTypeWith e hI hr c (hs.after hI hst)) ?_
      intro ty u _
      exact concur_pure _ u

theorem concur_typeArgs (e : Engine) (hI : CallGuard.Lasting I) (hr : ConcurWithin I n rank rank')
    (args : List Argument) {s : Session} (hs : s.Ready I n) :
    Concur (e.typeArgs rank args) (e.typeArgs rank' args) s := by
  induction args generalizing s with
  | nil => exact concur_pure _ s
  | cons a rest ih =>
    unfold typeArgs
    refine concur_bind (concur_typeArg e hI hr a hs) ?_
    intro t u hst
    refine concur_bind (ih (hs.after hI hst)) ?_
    intro ts v _
    exact concur_pure _ v

/-! ### Ranking -/

theorem concur_candidateSubstitution (e : Engine) (hI : CallGuard.Lasting I)
    (hr : ConcurWithin I n rank rank') (site : CallSite) (method : MethodDecl)
    (args : List TypedArg) {s : Session} (hs : s.Ready I n) :
    Concur (e.candidateSubstitution rank site method args)
      (e.candidateSubstitution rank' site method args) s := by
  unfold candidateSubstitution
  split
  · exact concur_pure _ s
  · split
    · exact concur_inferWith e hI hr _ hs
    · split
      · exact concur_pure _ s
      · exact concur_pure _ s

theorem concur_rankCandidates (e : Engine) (hI : CallGuard.Lasting I)
    (hr : ConcurWithin I n rank rank') (site : CallSite) (args : List TypedArg)
    (ids : List MethodId) {s : Session} (hs : s.Ready I n) :
    Concur (e.rankCandidates rank site args ids) (e.rankCandidates rank' site args ids) s := by
  induction ids generalizing s with
  | nil => exact concur_pure _ s
  | cons id rest ih =>
    unfold rankCandidates
    cases e.store.method? id with
    | none => exact concur_pure _ s
    | some method =>
      have hc : Concur (e.rankCandidate rank site args id method)
          (e.rankCandidate rank' site args id method) s := by
        unfold rankCandidate
        refine concur_bind (concur_candidateSubstitution e hI hr site method args hs) ?_
        intro σ t _
        exact concur_pure _ t
      refine concur_bind hc ?_
      intro c t hst
      refine concur_bind (ih (hs.after hI hst)) ?_
      intro cs u _
      cases cs with
      | ok cs => exact concur_pure _ u
      | error err => exact concur_pure _ u

theorem concur_rankSiteWith (e : Engine) (hI : CallGuard.Lasting I)
    (hr : ConcurWithin I n rank rank') (site : CallSite) {s : Session} (hs : s.Ready I n) :
    Concur (e.rankSiteWith rank site) (e.rankSiteWith rank' site) s := by
  unfold rankSiteWith
  refine concur_bind (concur_typeArgs e hI hr site.args hs) ?_
  intro args t hst
  refine concur_bind (concur_rankCandidates e hI hr site args _ (hs.after hI hst)) ?_
  intro cs u _
  cases cs with
  | ok cs => exact concur_pure _ u
  | error err => exact concur_pure _ u

/-- Ranks the candidates of a call, where `rank` ranks the calls that it meets. -/
def rankKnown (e : Engine) (rank : CallId → Run Ranked) (call : CallId) : Run Ranked :=
  match e.calls.site? call with
  | none => return .error (.unknownCall call)
  | some site => e.rankSiteWith rank site

theorem rankWithin_succ (e : Engine) (n : Nat) (call : CallId) :
    e.rankWithin (n + 1) call = e.rankKnown (e.rankWithin n) call := rfl

theorem concur_rankKnown (e : Engine) (hI : CallGuard.Lasting I) (hr : ConcurWithin I n rank rank')
    (call : CallId) {s : Session} (hs : s.Ready I n) :
    Concur (e.rankKnown rank call) (e.rankKnown rank' call) s := by
  unfold rankKnown
  cases e.calls.site? call with
  | none => exact concur_pure _ s
  | some site => exact concur_rankSiteWith e hI hr site hs

/-- Ranks the candidates of a call like `rankWithin`, but asserts the property `I` of the calls in
use wherever a ranking starts, nested ones included: where `I` does not hold, it is at fault. -/
def rankAsserting (e : Engine) (I : CallGuard → Prop) [DecidablePred I] : Nat → CallId → Run Ranked
  | 0, _ => throw .nestedTooDeep
  | n + 1, call => do
    if I (← get).guard then
      e.rankKnown (e.rankAsserting I n) call
    else throw (.leftUnentered call)

theorem run_rankAsserting (e : Engine) [DecidablePred I] (k : Nat) (call : CallId) {s : Session}
    (hs : I s.guard) : (e.rankAsserting I (k + 1) call).run s =
      (e.rankKnown (e.rankAsserting I k) call).run s := by
  conv => lhs; unfold rankAsserting
  rw [run_bind_of_ok (a := s) (t := s) rfl, if_pos hs]

theorem one_le_nesting (s : Session) : 1 ≤ s.nesting := by
  unfold Session.nesting
  omega

theorem concur_rankWithin (e : Engine) [DecidablePred I] (hI : CallGuard.Lasting I) {m k : Nat}
    (hm : n ≤ m) (hk : n ≤ k) : ConcurWithin I n (e.rankWithin m) (e.rankAsserting I k) := by
  -- the room of the session is what shrinks: every nested ranking starts with a call let in
  induction n generalizing m k with
  | zero =>
    intro call s _ hn
    have := one_le_nesting s
    omega
  | succ n ih =>
    intro call s hs hn
    obtain ⟨m, rfl⟩ : ∃ i, m = i + 1 := ⟨m - 1, by omega⟩
    obtain ⟨k, rfl⟩ : ∃ i, k = i + 1 := ⟨k - 1, by omega⟩
    have hrank := ih (m := m) (k := k) (by omega) (by omega)
    obtain ⟨a, t, h, h', hst⟩ := concur_rankKnown e hI hrank call ⟨hs, hn⟩
    refine ⟨a, t, ?_, ?_, hst⟩
    · rw [rankWithin_succ, h]
    · rw [run_rankAsserting e k call hs, h']

/-! ### Balance of the guards -/

theorem lasting_true : CallGuard.Lasting fun _ => True :=
  ⟨fun _ h => h, fun _ h => h, fun _ h => h, fun _ h => h⟩

theorem concur_rankWithin_add (e : Engine) (n k : Nat) :
    ConcurWithin (fun _ => True) n (e.rankWithin n) (e.rankWithin (n + k)) := by
  intro call s hs hn
  have hadd : n ≤ n + k := by omega
  have h := concur_rankWithin e lasting_true Nat.le.refl Nat.le.refl call s hs hn
  have h' := concur_rankWithin e lasting_true hadd Nat.le.refl call s hs hn
  obtain ⟨a, t, hrun, hrun', hst⟩ := h
  exact ⟨a, t, hrun, h'.eq.trans hrun', hst⟩

theorem ready_nesting (s : Session) : s.Ready (fun _ => True) s.nesting :=
  ⟨trivial, by omega⟩

/-- What holds of every verdict that is reached with the calls in use as they are holds of the
verdicts on all parameters: judging one may rank other calls, but leaves the same calls in use for
the next. -/
theorem forall₂_judgeAll_of_sameUse {e : Engine} {r : Request} {J : ParamId → Verdict → Prop}
    {s : Session} (hJ : ∀ p u v w, s.guard.SameUse u.guard →
      (e.judge (e.rankWithin s.nesting) r p).run u = .ok (v, w) → J p v)
    {ps : List ParamId} {u w : Session} {vs : List Verdict} (hsame : s.guard.SameUse u.guard)
    (h : (e.judgeAll (e.rankWithin s.nesting) r ps).run u = .ok (vs, w)) :
    List.Forall₂ J ps vs := by
  induction ps generalizing u vs with
  | nil =>
    cases h
    exact .nil
  | cons p ps ih =>
    obtain ⟨v, t, hv, hrest⟩ := exists_of_run_bind h
    obtain ⟨vs', t', hvs, hpure⟩ := exists_of_run_bind hrest
    cases hpure
    have hready := (ready_nesting s).after lasting_true hsame
    obtain ⟨v', t'', hrun, _, hafter⟩ := concur_judge e lasting_true
      (concur_rankWithin_add e s.nesting 0) r p hready
    cases hv.symm.trans hrun
    exact .cons (hJ p u v _ hsame hv) (ih (hsame.trans hafter) hvs)

theorem balanced_rankCall (e : Engine) (s : Session) (k : Nat) (call : CallId) :
    Balanced (e.rankWithin (s.nesting + k) call) s (e.rankCall call s) :=
  balanced_settle _ (concur_rankWithin_add e s.nesting k call s trivial Nat.le.refl)

theorem balanced_rankSite (e : Engine) (s : Session) (k : Nat) (site : CallSite) :
    Balanced (e.rankSiteWith (e.rankWithin (s.nesting + k)) site) s (e.rankSite site s) := by
  have hrank := concur_rankWithin_add e s.nesting k
  exact balanced_settle _ (concur_rankSiteWith e lasting_true hrank site (ready_nesting s))

theorem balanced_callType (e : Engine) (s : Session) (k : Nat) (call : CallId) :
    Balanced (e.callTypeWith (e.rankWithin (s.nesting + k)) call) s (e.callType call s) := by
  have hrank := concur_rankWithin_add e s.nesting k
  exact balanced_settle _ (concur_callTypeWith e lasting_true hrank call (ready_nesting s))

theorem balanced_infer (e : Engine) (s : Session) (k : Nat) (r : Request) :
    Balanced (e.inferWith (e.rankWithin (s.nesting + k)) r) s (e.infer r s) := by
  have hrank := concur_rankWithin_add e s.nesting k
  exact balanced_settle _ (concur_inferWith e lasting_true hrank r (ready_nesting s))

theorem balanced_inferParam (e : Engine) (s : Session) (k : Nat) (r : Request) (p : ParamId) :
    ∃ v, Balanced (e.judge (e.rankWithin (s.nesting + k)) r p) s
      (v, (e.inferParam r p s).2) ∧ (e.inferParam r p s).1 = v.ty? := by
  have hrank := concur_rankWithin_add e s.nesting k
  have h := balanced_settle .unresolved (concur_judge e lasting_true hrank r p (ready_nesting s))
  exact ⟨_, h, rfl⟩

theorem run_rankCall (e : Engine) (call : CallId) (s : Session) :
    (e.rankWithin s.nesting call).run s = .ok (e.rankCall call s) :=
  (balanced_rankCall e s 0 call).ends

theorem run_rankSite (e : Engine) (site : CallSite) (s : Session) :
    (e.rankSiteWith (e.rankWithin s.nesting) site).run s = .ok (e.rankSite site s) :=
  (balanced_rankSite e s 0 site).ends

theorem run_of_rankSite {e : Engine} {site : CallSite} {s : Session} {ranked : Ranked}
    (h : (e.rankSite site s).1 = ranked) :
    (e.rankSiteWith (e.rankWithin s.nesting) site).run s = .ok (ranked, (e.rankSite site s).2) := by
  rw [run_rankSite, ← h]

theorem exists_run_of_rankCall {e : Engine} {call : CallId} {s : Session} {res : Resolution}
    (h : (e.rankCall call s).1 = .ok res) :
    ∃ rank site t, e.calls.site? call = some site ∧
      (e.rankSiteWith rank site).run s = .ok (.ok res, t) := by
  obtain ⟨n, hn⟩ : ∃ n, s.nesting = n + 1 := ⟨s.nesting - 1, by have := one_le_nesting s; omega⟩
  have hrun := run_rankCall e call s
  have hresult : e.rankCall call s = (.ok res, (e.rankCall call s).2) := by rw [← h]
  rw [hn, rankWithin_succ, rankKnown, hresult] at hrun
  cases hsite : e.calls.site? call with
  | none =>
    rw [hsite] at hrun
    cases hrun
  | some site =>
    rw [hsite] at hrun
    exact ⟨_, site, _, rfl, hrun⟩

theorem run_callType (e : Engine) (call : CallId) (s : Session) :
    (e.callTypeWith (e.rankWithin s.nesting) call).run s = .ok (e.callType call s) :=
  (balanced_callType e s 0 call).ends

/-- Every entry point to ranking and inference ends without fault in every session, whatever budget
it has beyond the room of the session: no guard is left with a call that is not inside. The calls
blocked and the calls in both guards are then what they were, whatever the answer is, so that a
session that was idle is idle again. -/
theorem guards_balanced (e : Engine) (s : Session) (k : Nat) :
    (∀ call, Balanced (e.rankWithin (s.nesting + k) call) s (e.rankCall call s)) ∧
    (∀ site, Balanced (e.rankSiteWith (e.rankWithin (s.nesting + k)) site) s
      (e.rankSite site s)) ∧
    (∀ call, Balanced (e.callTypeWith (e.rankWithin (s.nesting + k)) call) s
      (e.callType call s)) ∧
    (∀ r, Balanced (e.inferWith (e.rankWithin (s.nesting + k)) r) s (e.infer r s) ∧
      (e.inferOutcomes r s).2 = (e.infer r s).2) ∧
    (∀ r p, ∃ v, Balanced (e.judge (e.rankWithin (s.nesting + k)) r p) s
      (v, (e.inferParam r p s).2) ∧ (e.inferParam r p s).1 = v.ty?) :=
  ⟨balanced_rankCall e s k, balanced_rankSite e s k, balanced_callType e s k,
    fun r => ⟨balanced_infer e s k r, rfl⟩, balanced_inferParam e s k⟩

/-! ### The end of nested rankings -/

theorem lasting_distinct : CallGuard.Lasting CallGuard.Distinct where
  same := by
    intro g h hgh hg
    refine ⟨?_, ?_⟩
    · rw [hgh.context.active]
      exact hg.context
    · rw [hgh.evaluating.active]
      exact hg.evaluating
  block := fun _ hg => ⟨hg.context, hg.evaluating⟩
  context := by
    intro g call h he hg
    obtain ⟨hnew, -, hactive, -, -⟩ := RecursionGuard.enter_eq_entered he
    refine ⟨?_, hg.evaluating⟩
    rw [hactive]
    exact List.nodup_cons.2 ⟨hnew, hg.context⟩
  evaluating := by
    intro g call h he hg
    obtain ⟨hnew, -, hactive, -, -⟩ := RecursionGuard.enter_eq_entered he
    refine ⟨hg.context, ?_⟩
    rw [hactive]
    exact List.nodup_cons.2 ⟨hnew, hg.evaluating⟩

theorem nesting_le_of_limits {s : Session}
    (hcontext : s.guard.context.maxDepth = Limits.enclosingCalls)
    (hevaluating : s.guard.evaluating.maxDepth = Limits.evaluatedCalls) :
    s.nesting ≤ 1 + Limits.evaluatedCalls + Limits.enclosingCalls := by
  unfold Session.nesting RecursionGuard.room
  rw [hcontext, hevaluating]
  omega

/-- On every graph of calls, rankings nest at most as deep as both guards let calls in, and one
more: a budget of that many is never overrun, and a larger one changes nothing. No ranking starts
while a call is inside one guard twice. -/
theorem rankings_end (e : Engine) (call : CallId) (s : Session) (hidle : s.guard.isIdle = true)
    (hcontext : s.guard.context.maxDepth = Limits.enclosingCalls)
    (hevaluating : s.guard.evaluating.maxDepth = Limits.evaluatedCalls) (n : Nat)
    (hn : 1 + Limits.evaluatedCalls + Limits.enclosingCalls ≤ n) :
    (e.rankWithin n call).run s = .ok (e.rankCall call s) ∧
    (e.rankAsserting CallGuard.Distinct n call).run s = .ok (e.rankCall call s) ∧
    (e.callTypeWith (e.rankWithin n) call).run s = .ok (e.callType call s) ∧
    (e.callTypeWith (e.rankAsserting CallGuard.Distinct n) call).run s =
      .ok (e.callType call s) := by
  have hle := nesting_le_of_limits hcontext hevaluating
  have hs : CallGuard.Distinct s.guard := CallGuard.distinct_of_isIdle hidle
  have hlarge : ∀ m, s.nesting ≤ m → ConcurWithin CallGuard.Distinct s.nesting (e.rankWithin m)
      (e.rankAsserting CallGuard.Distinct n) :=
    fun m hm => concur_rankWithin e lasting_distinct hm (Nat.le_trans hle hn)
  have hready : s.Ready CallGuard.Distinct s.nesting := ⟨hs, by omega⟩
  have hcall : (e.rankAsserting CallGuard.Distinct n call).run s = .ok (e.rankCall call s) :=
    (hlarge _ Nat.le.refl call s hs Nat.le.refl).run_right _
  have htype : (e.callTypeWith (e.rankAsserting CallGuard.Distinct n) call).run s =
      .ok (e.callType call s) :=
    (concur_callTypeWith e lasting_distinct (hlarge _ Nat.le.refl) call hready).run_right _
  refine ⟨?_, hcall, ?_, htype⟩
  · rw [(hlarge n (Nat.le_trans hle hn) call s hs Nat.le.refl).eq, hcall]
  · have hwithin := hlarge n (Nat.le_trans hle hn)
    have hconcur := concur_callTypeWith e lasting_distinct hwithin call hready
    rw [hconcur.eq, htype]

/-- An engine with a generic method and two calls of it, each an argument of the other and each the
context of the other. -/
def mutualCalls : Engine :=
  let (s, m) := Store.standard.declareMethod "id" .method none
  let (s, t) := s.declareParam "T" (.method m)
  let s := s.setSignature m [⟨"x", .param t⟩] (.param t) false
  let call (id other : CallId) : CallSite :=
    { id, candidates := [m], args := [.call other], context := .argument other 0 }
  { store := s, calls := (CallGraph.empty.insert (call 0 1)).insert (call 1 0) }

theorem rankings_end_mutualCalls :
    ({} : Session).guard.isIdle = true ∧
    ({} : Session).guard.context.maxDepth = Limits.enclosingCalls ∧
    ({} : Session).guard.evaluating.maxDepth = Limits.evaluatedCalls ∧
    (mutualCalls.rankWithin 85 0).run {} = .ok (mutualCalls.rankCall 0 {}) ∧
    (mutualCalls.rankAsserting CallGuard.Distinct 85 0).run {} =
      .ok (mutualCalls.rankCall 0 {}) ∧
    (mutualCalls.callTypeWith (mutualCalls.rankWithin 85) 0).run {} =
      .ok (mutualCalls.callType 0 {}) ∧
    (mutualCalls.callTypeWith (mutualCalls.rankAsserting CallGuard.Distinct 85) 0).run {} =
      .ok (mutualCalls.callType 0 {}) :=
  ⟨rfl, rfl, rfl, rankings_end mutualCalls 0 {} rfl rfl rfl 85 (by decide)⟩

end GenericCalls.Engine

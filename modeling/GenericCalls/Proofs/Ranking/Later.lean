import GenericCalls.Proofs.Inference.Shift
import GenericCalls.Proofs.Ranking.Nesting
import GenericCalls.Proofs.Session.Later

/-! # Rankings in later sessions

Requests may share a session. When neither the store nor the calls have captures in them, all
captures that inference meets are drawn by the session itself, and every step of a ranking is
carried to a later session by a shift. What was requested before in a session with no call in use
shows in the numbers of captures only. -/

namespace GenericCalls

open Ty

/-! ### Calls without captures -/

def Argument.captureFree : Argument → Bool
  | .known t => t.all Ty.captureFree
  | .call _ => true

def CallContext.captureFree : CallContext → Bool
  | .standalone => true
  | .initial t => t.captureFree
  | .assignment t => t.captureFree
  | .returned t => t.all Ty.captureFree
  | .argument _ _ => true

def Substitution.captureFree (σ : Substitution) : Bool :=
  σ.toList.all fun e => e.2.ty?.all Ty.captureFree

def CallSite.captureFree (site : CallSite) : Bool :=
  site.args.all Argument.captureFree && site.context.captureFree &&
    captureFreeAll site.typeArgs && site.given.captureFree

theorem CallSite.captureFree_iff {site : CallSite} : site.captureFree = true ↔
    (∀ a ∈ site.args, a.captureFree = true) ∧ site.context.captureFree = true ∧
      captureFreeAll site.typeArgs = true ∧ site.given.captureFree = true := by
  simp only [captureFree, Bool.and_eq_true, List.all_eq_true, and_assoc]

def CallGraph.captureFree (g : CallGraph) : Bool := g.sites.entries.all fun e => e.2.captureFree

def Engine.captureFree (e : Engine) : Bool := e.store.captureFree && e.calls.captureFree

theorem CallGraph.captureFree_site? {g : CallGraph} (hg : g.captureFree = true) {call : CallId}
    {site : CallSite} (h : g.site? call = some site) : site.captureFree = true :=
  List.all_eq_true.1 hg (call, site) (KeyedList.mem_entries_iff.2 h)

theorem Substitution.shift_of_captureFree (n : Nat) {σ : Substitution}
    (h : σ.captureFree = true) : σ.shift n = σ := by
  have hentries : (σ.bindings.entries.map fun e => (e.1, e.2.shift n)) = σ.bindings.entries := by
    conv => rhs; rw [← List.map_id σ.bindings.entries]
    refine List.map_congr_left fun e he => ?_
    have hfree := List.all_eq_true.1 h e he
    obtain ⟨p, _ | _⟩ := e
    · rename_i t
      rw [Binding.shift, Ty.shift_of_captureFree n t hfree]
      rfl
    · rfl
  obtain ⟨bindings⟩ := σ
  exact congrArg Substitution.mk (KeyedList.ext_entries hentries)

/-! ### Rankings -/

def Resolution.shift (n : Nat) (r : Resolution) : Resolution :=
  { r with candidates := r.candidates.map (Candidate.shift n) }

section
variable (n : Nat)

theorem sortByTier_shift (cs : List Candidate) :
    sortByTier (cs.map (Candidate.shift n)) = (sortByTier cs).map (Candidate.shift n) := by
  unfold sortByTier
  rw [List.map_flatMap]
  refine congrArg (List.flatMap · Tier.all) (funext fun t => ?_)
  rw [List.filter_map]
  rfl

theorem Resolution.best_shift (r : Resolution) :
    (r.shift n).best = r.best.map (Candidate.shift n) := by
  obtain ⟨call, _ | ⟨c, cs⟩⟩ := r
  · rfl
  · show (if c.phase.isApplicable then _ else _) = List.map _ (if c.phase.isApplicable then _ else _)
    split
    · exact List.takeWhile_map
    · rfl

theorem Resolution.uniqueBest?_shift (r : Resolution) :
    (r.shift n).uniqueBest? = r.uniqueBest?.map (Candidate.shift n) := by
  unfold uniqueBest?
  rw [best_shift]
  rcases r.best with _ | ⟨c, _ | ⟨d, cs⟩⟩
  · rfl
  · show (if c.accessible then _ else _) = Option.map _ (if c.accessible then _ else _)
    split <;> rfl
  · rfl

end

namespace Engine
open Run

variable {e : Engine} {n : Nat} {rank : CallId → Run Ranked}

def RanksLater (n : Nat) (rank : CallId → Run Ranked) : Prop :=
  ∀ call, Later n (Except.map (Resolution.shift n)) (rank call) (rank call)

/-! ### Inference -/

theorem captureFree_context (hcalls : e.calls.captureFree = true) {p : ParamId} {r : Request}
    {site : CallSite} (h : e.contextSite? p r = some site) : site.context.captureFree = true := by
  unfold contextSite? at h
  split at h
  · obtain ⟨hsite, -⟩ := Option.filter_eq_some_iff.1 h
    obtain ⟨call, -, hsite⟩ := Option.bind_eq_some_iff.1 hsite
    exact (CallSite.captureFree_iff.1 (CallGraph.captureFree_site? hcalls hsite)).2.1
  · cases h

section
variable (hs : e.store.captureFree = true) (hrank : RanksLater n rank)
include hs hrank

theorem later_fromOuterCall? (p : ParamId) (inner outer : CallId) (index : Nat) {returns : Ty}
    (hreturns : returns.captureFree = true) :
    Later n (Option.map (Constraint.shift n)) (e.fromOuterCall? rank p inner outer index returns)
      (e.fromOuterCall? rank p inner outer index returns) := by
  unfold fromOuterCall?
  refine later_bind (later_consulting (hrank outer) outer inner) fun ranked => ?_
  rcases ranked with _ | _ | ranking
  · exact later_pure rfl
  · exact later_pure rfl
  · exact later_pure
      (findSome?_map_eq (fromCandidate?_shift hs n p index hreturns) ranking.candidates).symm

theorem later_fromContext? (hcalls : e.calls.captureFree = true) {r : Request}
    (hr : r.method.captureFree = true) (p : ParamId) :
    Later n (Option.map (Constraint.shift n)) (e.fromContext? rank p r)
      (e.fromContext? rank p (r.shift n)) := by
  have hexpected (t : Option Ty) (ht : t.map (Ty.shift n) = t) :
      Later n (Option.map (Constraint.shift n)) (pure (some (e.fromExpected p r t)))
        (pure (some (e.fromExpected p (r.shift n) t))) := by
    refine later_pure (congrArg some ?_)
    rw [← fromExpected_shift hs n hr, ht]
  have hsite : e.contextSite? p (r.shift n) = e.contextSite? p r := rfl
  have hcall : (r.shift n).call = r.call := rfl
  have hmethod : (r.shift n).method = r.method := rfl
  unfold fromContext?
  rw [hsite, hcall, hmethod]
  cases hc : r.call with
  | none => exact later_pure rfl
  | some call =>
    cases hcontext : e.contextSite? p r with
    | none => exact later_pure rfl
    | some site =>
      have hfree := captureFree_context hcalls hcontext
      dsimp only
      cases hconstruct : site.context with
      | standalone => exact hexpected none rfl
      | argument outer index =>
        by_cases hu : e.options.usesOuterContext = true
        · simp only [hu, if_true]
          refine later_bind (later_fromOuterCall? hs hrank p call outer index
            (MethodDecl.captureFree_returns hr)) fun c => ?_
          cases c with
          | none => exact hexpected none rfl
          | some c => exact later_pure rfl
        · simp only [hu]
          exact hexpected none rfl
      | initial t =>
        rw [hconstruct] at hfree
        exact hexpected (some t) (congrArg some (shift_of_captureFree n t hfree))
      | assignment t =>
        rw [hconstruct] at hfree
        exact hexpected (some t) (congrArg some (shift_of_captureFree n t hfree))
      | returned t =>
        rw [hconstruct] at hfree
        cases t with
        | none => exact hexpected none rfl
        | some t => exact hexpected (some t) (congrArg some (shift_of_captureFree n t hfree))

theorem later_judge (hcalls : e.calls.captureFree = true) {r : Request}
    (hr : r.method.captureFree = true) (p : ParamId) :
    Later n (Verdict.shift n) (e.judge rank r p) (e.judge rank (r.shift n) p) := by
  unfold judge
  refine later_get fun s s' hss' => ?_
  dsimp only
  -- The only thing the arguments are judged by that a session holds is which calls are blocked.
  rw [hss'.guard.isBlocked_eq, Request.argumentVerdict_shift hr n hs]
  cases r.argumentVerdict e.store s.guard.isBlocked p with
  | decided v => exact later_pure rfl
  | pending upper =>
    exact later_bind (later_fromContext? hs hrank hcalls hr p) fun c =>
      later_pure (settleOpen_shift n upper c).symm

theorem later_judgeAll (hcalls : e.calls.captureFree = true) {r : Request}
    (hr : r.method.captureFree = true) (ps : List ParamId) :
    Later n (List.map (Verdict.shift n)) (e.judgeAll rank r ps)
      (e.judgeAll rank (r.shift n) ps) := by
  induction ps with
  | nil => exact later_pure rfl
  | cons p ps ih =>
    unfold judgeAll
    exact later_bind (later_judge hs hrank hcalls hr p) fun v =>
      later_bind ih fun vs => later_pure rfl

theorem later_inferWith (hcalls : e.calls.captureFree = true) {r : Request}
    (hr : r.method.captureFree = true) :
    Later n (Substitution.shift n) (e.inferWith rank r) (e.inferWith rank (r.shift n)) := by
  unfold inferWith
  exact later_bind (later_judgeAll hs hrank hcalls hr r.typeParams) fun vs =>
    later_pure (conclude_shift hs n r vs).symm

/-! ### Typing arguments -/

omit hrank in
theorem later_typeOfRanked (ranked : Ranked) :
    Later n (Option.map (Ty.shift n)) (e.typeOfRanked ranked)
      (e.typeOfRanked (ranked.map (Resolution.shift n))) := by
  cases ranked with
  | error err => exact later_pure rfl
  | ok ranking =>
    simp only [Except.map, typeOfRanked, Resolution.uniqueBest?_shift]
    cases ranking.uniqueBest? with
    | none => exact later_pure rfl
    | some c =>
      dsimp only [Option.map_some, Candidate.shift]
      cases hm : e.store.method? c.method with
      | none => exact later_pure rfl
      | some method =>
        have hreturns := MethodDecl.captureFree_returns (Store.captureFree_method hs hm)
        have htype := instantiate_shift hs n c.substitution method.returns
        rw [shift_of_captureFree n _ hreturns] at htype
        dsimp only
        rw [htype]
        exact later_bind (later_capture _) fun t => later_pure rfl

theorem later_callTypeWith (call : CallId) :
    Later n (Option.map (Ty.shift n)) (e.callTypeWith rank call) (e.callTypeWith rank call) := by
  unfold callTypeWith
  refine later_bind (later_evaluating (hrank call) call) fun ranked => ?_
  cases ranked with
  | none => exact later_pure rfl
  | some ranked => exact later_typeOfRanked hs ranked

theorem later_typeArg {a : Argument} (ha : a.captureFree = true) :
    Later n (TypedArg.shift n) (e.typeArg rank a) (e.typeArg rank a) := by
  cases a with
  | known t =>
    cases t with
    | none => exact later_pure rfl
    | some t =>
      have hcapture := later_capture (n := n) t
      rw [shift_of_captureFree n t ha] at hcapture
      exact later_bind hcapture fun u => later_pure rfl
  | call c =>
    refine later_bind (later_isBlocked c) fun blocked => ?_
    cases blocked with
    | true => exact later_pure rfl
    | false => exact later_bind (later_callTypeWith hs hrank c) fun t => later_pure rfl

theorem later_typeArgs {args : List Argument} (hargs : ∀ a ∈ args, a.captureFree = true) :
    Later n (List.map (TypedArg.shift n)) (e.typeArgs rank args) (e.typeArgs rank args) := by
  induction args with
  | nil => exact later_pure rfl
  | cons a args ih =>
    obtain ⟨ha, hargs⟩ := List.forall_mem_cons.1 hargs
    unfold typeArgs
    exact later_bind (later_typeArg hs hrank ha) fun t =>
      later_bind (ih hargs) fun ts => later_pure rfl

/-! ### Ranking candidates -/

theorem later_candidateSubstitution (hcalls : e.calls.captureFree = true) {site : CallSite}
    (hsite : site.captureFree = true) {method : MethodDecl}
    (hmethod : method.captureFree = true) (args : List TypedArg) :
    Later n (Substitution.shift n) (e.candidateSubstitution rank site method args)
      (e.candidateSubstitution rank site method (args.map (TypedArg.shift n))) := by
  obtain ⟨-, -, htypes, hgiven⟩ := CallSite.captureFree_iff.1 hsite
  have hgiven := Substitution.shift_of_captureFree n hgiven
  unfold candidateSubstitution
  split
  · exact later_pure hgiven
  · split
    · have hinfer := later_inferWith hs hrank hcalls
        (r := .ofMethod method args site.given (some site.id)) hmethod
      have hrequest : (Request.ofMethod method args site.given (some site.id)).shift n =
          .ofMethod method (args.map (TypedArg.shift n)) site.given (some site.id) :=
        congrArg (Request.ofMethod method (args.map (TypedArg.shift n)) · (some site.id)) hgiven
      rw [hrequest] at hinfer
      exact hinfer
    · split
      · refine later_pure ?_
        rw [← Substitution.merge_shift, hgiven, ← Substitution.ofArgs_shift, ← shiftAll_eq_map,
          shiftAll_of_captureFree n _ htypes]
      · refine later_pure ?_
        rw [← Substitution.eraseAll_shift, hgiven]

theorem later_rankCandidates (hcalls : e.calls.captureFree = true) {site : CallSite}
    (hsite : site.captureFree = true) (args : List TypedArg) (ids : List MethodId) :
    Later n (Except.map (List.map (Candidate.shift n))) (e.rankCandidates rank site args ids)
      (e.rankCandidates rank site (args.map (TypedArg.shift n)) ids) := by
  induction ids with
  | nil => exact later_pure rfl
  | cons id rest ih =>
    unfold rankCandidates
    cases hm : e.store.method? id with
    | none => exact later_pure rfl
    | some method =>
      have hmethod := Store.captureFree_method hs hm
      have hcandidate : Later n (Candidate.shift n) (e.rankCandidate rank site args id method)
          (e.rankCandidate rank site (args.map (TypedArg.shift n)) id method) := by
        unfold rankCandidate
        refine later_bind (later_candidateSubstitution hs hrank hcalls hsite hmethod args)
          fun σ => later_pure ?_
        rw [phaseOf_shift hs n hmethod]
        rfl
      refine later_bind hcandidate fun c => later_bind ih fun cs => ?_
      cases cs with
      | ok cs => exact later_pure rfl
      | error err => exact later_pure rfl

theorem later_rankSiteWith (hcalls : e.calls.captureFree = true) {site : CallSite}
    (hsite : site.captureFree = true) :
    Later n (Except.map (Resolution.shift n)) (e.rankSiteWith rank site)
      (e.rankSiteWith rank site) := by
  obtain ⟨hargs, -⟩ := CallSite.captureFree_iff.1 hsite
  unfold rankSiteWith
  refine later_bind (later_typeArgs hs hrank hargs) fun args => ?_
  refine later_bind (later_rankCandidates hs hrank hcalls hsite args site.candidates) fun cs => ?_
  cases cs with
  | error err => exact later_pure rfl
  | ok cs =>
    refine later_pure ?_
    rw [sortByTier_shift]
    rfl

end

/-- Rankings of calls without captures are carried to later sessions, with whatever budget. -/
theorem later_rankWithin (he : e.captureFree = true) (k : Nat) :
    RanksLater n (e.rankWithin k) := by
  obtain ⟨hs, hcalls⟩ := Bool.and_eq_true_iff.1 he
  induction k with
  | zero => exact fun call => later_throw _ .nestedTooDeep
  | succ k ih =>
    intro call
    unfold rankWithin
    cases hsite : e.calls.site? call with
    | none => exact later_pure rfl
    | some site => exact later_rankSiteWith hs ih hcalls (CallGraph.captureFree_site? hcalls hsite)

/-! ### Requests that share a session -/

inductive Query where
  | rank (call : CallId)
  | type (call : CallId)
deriving Repr, Inhabited

inductive Reply where
  | ranked (r : Ranked)
  | typed (t : Option Ty)

def Reply.shift (n : Nat) : Reply → Reply
  | .ranked r => .ranked (r.map (Resolution.shift n))
  | .typed t => .typed (t.map (Ty.shift n))

def ask (e : Engine) : Query → Session → Reply × Session
  | .rank call, s => (.ranked (e.rankCall call s).1, (e.rankCall call s).2)
  | .type call, s => (.typed (e.callType call s).1, (e.callType call s).2)

def askAll (e : Engine) : List Query → Session → List Reply
  | [], _ => []
  | q :: qs, s => (e.ask q s).1 :: e.askAll qs (e.ask q s).2

/-- Answers each request in a new session of its own, and numbers the captures through from `n`. -/
def askApart (e : Engine) : List Query → Nat → List Reply
  | [], _ => []
  | q :: qs, n => (e.ask q {}).1.shift n :: e.askApart qs (n + (e.ask q {}).2.captures)

theorem ask_laterBy (he : e.captureFree = true) {s t : Session} (h : s.LaterBy n t) (q : Query) :
    (e.ask q t).1 = (e.ask q s).1.shift n ∧ (e.ask q s).2.LaterBy n (e.ask q t).2 := by
  have hrank := later_rankWithin (n := n) he s.nesting
  have hnesting := h.guard.nesting_eq
  cases q with
  | rank call =>
    obtain ⟨hreply, hlater⟩ := (hrank call).settle h (.error (.unknownCall call))
    rw [ask, ask, rankCall, rankCall, hnesting]
    exact ⟨congrArg Reply.ranked hreply, hlater⟩
  | type call =>
    have htype := later_callTypeWith (Bool.and_eq_true_iff.1 he).1 hrank call
    obtain ⟨hreply, hlater⟩ := htype.settle h none
    rw [ask, ask, callType, callType, hnesting]
    exact ⟨congrArg Reply.typed hreply, hlater⟩

theorem sameUse_ask (e : Engine) (q : Query) (s : Session) :
    s.guard.SameUse (e.ask q s).2.guard := by
  cases q with
  | rank call => exact (balanced_rankCall e s 0 call).sameUse
  | type call => exact (balanced_callType e s 0 call).sameUse

/-- A session with no call in use is later than a new one by the captures that it has drawn. -/
theorem laterBy_of_isIdle {s : Session} (hcounts : s.guard.Counts)
    (hidle : s.guard.isIdle = true) : ({} : Session).LaterBy s.captures s :=
  ⟨(Nat.zero_add _).symm, hcounts.sameUse_of_isIdle hidle⟩

theorem captures_ask (he : e.captureFree = true) {s : Session} (hcounts : s.guard.Counts)
    (hidle : s.guard.isIdle = true) (q : Query) :
    (e.ask q s).2.captures = s.captures + (e.ask q {}).2.captures := by
  have hlater := (ask_laterBy he (laterBy_of_isIdle hcounts hidle) q).2
  rw [hlater.captures, Nat.add_comm]

theorem askAll_eq_askApart (he : e.captureFree = true) {s : Session} (hcounts : s.guard.Counts)
    (hidle : s.guard.isIdle = true) (qs : List Query) :
    e.askAll qs s = e.askApart qs s.captures := by
  induction qs generalizing s with
  | nil => rfl
  | cons q qs ih =>
    -- The session that a request leaves is idle again, so the next one finds it as this one did.
    have hsame := sameUse_ask e q s
    have hrest := ih (hcounts.of_sameUse hsame) (hsame.isIdle_eq.trans hidle)
    have hreply := (ask_laterBy he (laterBy_of_isIdle hcounts hidle) q).1
    rw [askAll, askApart, hreply, hrest, captures_ask he hcounts hidle]

/-- When neither the store nor the calls have captures in them, the history of a session does not
matter. In a session with no call in use, a ranking and the type of a call are what they are in a
new session, up to captures later by those that the session has drawn, and as many captures are
drawn, whatever the rule of access and the options. Hence requests that share a session are answered
like requests in sessions of their own with their captures numbered through. -/
theorem history_invisible (he : e.captureFree = true) {s : Session} (hcounts : s.guard.Counts)
    (hidle : s.guard.isIdle = true) :
    (∀ call, (e.rankCall call s).1 =
        (e.rankCall call {}).1.map (Resolution.shift s.captures) ∧
      (e.rankCall call s).2.captures = s.captures + (e.rankCall call {}).2.captures) ∧
    (∀ call, (e.callType call s).1 = (e.callType call {}).1.map (Ty.shift s.captures) ∧
      (e.callType call s).2.captures = s.captures + (e.callType call {}).2.captures) ∧
    ∀ qs, e.askAll qs s = e.askApart qs s.captures := by
  have hreply (q : Query) := (ask_laterBy he (laterBy_of_isIdle hcounts hidle) q).1
  have hcaptures := captures_ask he hcounts hidle
  refine ⟨fun call => ⟨?_, hcaptures (.rank call)⟩, fun call => ⟨?_, hcaptures (.type call)⟩,
    askAll_eq_askApart he hcounts hidle⟩
  · exact Reply.ranked.inj (hreply (.rank call))
  · exact Reply.typed.inj (hreply (.type call))

/-- An engine with a generic class, a method that takes an element out of it, and a call of this
method with an argument whose element type is unknown. -/
def elementCall : Engine :=
  let (s, c) := Store.standard.declareClass "List" .interface
  let s := (s.declareParam "E" (.cls c)).1
  let (s, m) := s.declareMethod "first" .method none
  let (s, t) := s.declareParam "T" (.method m)
  let s := s.setSignature m [⟨"list", .cls c [.param t]⟩] (.cls c [.param t]) false
  let site : CallSite :=
    { id := 0, candidates := [m], args := [.known (some (.cls c [Ty.anything]))] }
  { store := s, calls := .insert .empty site }

/-- A session that has drawn five captures, and once let no more calls in. -/
def servedSession : Session :=
  { guard := { context := ⟨[], 0, Limits.enclosingCalls, true⟩ }, captures := 5 }

theorem history_invisible_servedSession :
    elementCall.captureFree = true ∧ servedSession.guard.Counts ∧
    servedSession.guard.isIdle = true ∧
    (elementCall.rankCall 0 servedSession).1 =
      (elementCall.rankCall 0 {}).1.map (Resolution.shift 5) ∧
    (elementCall.callType 0 servedSession).1 =
      (elementCall.callType 0 {}).1.map (Ty.shift 5) ∧
    (elementCall.callType 0 servedSession).2.captures =
      5 + (elementCall.callType 0 {}).2.captures ∧
    elementCall.askAll [.rank 0, .type 0] servedSession =
      elementCall.askApart [.rank 0, .type 0] 5 ∧
    (elementCall.callType 0 {}).1.any (Ty.same (.cls 13 [.captured 2 .upper none])) = true ∧
    (elementCall.callType 0 servedSession).1.any
      (Ty.same (.cls 13 [.captured 7 .upper none])) = true := by
  have hfree : elementCall.captureFree = true := by decide +kernel
  have hcounts : servedSession.guard.Counts := ⟨⟨rfl, rfl⟩, ⟨rfl, rfl⟩⟩
  obtain ⟨hrank, htype, hall⟩ := history_invisible hfree hcounts rfl
  exact ⟨hfree, hcounts, rfl, (hrank 0).1, (htype 0).1, (htype 0).2, hall _, by decide +kernel,
    by decide +kernel⟩

end Engine

end GenericCalls

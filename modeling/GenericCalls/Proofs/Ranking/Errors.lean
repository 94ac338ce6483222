import GenericCalls.Proofs.Call.Forest
import GenericCalls.Proofs.Ranking.Runs

/-! # Rankings without errors

A ranking is in error when a call or a candidate is not there. The calls that are ranked within the
ranking of a call are its arguments, the calls around it, and so on. Where all of these are there
with their candidates, no ranking is in error, however deep it is nested: whatever would be done
about an error never shows. -/

namespace GenericCalls.Engine
open Run

variable {e : Engine} {rank rank' : CallId → Run Ranked} {site : CallSite} {s t : Session}

/-- All that the calls of an engine refer to is there: methods as candidates, calls as arguments and
around them. -/
structure Linked (e : Engine) : Prop where
  candidates : ∀ {call site}, e.calls.site? call = some site →
    ∀ id ∈ site.candidates, (e.store.method? id).isSome = true
  args : ∀ {call site}, e.calls.site? call = some site →
    ∀ c, .call c ∈ site.args → c ∈ e.calls.ids
  outer : ∀ {call site outer index}, e.calls.site? call = some site →
    site.context = .argument outer index → outer ∈ e.calls.ids

/-- Two ways to rank calls that agree on the calls of an engine. -/
def AgreesOn (e : Engine) (rank rank' : CallId → Run Ranked) : Prop :=
  ∀ c ∈ e.calls.ids, rank c = rank' c

/-! ### Calls that are ranked within a ranking -/

theorem fromContext?_congr (he : e.Linked) (h : e.AgreesOn rank rank') (p : ParamId) (r : Request) :
    e.fromContext? rank p r = e.fromContext? rank' p r := by
  unfold fromContext?
  split
  · rename_i call site _ hsite
    obtain ⟨c, _, hc⟩ := exists_call_of_contextSite hsite
    cases hcontext : site.context with
    | argument outer index =>
      have houter := h outer (he.outer hc hcontext)
      simp only [fromOuterCall?, houter]
    | _ => rfl
  · rfl

theorem inferWith_congr (he : e.Linked) (h : e.AgreesOn rank rank') (r : Request) :
    e.inferWith rank r = e.inferWith rank' r := by
  have hjudge (p : ParamId) : e.judge rank r p = e.judge rank' r p := by
    unfold judge
    rw [fromContext?_congr he h p r]
  have hall (ps : List ParamId) : e.judgeAll rank r ps = e.judgeAll rank' r ps := by
    induction ps with
    | nil => rfl
    | cons p ps ih => rw [judgeAll, judgeAll, hjudge, ih]
  rw [inferWith, inferWith, hall]

theorem typeArgs_congr (h : e.AgreesOn rank rank') {args : List Argument}
    (hargs : ∀ c, .call c ∈ args → c ∈ e.calls.ids) :
    e.typeArgs rank args = e.typeArgs rank' args := by
  induction args with
  | nil => rfl
  | cons a args ih =>
    have harg : e.typeArg rank a = e.typeArg rank' a := by
      cases a with
      | known ty => cases ty <;> rfl
      | call c =>
        have hc := h c (hargs c List.mem_cons_self)
        simp only [typeArg, callTypeWith, hc]
    rw [typeArgs, typeArgs, harg, ih fun c hc => hargs c (List.mem_cons_of_mem a hc)]

theorem rankCandidates_congr (he : e.Linked) (h : e.AgreesOn rank rank') (site : CallSite)
    (args : List TypedArg) (ids : List MethodId) :
    e.rankCandidates rank site args ids = e.rankCandidates rank' site args ids := by
  have hcandidate (id : MethodId) (method : MethodDecl) :
      e.rankCandidate rank site args id method = e.rankCandidate rank' site args id method := by
    simp only [rankCandidate, candidateSubstitution, inferWith_congr he h]
  induction ids with
  | nil => rfl
  | cons id ids ih => rw [rankCandidates, rankCandidates, ih, funext (hcandidate id)]

/-- The ranking of a call ranks no other calls than those of the engine. -/
theorem rankKnown_congr (he : e.Linked) (h : e.AgreesOn rank rank') (call : CallId) :
    e.rankKnown rank call = e.rankKnown rank' call := by
  unfold rankKnown
  cases hsite : e.calls.site? call with
  | none => rfl
  | some site =>
    simp only [rankSiteWith, typeArgs_congr h (he.args hsite), rankCandidates_congr he h]

/-! ### Errors -/

theorem exists_resolution_of_rankKnown (he : e.Linked) {call : CallId} (hcall : call ∈ e.calls.ids)
    {r : Ranked} (h : (e.rankKnown rank call).run s = .ok (r, t)) : ∃ res, r = .ok res := by
  obtain ⟨site, hsite⟩ := CallGraph.exists_site_of_mem_ids hcall
  rw [rankKnown, hsite] at h
  obtain ⟨as, u, _, h⟩ := exists_of_run_bind h
  obtain ⟨r', v, hr, h⟩ := exists_of_run_bind h
  obtain ⟨cs, rfl, _⟩ := ranked_of_rankCandidates (he.candidates hsite) hr
  cases h
  exact ⟨_, rfl⟩

/-- Ranks the candidates of a call like `rankWithin`, but has every error handled by `handle`, also
those of nested rankings. -/
def rankHandling (e : Engine) (handle : RankError → Run Ranked) : Nat → CallId → Run Ranked
  | 0, _ => throw .nestedTooDeep
  | n + 1, call => do
    match ← e.rankKnown (e.rankHandling handle n) call with
    | .ok res => return .ok res
    | .error err => handle err

/-- No error shows in the ranking of a call, however deep it is nested. -/
theorem rankHandling_eq (he : e.Linked) (handle : RankError → Run Ranked) (n : Nat) {call : CallId}
    (hcall : call ∈ e.calls.ids) : e.rankHandling handle n call = e.rankWithin n call := by
  induction n generalizing call with
  | zero => rfl
  | succ n ih =>
    rw [rankWithin_succ, rankHandling, rankKnown_congr he fun c hc => ih hc]
    funext s
    cases hrun : (e.rankKnown (e.rankWithin n) call).run s with
    | error fault => exact (run_bind_of_error hrun).trans hrun.symm
    | ok result =>
      obtain ⟨r, t⟩ := result
      obtain ⟨res, rfl⟩ := exists_resolution_of_rankKnown he hcall hrun
      exact (run_bind_of_ok hrun).trans hrun.symm

theorem exists_resolution_of_rankCall (he : e.Linked) {call : CallId} (hcall : call ∈ e.calls.ids)
    (s : Session) : ∃ res, (e.rankCall call s).1 = .ok res := by
  obtain ⟨n, hn⟩ : ∃ n, s.nesting = n + 1 := ⟨s.nesting - 1, by have := one_le_nesting s; omega⟩
  have hrun := run_rankCall e call s
  rw [hn, rankWithin_succ] at hrun
  exact exists_resolution_of_rankKnown he hcall hrun

end GenericCalls.Engine

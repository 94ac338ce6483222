import GenericCalls.Proofs.Ranking.Agreement
import GenericCalls.Proofs.Ranking.Runs
import GenericCalls.Proofs.Scenario.Calls
import GenericCalls.Scenario.Ranking

/-! # Reports on calls

A report shows the ranking of a call and its type, which come from two runs in sessions of their
own. The type is that of the only best candidate in the ranking that is shown, under the
substitution that is shown. -/

namespace GenericCalls

namespace Engine
open Run

variable {e : Engine} {call : CallId} {s t : Session}

theorem exists_method_of_rankCall {res : Resolution} (h : (e.rankCall call s).1 = .ok res) :
    ∀ c ∈ res.candidates, ∃ method, e.store.method? c.method = some method := by
  obtain ⟨_, _, _, _, hrun⟩ := exists_run_of_rankCall h
  obtain ⟨_, _, _, hranked⟩ := ranked_of_rankSiteWith hrun
  exact fun c hc => (hranked c hc).2

theorem run_typeOfRanked_unique {res : Resolution} {c : Candidate} {method : MethodDecl}
    (hbest : res.uniqueBest? = some c) (hmethod : e.store.method? c.method = some method) :
    (e.typeOfRanked (.ok res)).run s =
      .ok (some (s.capture (instantiate e.store c.substitution method.returns)).1,
        (s.capture (instantiate e.store c.substitution method.returns)).2) := by
  unfold typeOfRanked
  simp only [hbest, hmethod]
  rfl

theorem run_typeOfRanked_none {ranked : Ranked}
    (hbest : ranked.toOption.bind Resolution.uniqueBest? = none) :
    (e.typeOfRanked ranked).run s = .ok (none, s) := by
  cases ranked with
  | error err => rfl
  | ok res =>
    have hbest : res.uniqueBest? = none := hbest
    unfold typeOfRanked
    simp only [hbest]
    rfl

end Engine

namespace Scenario

/-! ### Ranking and type of one call -/

/-- In a loaded scenario of at most 64 calls, none nested in itself, the type of a call is missing
exactly if its ranking has no only best candidate. Otherwise it is the return type of the candidate
under the substitution in the ranking, captured in the session that the ranking leaves. So the two
parts of a report never contradict each other. -/
theorem callType_agrees_with_rank {d : Document} {sc : Scenario} (hload : ofDocument d = .ok sc)
    (hsize : sc.calls.size ≤ 64) (hacyclic : ∀ c, ¬Relation.TransGen sc.calls.Nests c c)
    (options : Options) (call : CallId) :
    (sc.callType options call = none ↔
      (sc.rank options call).toOption.bind Resolution.uniqueBest? = none) ∧
    (∀ res c, sc.rank options call = .ok res → res.uniqueBest? = some c →
      ∃ method, sc.store.method? c.method = some method ∧
        sc.callType options call =
          some (((sc.engine options).rankCall call {}).2.capture
            (Engine.instantiate sc.store c.substitution method.returns)).1) ∧
    ∀ report, sc.reportCall options call = .ok report →
      (report.result = none ↔ report.resolution.uniqueBest? = none) := by
  obtain ⟨slots, sites, hloads⟩ := exists_of_ofDocument hload
  have hrun : ((sc.engine options).typeOfRanked (sc.rank options call)).run
      ((sc.engine options).rankCall call {}).2 = .ok ((sc.engine options).callType call {}) :=
    Engine.run_typeOfRanked_rankCall (hloads.forest hacyclic) hloads.complete hsize call
  have hnone (hbest : (sc.rank options call).toOption.bind Resolution.uniqueBest? = none) :
      sc.callType options call = none := by
    rw [Engine.run_typeOfRanked_none hbest] at hrun
    exact (congrArg Prod.fst (Except.ok.inj hrun)).symm
  have hsome {res : Resolution} {c : Candidate} (hrank : sc.rank options call = .ok res)
      (hbest : res.uniqueBest? = some c) :
      ∃ method, sc.store.method? c.method = some method ∧
        sc.callType options call =
          some (((sc.engine options).rankCall call {}).2.capture
            (Engine.instantiate sc.store c.substitution method.returns)).1 := by
    obtain ⟨method, hmethod⟩ :=
      Engine.exists_method_of_rankCall hrank c (Resolution.mem_of_uniqueBest? hbest)
    have hmethod' : sc.store.method? c.method = some method := hmethod
    rw [hrank, Engine.run_typeOfRanked_unique hbest hmethod] at hrun
    exact ⟨method, hmethod', (congrArg Prod.fst (Except.ok.inj hrun)).symm⟩
  have hiff : sc.callType options call = none ↔
      (sc.rank options call).toOption.bind Resolution.uniqueBest? = none := by
    refine ⟨fun htype => ?_, hnone⟩
    cases hrank : sc.rank options call with
    | error err => rfl
    | ok res =>
      cases hbest : res.uniqueBest? with
      | none => exact hbest
      | some c =>
        obtain ⟨method, _, hresult⟩ := hsome hrank hbest
        rw [htype] at hresult
        cases hresult
  refine ⟨hiff, fun res c => hsome, fun report hreport => ?_⟩
  unfold reportCall at hreport
  cases hrank : sc.rank options call with
  | error err =>
    rw [hrank] at hreport
    cases hreport
  | ok res =>
    rw [hrank] at hreport
    cases hreport
    rw [hrank] at hiff
    exact hiff

theorem ofDocument_eq_of_isSome {d : Document} (h : (ofDocument d).toOption.isSome = true) :
    ofDocument d = .ok ((ofDocument d).toOption.getD default) := by
  cases hload : ofDocument d with
  | error err =>
    rw [hload] at h
    cases h
  | ok sc => rfl

/-- A generic method and two calls of it, one an argument of the other. -/
def nestedDocument : Document where
  methods := [
    { name := "id", typeParams := [{ name := "T" }], params := ["T"], returns := some "T" }]
  calls := [
    { id := "outer", candidates := ["id"], args := [.call "inner"] },
    { id := "inner", candidates := ["id"], args := [.typed "String"] }]

def nestedScenario : Scenario := (ofDocument nestedDocument).toOption.getD default

theorem ofDocument_nestedDocument : ofDocument nestedDocument = .ok nestedScenario :=
  ofDocument_eq_of_isSome (by decide +kernel)

theorem callType_agrees_with_rank_nestedScenario :
    ofDocument nestedDocument = .ok nestedScenario ∧ nestedScenario.calls.size ≤ 64 ∧
    (∀ c, ¬Relation.TransGen nestedScenario.calls.Nests c c) ∧
    ∃ res c method, nestedScenario.rank {} 0 = .ok res ∧ res.uniqueBest? = some c ∧
      nestedScenario.store.method? c.method = some method ∧
      nestedScenario.callType {} 0 =
        some (((nestedScenario.engine {}).rankCall 0 {}).2.capture
          (Engine.instantiate nestedScenario.store c.substitution method.returns)).1 := by
  have hsize : nestedScenario.calls.size ≤ 64 := by decide +kernel
  have hacyclic : ∀ c, ¬Relation.TransGen nestedScenario.calls.Nests c c :=
    CallGraph.not_transGen_of_slots (by decide +kernel)
  have hbest : ((nestedScenario.rank {} 0).toOption.bind Resolution.uniqueBest?).isSome = true := by
    decide +kernel
  obtain ⟨_, hsome, _⟩ :=
    callType_agrees_with_rank ofDocument_nestedDocument hsize hacyclic {} 0
  cases hrank : nestedScenario.rank {} 0 with
  | error err =>
    rw [hrank] at hbest
    cases hbest
  | ok res =>
    rw [hrank] at hbest
    obtain ⟨c, hc⟩ := Option.isSome_iff_exists.1 hbest
    obtain ⟨method, hmethod, htype⟩ := hsome res c hrank hc
    exact ⟨ofDocument_nestedDocument, hsize, hacyclic, res, c, method, rfl, hc, hmethod, htype⟩

end Scenario

end GenericCalls

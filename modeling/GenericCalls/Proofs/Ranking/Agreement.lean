import GenericCalls.Proofs.Call.Forest
import GenericCalls.Proofs.Ranking.Lockstep
import Mathlib.Data.List.Perm.Subperm

/-! # The type of a call and its ranking

To type a call is to rank it while it is being evaluated, whereas a ranking by itself evaluates
nothing yet. In a forest the difference shows nowhere. A ranking that starts at a call stays within
that call until it consults the call around it, and from then on the call is blocked; so a call is
never evaluated again while it is being typed. Nor does the limit show: the calls that are evaluated
at once are distinct, and there is room for all calls. -/

namespace GenericCalls

/-! ### Walks around a call -/

/-- The state of a ranking that started at the call `root`: it is within that call, or that call is
blocked. The calls being evaluated are other ones, no two of them the same, and there is room for
all calls of the graph. -/
structure CallGraph.Around (g : CallGraph) (root call : CallId) (u : CallGuard) : Prop where
  place : u.isBlocked root = true ∨ g.Within root call
  distinct : (u.evaluating.active ++ [root]).Nodup
  known : ∀ k ∈ u.evaluating.active ++ [root], k ∈ g.ids
  counted : u.evaluating.depth = u.evaluating.active.length
  room : g.size ≤ u.evaluating.maxDepth

namespace CallGraph.Around

variable {g : CallGraph} {root call c : CallId} {u v : CallGuard} {h : RecursionGuard CallId}

theorem same (hat : g.Around root call u) (huv : u.SameUse v) : g.Around root call v where
  place := by
    rw [huv.isBlocked_eq]
    exact hat.place
  distinct := by
    rw [huv.evaluating.active]
    exact hat.distinct
  known := by
    rw [huv.evaluating.active]
    exact hat.known
  counted := by
    rw [huv.evaluating.depth, huv.evaluating.active]
    exact hat.counted
  room := by
    rw [huv.evaluating.maxDepth]
    exact hat.room

theorem ne_root (hg : g.Forest) (hat : g.Around root call u) (hnests : g.Nests call c)
    (hfree : u.isBlocked c = false) : c ≠ root := by
  rcases hat.place with hblocked | hwithin
  · rintro rfl
    rw [hblocked] at hfree
    cases hfree
  · exact hg.ne_of_nests_within hwithin hnests

theorem distinct_cons (hat : g.Around root call u) (hne : c ≠ root)
    (hc : c ∉ u.evaluating.active) : (c :: u.evaluating.active ++ [root]).Nodup := by
  refine List.nodup_cons.2 ⟨fun hmem => ?_, hat.distinct⟩
  rcases List.mem_append.1 hmem with hmem | hmem
  · exact hc hmem
  · exact hne (List.mem_singleton.1 hmem)

theorem entersAlike (hg : g.Forest) (hcomplete : g.Complete) (hat : g.Around root call u)
    (hnests : g.Nests call c) (hfree : u.isBlocked c = false) :
    u.evaluating.EntersAlike [root] c := by
  have hne := hat.ne_root hg hnests hfree
  refine RecursionGuard.entersAlike_of_room (fun hmem => hne (List.mem_singleton.1 hmem)) ?_
  intro hc
  -- The calls being evaluated, the next one and `root` are different calls of the graph.
  have hknown : ∀ k ∈ c :: u.evaluating.active ++ [root], k ∈ g.ids :=
    List.forall_mem_cons.2 ⟨hcomplete hnests, hat.known⟩
  have hle := (List.subperm_of_subset (hat.distinct_cons hne hc) hknown).length_le
  have hsize : g.ids.length = g.size := KeyedList.length_keys _
  have hroom := hat.room
  have hcounted := hat.counted
  simp only [List.cons_append, List.length_cons, List.length_append, List.length_nil] at hle ⊢
  omega

theorem down (hg : g.Forest) (hcomplete : g.Complete) (hat : g.Around root call u)
    (hnests : g.Nests call c) (hfree : u.isBlocked c = false)
    (henter : u.evaluating.enter c = (.entered, h)) :
    g.Around root c { u with evaluating := h } := by
  obtain ⟨hc, -, hactive, hdepth, hmax⟩ := RecursionGuard.enter_eq_entered henter
  refine ⟨hat.place.imp_right fun hwithin => hwithin.tail hnests, ?_, ?_, ?_, ?_⟩
  · rw [hactive]
    exact hat.distinct_cons (hat.ne_root hg hnests hfree) hc
  · rw [hactive]
    exact List.forall_mem_cons.2 ⟨hcomplete hnests, hat.known⟩
  · rw [hactive, hdepth, hat.counted, List.length_cons]
  · rw [hmax]
    exact hat.room

theorem up {outer : CallId} (hg : g.Forest) (hat : g.Around root call u)
    (hnests : g.Nests outer call) : g.Around root outer ({ u with context := h }.block call) where
  place := by
    by_cases hcall : call = root
    · exact .inl (by simp [hcall])
    · refine hat.place.imp (fun hblocked => ?_) fun hwithin => ?_
      · exact CallGuard.isBlocked_block_of_isBlocked hblocked call
      · exact hg.within_of_nests hwithin hcall hnests
  distinct := hat.distinct
  known := hat.known
  counted := hat.counted
  room := hat.room

end CallGraph.Around

namespace Engine
open Run

variable {e : Engine} {call : CallId}

/-- A ranking does not tell whether the call at which it started is being evaluated. -/
theorem tracks_around (hg : e.calls.Forest) (hcomplete : e.calls.Complete) (root : CallId) :
    e.Tracks e.calls [root] (e.calls.Around root) where
  same huv hat := hat.same huv
  site _ := .of_eq hg.keyed rfl
  enters hat hsite hc hfree := hat.entersAlike hg hcomplete ⟨_, hsite, hc⟩ hfree
  down hat hsite hc hfree := hat.down hg hcomplete ⟨_, hsite, hc⟩ hfree
  up hat hsite hcontext _ := hat.up hg (hg.placed hsite hcontext).nests

/-! ### Two runs -/

theorem inStep_rankWithin_evaluating (hg : e.calls.Forest) (hcomplete : e.calls.Complete)
    (hsize : e.calls.size ≤ Limits.evaluatedCalls) (n : Nat) (call : CallId) :
    InStep [call] Eq (e.rankWithin n call) (e.rankWithin n call) {} := by
  cases n with
  | zero => exact inStep_throw _
  | succ n =>
    cases hsite : e.calls.site? call with
    | none =>
      rw [rankWithin_succ, rankKnown, hsite]
      exact inStep_pure rfl
    | some site =>
      refine inStep_rankWithin (tracks_around hg hcomplete call) (n + 1) call {} ?_
      refine ⟨.inr (.refl _ call), List.nodup_singleton call, fun k hk => ?_, rfl, hsize⟩
      rw [List.mem_singleton.1 hk]
      exact CallGraph.mem_ids_of_site hsite

/-- In a fresh session, a call is typed by what ranking it by itself yields, in the session that
this leaves. -/
theorem run_typeOfRanked_rankCall (hg : e.calls.Forest) (hcomplete : e.calls.Complete)
    (hsize : e.calls.size ≤ Limits.evaluatedCalls) (call : CallId) :
    (e.typeOfRanked (e.rankCall call {}).1).run (e.rankCall call {}).2 =
      .ok (e.callType call {}) := by
  obtain ⟨ranked, t, hrun, _, hst⟩ := concur_rankWithin_add e _ 0 call {} trivial Nat.le.refl
  have hrank : e.rankCall call {} = (ranked, t) := settle_eq _ hrun
  -- Typing the call ranks it while it is being evaluated, which the ranking does not tell.
  have hunder : (e.rankWithin ({} : Session).nesting call).run (({} : Session).under [call]) =
      .ok (ranked, t.under [call]) := by
    rcases inStep_rankWithin_evaluating hg hcomplete hsize _ call with
      ⟨a, b, u, h, h', rfl, _⟩ | ⟨fault, h, _⟩
    · cases hrun.symm.trans h
      exact h'
    · cases hrun.symm.trans h
  have hleave : (t.under [call]).guard.evaluating.leave? call = some t.guard.evaluating :=
    RecursionGuard.leave?_under_single call hst.evaluating.active
  have henter : ({} : Session).guard.evaluating.enter call =
      (.entered, (({} : Session).under [call]).guard.evaluating) := rfl
  have hevaluated : (evaluating call (e.rankWithin ({} : Session).nesting call)).run {} =
      .ok (some ranked, t) := run_evaluating_entered (t := t.under [call]) henter hunder hleave
  obtain ⟨ty, u, htype, _, _⟩ := concur_typeOfRanked e ranked t
  have hcall : (e.callTypeWith (e.rankWithin ({} : Session).nesting) call).run {} = .ok (ty, u) := by
    unfold callTypeWith
    rw [run_bind_of_ok hevaluated]
    exact htype
  have hresult : e.callType call {} = (ty, u) := settle_eq _ hcall
  rw [hrank, hresult]
  exact htype

end Engine

end GenericCalls

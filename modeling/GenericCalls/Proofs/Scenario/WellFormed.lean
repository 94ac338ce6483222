import GenericCalls.Proofs.Ranking.Preserves
import GenericCalls.Proofs.Scenario.References

/-! # Well-formed types come out

What is written in a scenario is read as well-formed types, in the declarations and in the calls
alike. No ranking makes ill-formed types of them: every type that a candidate binds a type parameter
to is well formed, and so is the type of every call. -/

namespace GenericCalls

open Substitution

namespace Scenario

variable {s : Store} {scope : TypeExpr.Scope} {names : List String} {methods : MethodNames}
  {slots : List (CallId × CallContext)} {sites : List CallSite} {d : Document} {sc : Scenario}
  {e : CallEntry} {call : CallId} {site : CallSite} {t : Ty}

/-! ### What is read of a call -/

theorem wellFormed_of_loadArg (hscope : scope.Declared s) {a : ArgEntry}
    (h : loadArg s scope names a = .ok (.known (some t))) : s.wellFormed t = true := by
  cases a with
  | untyped => cases h
  | typed input =>
    obtain ⟨u, hu, h⟩ := exists_of_bind_ok h
    cases h
    exact wellFormed_of_readType hscope hu
  | call name =>
    obtain ⟨c, _, h⟩ := exists_of_bind_ok h
    cases h

theorem wellFormed_of_loadContext (hscope : scope.Declared s) {entry : ContextEntry}
    {context : CallContext} (h : loadContext s scope entry = .ok context)
    (ht : context.expected? = some t) : s.wellFormed t = true := by
  rcases cases_of_loadContext h with rfl | rfl | ⟨input, u, hu, hcontext⟩
  · cases ht
  · cases ht
  · have hu := wellFormed_of_readType hscope hu
    rcases hcontext with rfl | rfl | rfl <;>
    · cases ht
      exact hu

theorem LoadsAll.expected?_of_lookup {es : List CallEntry} {g : CallGraph}
    (h : LoadsAll es g slots sites) {context : CallContext}
    (hfound : slots.lookup call = some context) : context.expected? = none := by
  obtain ⟨⟨c, outer, index⟩, _, _, hplace⟩ :=
    exists_mem_of_forall₂ h.forall₂_found.flip (List.mem_reverse.2 (mem_of_lookup hfound))
  cases hplace
  rfl

theorem wellFormed_context (hloads : LoadsAll d.calls sc.calls slots sites)
    (hread : Read s methods names slots call e site) (ht : site.context.expected? = some t) :
    s.wellFormed t = true := by
  obtain ⟨caller, hcontext⟩ := hread.context
  cases hentry : e.context with
  | some entry =>
    rw [hentry] at hcontext
    exact wellFormed_of_loadContext (declared_callerScope caller s) hcontext ht
  | none =>
    rw [hentry] at hcontext
    have heq : (slots.lookup call).getD .standalone = site.context := Except.ok.inj hcontext
    rw [← heq] at ht
    cases hfound : slots.lookup call with
    | none =>
      rw [hfound] at ht
      cases ht
    | some context =>
      rw [hfound, Option.getD_some, hloads.expected?_of_lookup hfound] at ht
      cases ht

theorem within_receiverBindings (howned : s.Owned) (ht : s.wellFormed t = true) :
    (receiverBindings s t).Within (s.wellFormed ·) := by
  unfold receiverBindings
  split
  · exact (within_empty _).eraseAll howned.wellFormed_classParams
  · exact within_ofArgs howned.wellFormed_classParams ((Store.hereditary_wellFormed s).args ht)
  · exact within_empty _

theorem within_of_read (howned : s.Owned) (hloads : LoadsAll d.calls sc.calls slots sites)
    (hread : Read s methods names slots call e site) : site.Within (s.wellFormed ·) where
  args := by
    intro t ht
    obtain ⟨caller, hargs⟩ := hread.args
    obtain ⟨a, _, ha⟩ := exists_mem_of_forall₂ (forall₂_of_mapM_ok hargs).flip ht
    exact wellFormed_of_loadArg (declared_callerScope caller s) ha
  context _ := wellFormed_context hloads hread
  typeArgs := by
    obtain ⟨caller, htypeArgs⟩ := hread.typeArgs
    exact wellFormed_of_readTypes (declared_callerScope caller s) htypeArgs
  given := by
    obtain ⟨r, hr, heq⟩ := hread.receiver
    rw [heq]
    cases r with
    | none => exact within_empty _
    | some t =>
      obtain ⟨caller, input, ht⟩ := exists_read_of_receiverTy hr
      exact within_receiverBindings howned
        (wellFormed_of_readType (declared_callerScope caller s) ht)

/-! ### Loaded scenarios -/

theorem engine_within (hload : ofDocument d = .ok sc) (options : Options) :
    (sc.engine options).Within (sc.store.wellFormed ·) := by
  have hs := wellFormed_of_ofDocument hload
  obtain ⟨howned, _, _, methods, slots, sites, _, hreads, hloads⟩ :=
    exists_reads_of_ofDocument hload
  refine ⟨hs.preserves, fun {m method} hmethod => ?_, fun hsite => ?_⟩
  · have htypes := hs.types m _ (Store.method?_eq_some_iff.1 hmethod)
    obtain ⟨hreturns, hformals⟩ := List.forall_mem_cons.1 htypes
    exact ⟨howned.wellFormed_typeParams hmethod, List.forall_mem_map.1 hformals, hreturns⟩
  · obtain ⟨e, _, hread⟩ := hloads.exists_read hreads hsite
    exact within_of_read howned hloads hread

/-- Every type that comes out of a loaded scenario is well formed: all candidates of a ranking bind
declared type parameters, and these to well-formed types, and the type of a call is well formed. -/
theorem answers_wellFormed (hload : ofDocument d = .ok sc) (options : Options) (call : CallId) :
    (∀ res, sc.rank options call = .ok res → ∀ k ∈ res.candidates,
      ∀ p b, (p, b) ∈ k.substitution.toList →
        (sc.store.param? p).isSome = true ∧ ∀ t, b = .bound t → sc.store.wellFormed t = true) ∧
    ∀ t, sc.callType options call = some t → sc.store.wellFormed t = true := by
  have hengine := engine_within hload options
  refine ⟨fun res hres k hk p b hb => ?_, fun t ht => hengine.callType ht⟩
  have hwithin := hengine.rankCall hres k hk
  have hget : k.substitution.get? p = some b := KeyedList.mem_entries_iff.1 hb
  obtain ⟨hp, hb⟩ := hwithin p b hget
  rw [Store.wellFormed] at hp
  exact ⟨hp, hb⟩

theorem answers_wellFormed_nestedScenario :
    ofDocument nestedDocument = .ok nestedScenario ∧
    ∃ res t, nestedScenario.rank {} 0 = .ok res ∧ nestedScenario.callType {} 0 = some t ∧
      (∃ k ∈ res.candidates, k.substitution.toList ≠ [] ∧ ∀ p b, (p, b) ∈ k.substitution.toList →
        (nestedScenario.store.param? p).isSome = true ∧
        ∀ t, b = .bound t → nestedScenario.store.wellFormed t = true) ∧
      nestedScenario.store.wellFormed t = true := by
  have hbinds : ((nestedScenario.rank {} 0).toOption.any fun res =>
      res.candidates.any fun k => !k.substitution.toList.isEmpty) = true := by
    decide +kernel
  have htyped : (nestedScenario.callType {} 0).isSome = true := by decide +kernel
  obtain ⟨hranked, hcallType⟩ := answers_wellFormed ofDocument_nestedDocument {} 0
  obtain ⟨t, ht⟩ := Option.isSome_iff_exists.1 htyped
  cases hres : nestedScenario.rank {} 0 with
  | error err =>
    rw [hres] at hbinds
    cases hbinds
  | ok res =>
    rw [hres] at hbinds
    obtain ⟨k, hk, hbinds⟩ := List.any_eq_true.1 hbinds
    refine ⟨ofDocument_nestedDocument, res, t, rfl, ht, ⟨k, hk, ?_, hranked res hres k hk⟩,
      hcallType t ht⟩
    simpa using hbinds

end Scenario

end GenericCalls

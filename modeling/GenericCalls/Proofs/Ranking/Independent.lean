import GenericCalls.Proofs.Ranking.Runs
import GenericCalls.Proofs.Ranking.Tiers

/-! # Candidates by themselves

The arguments of a call are typed before any candidate is ranked, and from then on a ranking changes
the session only where it consults an enclosing call. Where it consults none, every candidate finds
the session as the one before it did, and is ranked as if it were the only one. The ranking is then
the stable sort of these rankings by tier. -/

namespace GenericCalls

/-! ### Computations that only read -/

namespace Run

variable {α β : Type}

/-- A computation ends without fault in every session and leaves it as it is. -/
def Reads (m : Run α) : Prop := ∀ s, ∃ a, m.run s = .ok (a, s)

theorem reads_pure (a : α) : Reads (pure a) := fun _ => ⟨a, rfl⟩

theorem reads_bind {m : Run α} {f : α → Run β} (hm : Reads m) (hf : ∀ a, Reads (f a)) :
    Reads (m >>= f) := by
  intro s
  obtain ⟨a, ha⟩ := hm s
  obtain ⟨b, hb⟩ := hf a s
  exact ⟨b, (run_bind_of_ok ha).trans hb⟩

theorem reads_get : Reads (get : Run Session) := fun s => ⟨s, rfl⟩

theorem Reads.eq {m : Run α} (hm : Reads m) {s t : Session} {a : α} (h : m.run s = .ok (a, t)) :
    t = s := by
  obtain ⟨b, hb⟩ := hm s
  cases hb.symm.trans h
  rfl

end Run

namespace Engine
open Run

variable {e : Engine} {rank : CallId → Run Ranked} {site : CallSite} {s t : Session}

/-! ### Rankings that consult no enclosing call -/

/-- No enclosing call is consulted for the context of a call: it is no argument of a call as far as
the engine knows, or enclosing calls are left out of account. -/
def ConsultsNone (e : Engine) (call : CallId) : Prop :=
  ∀ site outer index, e.calls.site? call = some site → site.context = .argument outer index →
    e.options.usesOuterContext = false

theorem reads_fromContext? {call : CallId} (h : e.ConsultsNone call) (p : ParamId) {r : Request}
    (hr : r.call = some call) : Reads (e.fromContext? rank p r) := by
  unfold fromContext?
  split
  · rename_i call' site hcall hsite
    obtain ⟨call'', hcall', hknown⟩ := exists_call_of_contextSite hsite
    obtain rfl : call = call'' := Option.some.inj (hr.symm.trans hcall')
    cases hcontext : site.context with
    | argument outer index =>
      simp only [h site outer index hknown hcontext]
      exact reads_pure _
    | _ => exact reads_pure _
  · exact reads_pure _

theorem reads_inferWith {call : CallId} (h : e.ConsultsNone call) {r : Request}
    (hr : r.call = some call) : Reads (e.inferWith rank r) := by
  have hjudge (p : ParamId) : Reads (e.judge rank r p) := by
    refine reads_bind reads_get fun s => ?_
    dsimp only
    split
    · exact reads_pure _
    · exact reads_bind (reads_fromContext? h p hr) fun _ => reads_pure _
  have hall (ps : List ParamId) : Reads (e.judgeAll rank r ps) := by
    induction ps with
    | nil => exact reads_pure _
    | cons p ps ih => exact reads_bind (hjudge p) fun _ => reads_bind ih fun _ => reads_pure _
  exact reads_bind (hall _) fun _ => reads_pure _

theorem reads_rankCandidate (h : e.ConsultsNone site.id) (args : List TypedArg) (id : MethodId)
    (method : MethodDecl) : Reads (e.rankCandidate rank site args id method) := by
  refine reads_bind ?_ fun _ => reads_pure _
  unfold candidateSubstitution
  split
  · exact reads_pure _
  · split
    · exact reads_inferWith h rfl
    · split <;> exact reads_pure _

/-! ### Candidates one after another -/

theorem error_of_rankCandidates {args : List TypedArg} {ids : List MethodId} {m : MethodId}
    {r : Except RankError (List Candidate)}
    (hm : ids.find? (fun id => (e.store.method? id).isNone) = some m)
    (h : (e.rankCandidates rank site args ids).run s = .ok (r, t)) :
    r = .error (.unknownMethod m) := by
  induction ids generalizing s t r with
  | nil => cases hm
  | cons id ids ih =>
    unfold rankCandidates at h
    rw [List.find?_cons] at hm
    cases hmethod : e.store.method? id with
    | none =>
      rw [hmethod] at h hm
      cases h
      cases hm
      rfl
    | some method =>
      rw [hmethod] at h hm
      obtain ⟨c, u, _, h⟩ := exists_of_run_bind h
      obtain ⟨r', v, hr', h⟩ := exists_of_run_bind h
      obtain rfl := ih hm hr'
      cases h
      rfl

/-- Where no enclosing call is consulted, each candidate is ranked in the same session. -/
theorem entries_of_rankCandidates (hnone : e.ConsultsNone site.id) {args : List TypedArg}
    {ids : List MethodId} {r : Except RankError (List Candidate)}
    (hids : ∀ id ∈ ids, (e.store.method? id).isSome = true)
    (h : (e.rankCandidates rank site args ids).run s = .ok (r, t)) :
    ∃ cs, r = .ok cs ∧ List.Forall₂ (fun id c => c.method = id ∧
      (e.rankCandidates rank site args [id]).run s = .ok (.ok [c], s)) ids cs := by
  induction ids generalizing t r with
  | nil =>
    cases h
    exact ⟨[], rfl, .nil⟩
  | cons id ids ih =>
    obtain ⟨hid, hids⟩ := List.forall_mem_cons.1 hids
    obtain ⟨method, hmethod⟩ := Option.isSome_iff_exists.1 hid
    unfold rankCandidates at h
    rw [hmethod] at h
    obtain ⟨c, u, hc, hrest⟩ := exists_of_run_bind h
    obtain rfl := (reads_rankCandidate hnone args id method).eq hc
    obtain ⟨r', v, hr', hlast⟩ := exists_of_run_bind hrest
    obtain ⟨cs, rfl, hcs⟩ := ih hids hr'
    cases hlast
    have halone : (e.rankCandidates rank site args [id]).run u = .ok (.ok [c], u) := by
      simp only [rankCandidates, hmethod]
      exact run_bind_of_ok hc
    obtain ⟨σ, w, _, hpure⟩ := exists_of_run_bind hc
    cases hpure
    exact ⟨_, rfl, .cons ⟨rfl, halone⟩ hcs⟩

/-! ### Rankings of call sites -/

/-- A candidate is what a call site is ranked to with this method as its only candidate. -/
def RankedAlone (e : Engine) (site : CallSite) (s : Session) (id : MethodId) (c : Candidate) :
    Prop :=
  c.method = id ∧ (e.rankSite { site with candidates := [id] } s).1 = .ok ⟨site.id, [c]⟩

theorem sortByTier_singleton (c : Candidate) : sortByTier [c] = [c] :=
  sortByTier_of_ordered (List.pairwise_singleton _ c)

/-- A call site is ranked to what its candidates are ranked to once its arguments are typed. -/
theorem rankSite_eq (site : CallSite) {args : List TypedArg} {u v : Session}
    (hargs : (e.typeArgs (e.rankWithin s.nesting) site.args).run s = .ok (args, u))
    {r : Except RankError (List Candidate)}
    (h : (e.rankCandidates (e.rankWithin s.nesting) site args site.candidates).run u =
      .ok (r, v)) :
    (e.rankSite site s).1 = r.map fun cs => ⟨site.id, sortByTier cs⟩ := by
  have hrun := run_rankSite e site s
  unfold rankSiteWith at hrun
  rw [run_bind_of_ok hargs, run_bind_of_ok h] at hrun
  cases r with
  | ok cs => exact (congrArg Prod.fst (Except.ok.inj hrun)).symm
  | error err => exact (congrArg Prod.fst (Except.ok.inj hrun)).symm

theorem exists_run_of_rankSite (e : Engine) (site : CallSite) (s : Session) : ∃ args u r v,
    (e.typeArgs (e.rankWithin s.nesting) site.args).run s = .ok (args, u) ∧
    (e.rankCandidates (e.rankWithin s.nesting) site args site.candidates).run u = .ok (r, v) := by
  obtain ⟨args, u, hargs, hrun⟩ := exists_of_run_bind (run_rankSite e site s)
  obtain ⟨r, v, hr, _⟩ := exists_of_run_bind hrun
  exact ⟨args, u, r, v, hargs, hr⟩

theorem rankSite_unknown (e : Engine) (site : CallSite) (s : Session) {m : MethodId}
    (hm : site.candidates.find? (fun id => (e.store.method? id).isNone) = some m) :
    (e.rankSite site s).1 = .error (.unknownMethod m) := by
  obtain ⟨args, u, r, v, hargs, hr⟩ := exists_run_of_rankSite e site s
  rw [rankSite_eq site hargs hr, error_of_rankCandidates hm hr]
  rfl

theorem rankSite_declared (hnone : e.ConsultsNone site.id) (s : Session)
    (hids : ∀ id ∈ site.candidates, (e.store.method? id).isSome = true) :
    ∃ cs, List.Forall₂ (e.RankedAlone site s) site.candidates cs ∧
      (e.rankSite site s).1 = .ok ⟨site.id, sortByTier cs⟩ := by
  obtain ⟨args, u, r, v, hargs, hr⟩ := exists_run_of_rankSite e site s
  obtain ⟨cs, rfl, hcs⟩ := entries_of_rankCandidates hnone hids hr
  refine ⟨cs, hcs.imp fun id c hc => ⟨hc.1, ?_⟩, rankSite_eq site hargs hr⟩
  have hsingle : (e.rankCandidates (e.rankWithin s.nesting) { site with candidates := [id] } args
      [id]).run u = .ok (.ok [c], u) := hc.2
  rw [rankSite_eq { site with candidates := [id] } hargs hsingle, Except.map, sortByTier_singleton]

/-! ### Rankings are in order -/

theorem ordered_of_rankSiteWith {r : Resolution}
    (h : (e.rankSiteWith rank site).run s = .ok (.ok r, t)) : Ordered r.candidates := by
  obtain ⟨args, u, _, hrest⟩ := exists_of_run_bind h
  obtain ⟨r', v, _, hlast⟩ := exists_of_run_bind hrest
  cases r' with
  | error err => cases hlast
  | ok cs =>
    cases hlast
    exact ordered_sortByTier cs

theorem ordered_of_rankSite {r : Resolution} (h : (e.rankSite site s).1 = .ok r) :
    Ordered r.candidates := ordered_of_rankSiteWith (run_of_rankSite h)

theorem ordered_of_rankCall {call : CallId} {r : Resolution}
    (h : (e.rankCall call s).1 = .ok r) : Ordered r.candidates := by
  obtain ⟨_, _, _, _, hrun⟩ := exists_run_of_rankCall h
  exact ordered_of_rankSiteWith hrun

/-! ### One more candidate -/

theorem declared_of_rankSite {r : Resolution} (h : (e.rankSite site s).1 = .ok r) :
    ∀ id ∈ site.candidates, (e.store.method? id).isSome = true := by
  obtain ⟨args, u, cs, v, hargs, hcs⟩ := exists_run_of_rankSite e site s
  rw [rankSite_eq site hargs hcs] at h
  cases cs with
  | error err => cases h
  | ok cs => exact isSome_of_rankCandidates hcs

theorem exists_split_of_forall₂ {α β : Type} {R : α → β → Prop} {as as' : List α} {a : α}
    {cs : List β} (h : List.Forall₂ R (as ++ a :: as') cs) : ∃ bs b bs', cs = bs ++ b :: bs' ∧
      R a b ∧ List.Forall₂ R as bs ∧ List.Forall₂ R as' bs' := by
  induction as generalizing cs with
  | nil =>
    cases h with
    | @cons _ b _ bs' hab h => exact ⟨[], b, bs', rfl, hab, .nil, h⟩
  | cons d as ih =>
    cases h with
    | @cons _ e _ es hde h =>
      obtain ⟨bs, b, bs', rfl, hab, has, has'⟩ := ih h
      exact ⟨e :: bs, b, bs', rfl, hab, .cons hde has, has'⟩

theorem rankedAlone_unique : Relator.RightUnique (e.RankedAlone site s) := by
  intro id c d hc hd
  cases hc.2.symm.trans hd.2
  rfl

theorem exists_entries_of_rankSite (hnone : e.ConsultsNone site.id) {ids : List MethodId}
    {r : Resolution} (h : (e.rankSite { site with candidates := ids } s).1 = .ok r) :
    ∃ cs, List.Forall₂ (e.RankedAlone site s) ids cs ∧ r.candidates = sortByTier cs := by
  have hnone' : e.ConsultsNone { site with candidates := ids }.id := hnone
  obtain ⟨cs, hcs, hr⟩ := rankSite_declared hnone' s (declared_of_rankSite h)
  cases hr.symm.trans h
  exact ⟨cs, hcs, rfl⟩

/-- Where no enclosing call is consulted, one more candidate is ranked as it is alone, and the
others are ranked as before. -/
theorem rankSite_insert (hnone : e.ConsultsNone site.id) {ids ids' : List MethodId} {m : MethodId}
    {r r' : Resolution} (hr : (e.rankSite { site with candidates := ids ++ ids' } s).1 = .ok r)
    (hr' : (e.rankSite { site with candidates := ids ++ m :: ids' } s).1 = .ok r') :
    ∃ c, e.RankedAlone site s m c ∧ r'.Adds c r := by
  obtain ⟨cs, hcs, hsorted⟩ := exists_entries_of_rankSite hnone hr
  obtain ⟨cs', hcs', hsorted'⟩ := exists_entries_of_rankSite hnone hr'
  obtain ⟨bs, c, bs', rfl, hc, hids, hids'⟩ := exists_split_of_forall₂ hcs'
  obtain rfl : cs = bs ++ bs' :=
    List.right_unique_forall₂' rankedAlone_unique hcs (List.rel_append hids hids')
  obtain ⟨before, after, hwith, hwithout, _⟩ := sortByTier_insert bs bs' c
  exact ⟨c, hc, before, after, hsorted'.trans hwith, hsorted.trans hwithout⟩

/-- Candidates are ranked independently, stably and without loss. The first candidate that is not
declared is the error. Otherwise, where the call consults no enclosing call, the ranking is the
stable sort, by access and then by phase, of what each candidate is ranked to alone from the same
session. If the least tier applies, the best candidates are all those of this tier in the order of
the call site, and the only best one is the one that is alone in it and may be accessed. -/
theorem candidates_independent (e : Engine) (site : CallSite) (s : Session) :
    (∀ m, site.candidates.find? (fun id => (e.store.method? id).isNone) = some m →
      (e.rankSite site s).1 = .error (.unknownMethod m)) ∧
    (e.ConsultsNone site.id →
      (∀ id ∈ site.candidates, (e.store.method? id).isSome = true) →
      ∃ cs r, List.Forall₂ (e.RankedAlone site s) site.candidates cs ∧
        (e.rankSite site s).1 = .ok r ∧ r.call = site.id ∧
        r.candidates = cs.mergeSort Candidate.le ∧
        ∀ c ∈ cs, (∀ d ∈ cs, c.tier.key ≤ d.tier.key) → c.phase.isApplicable = true →
          r.best = inTier c.tier cs ∧
          ∀ d, r.uniqueBest? = some d ↔ inTier c.tier cs = [d] ∧ d.accessible = true) := by
  refine ⟨fun m hm => rankSite_unknown e site s hm, fun hnone hids => ?_⟩
  obtain ⟨cs, hcs, hr⟩ := rankSite_declared hnone s hids
  refine ⟨cs, _, hcs, hr, rfl, sortByTier_eq_mergeSort cs, fun c hc hleast happlies => ?_⟩
  have hbest : (Resolution.mk site.id (sortByTier cs)).best = inTier c.tier cs := by
    have hsorted : ∀ d ∈ sortByTier cs, c.tier.key ≤ d.tier.key :=
      fun d hd => hleast d (mem_sortByTier.1 hd)
    rw [Resolution.best_eq_inTier (ordered_sortByTier cs) (mem_sortByTier.2 hc) hsorted happlies]
    exact inTier_sortByTier c.tier cs
  exact ⟨hbest, fun d => hbest ▸ Resolution.uniqueBest?_eq_some_iff⟩

/-- An engine with a method that takes a primitive number and a generic one that takes anything. -/
def overloads : Engine :=
  let (s, m) := Store.standard.declareMethod "of" .method none
  let s := s.setSignature m [⟨"number", .prim .int⟩] .null false
  let (s, n) := s.declareMethod "of" .method none
  let (s, t) := s.declareParam "T" (.method n)
  { store := s.setSignature n [⟨"x", .param t⟩] (.param t) false }

def overloaded : CallSite :=
  { id := 0, candidates := [13, 14], args := [.known (some (.raw 4))] }

theorem candidates_independent_overloads :
    overloads.ConsultsNone 0 ∧ (∀ id ∈ [13, 14], (overloads.store.method? id).isSome = true) ∧
    [13, 16].find? (fun id => (overloads.store.method? id).isNone) = some 16 ∧
    (overloads.rankSite { overloaded with candidates := [13, 16] } {}).1 =
      .error (.unknownMethod 16) ∧
    ∃ c d r, overloads.RankedAlone overloaded {} 13 c ∧ overloads.RankedAlone overloaded {} 14 d ∧
      (overloads.rankSite overloaded {}).1 = .ok r ∧ r.candidates = [c, d].mergeSort Candidate.le ∧
      (∀ x ∈ [c, d], d.tier.key ≤ x.tier.key) ∧ d.phase.isApplicable = true ∧
      r.best = inTier d.tier [c, d] ∧ r.uniqueBest? = some d := by
  have hnone : overloads.ConsultsNone 0 := nofun
  have hids : ∀ id ∈ [13, 14], (overloads.store.method? id).isSome = true := by decide +kernel
  have hunknown : [13, 16].find? (fun id => (overloads.store.method? id).isNone) = some 16 := by
    decide +kernel
  obtain ⟨herror, -⟩ :=
    candidates_independent overloads { overloaded with candidates := [13, 16] } {}
  obtain ⟨-, hdeclared⟩ := candidates_independent overloads overloaded {}
  obtain ⟨cs, r, hcs, hr, -, hsorted, hbest⟩ := hdeclared hnone hids
  cases hcs with
  | @cons _ c _ cs hc hcs =>
    cases hcs with
    | @cons _ d _ cs hd hcs =>
      cases hcs
      have hcphase : c.tier = ⟨true, .inapplicable⟩ := by
        cases hc.2
        rfl
      have hdphase : d.tier = ⟨true, .exact⟩ := by
        cases hd.2
        rfl
      have hleast : ∀ x ∈ [c, d], d.tier.key ≤ x.tier.key := by
        rw [List.forall_mem_cons, List.forall_mem_singleton, hcphase, hdphase]
        decide
      have happlies : d.phase.isApplicable = true :=
        congrArg (fun t => t.phase.isApplicable) hdphase
      obtain ⟨hall, honly⟩ := hbest d (List.mem_cons_of_mem c List.mem_cons_self) hleast happlies
      have hother : c.tier ≠ d.tier := by
        rw [hcphase, hdphase]
        decide
      have hopen : d.accessible = true := congrArg Tier.accessible hdphase
      have hunique : r.uniqueBest? = some d := by
        rw [honly, inTier_cons_of_ne hother, inTier_cons_self]
        exact ⟨rfl, hopen⟩
      exact ⟨hnone, hids, hunknown, herror 16 hunknown, c, d, r, hc, hd, hr, hsorted, hleast,
        happlies, hall, hunique⟩

/-! ### A context that is known of the call only -/

/-- An engine with `List<E>`, a method that takes two arguments of a type `U`, and two generic
methods without parameters. A call of the first method has a `List<?>` and a call of the second as
arguments. -/
def outerLists : Engine :=
  let (s, list) := Store.standard.declareClass "List" .interface
  let (s, _) := s.declareParam "E" (.cls list)
  let (s, outer) := s.declareMethod "outer" .method none
  let (s, u) := s.declareParam "U" (.method outer)
  let s := s.setSignature outer [⟨"x", .param u⟩, ⟨"y", .param u⟩] .null false
  let (s, first) := s.declareMethod "first" .method none
  let (s, t) := s.declareParam "T" (.method first)
  let s := s.setSignature first [] (.param t) false
  let (s, second) := s.declareMethod "second" .method none
  let (s, v) := s.declareParam "V" (.method second)
  let s := s.setSignature second [] (.param v) false
  let around : CallSite :=
    { id := 0, candidates := [outer], args := [.known (some (.cls list [.anything])), .call 1] }
  let inside : CallSite := { id := 1, candidates := [first], context := .argument 0 1 }
  { store := s, calls := (CallGraph.empty.insert around).insert inside }

/-- A call site under the id of the inner call, with both methods without parameters as candidates,
that stands by itself. -/
def detached : CallSite := { id := 1, candidates := [17, 19] }

/-- Whether a candidate binds `V` to a list of the first captured wildcard of the session. -/
def bindsFirst (c : Candidate) : Bool :=
  (c.substitution.ty? 20).any (· == .cls 13 [.captured 1 .upper none])

/-- The context is looked up under the id of the call. So the second candidate is ranked after the
enclosing call was consulted, and capture, for the first, and alone it is not. -/
theorem not_independent_detached :
    detached.context = .standalone ∧ detached.args = [] ∧
    (∀ id ∈ detached.candidates, (outerLists.store.method? id).isSome = true) ∧
    ¬∃ cs, List.Forall₂ (outerLists.RankedAlone detached {}) detached.candidates cs ∧
      (outerLists.rankSite detached {}).1 = .ok ⟨1, cs.mergeSort Candidate.le⟩ := by
  have halone : ((outerLists.rankSite { detached with candidates := [19] } {}).1.toOption.map
      fun r => r.candidates.any bindsFirst) = some true := by decide +kernel
  have htogether : ((outerLists.rankSite detached {}).1.toOption.map
      fun r => r.candidates.any bindsFirst) = some false := by decide +kernel
  refine ⟨rfl, rfl, by decide +kernel, ?_⟩
  rintro ⟨cs, hcs, hr⟩
  obtain ⟨d, hd, hranked⟩ := exists_mem_of_forall₂ hcs (List.mem_cons_of_mem 17 List.mem_cons_self)
  rw [hranked.2] at halone
  rw [hr] at htogether
  have hbinds : [d].any bindsFirst = true := Option.some.inj halone
  have hnone : (cs.mergeSort Candidate.le).any bindsFirst = false := Option.some.inj htogether
  rw [List.any_cons, List.any_nil, Bool.or_false] at hbinds
  exact List.any_eq_false.1 hnone d (List.mem_mergeSort.2 hd) hbinds

end Engine

end GenericCalls

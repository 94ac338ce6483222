import GenericCalls.Proofs.Ranking.Errors
import GenericCalls.Proofs.Scenario.Building
import GenericCalls.Proofs.Scenario.Reports

/-! # References of a loaded scenario

A scenario refers to methods and calls by their names. Loading resolves each of them or refuses the
scenario, so that in a loaded one every candidate is a declared method and every argument that is a
call is there. A call without a declared context has its place among the arguments of another call
as its context, if it has one. Ranking then meets no call and no method that is unknown. -/

namespace GenericCalls

open Engine

namespace Scenario

variable {names : List String} {slots : List (CallId × CallContext)} {d : Document} {sc : Scenario}
  {e : CallEntry} {call : CallId} {site : CallSite}

/-! ### Names -/

theorem getElem?_eq_some_iff_idxOf? (h : names.Nodup) (i : Nat) (name : String) :
    names[i]? = some name ↔ names.idxOf? name = some i := by
  rw [List.getElem?_eq_some_iff, List.idxOf?_eq_some_iff]
  constructor
  · rintro ⟨hi, hname⟩
    refine ⟨hi, hname, fun j hj heq => ?_⟩
    have hsame : j = i := h.getElem_inj_iff.1 (heq.trans hname.symm)
    omega
  · exact fun ⟨hi, hname, _⟩ => ⟨hi, hname⟩

/-! ### Contexts -/

theorem lookup_eq_some_iff (h : (slots.map Prod.fst).Nodup) {context : CallContext} :
    slots.lookup call = some context ↔ (call, context) ∈ slots := by
  refine ⟨mem_of_lookup, fun hmem => ?_⟩
  have hsome : (slots.lookup call).isSome = true :=
    List.lookup_isSome_iff.2 ⟨_, hmem, beq_self_eq_true call⟩
  obtain ⟨found, hfound⟩ := Option.isSome_iff_exists.1 hsome
  cases List.inj_on_of_nodup_map h (mem_of_lookup hfound) hmem rfl
  exact hfound

theorem LoadsAll.lookup_eq_some_iff {es : List CallEntry} {g : CallGraph} {sites : List CallSite}
    (h : LoadsAll es g slots sites) {outer : CallId} {index : Nat} :
    slots.lookup call = some (.argument outer index) ↔ g.SitsAt call outer index := by
  rw [Scenario.lookup_eq_some_iff h.distinct, ← CallGraph.mem_slots, ← List.mem_reverse]
  constructor
  · intro hmem
    obtain ⟨⟨c, o, i⟩, hslot, hc, hplace⟩ := exists_mem_of_forall₂ h.forall₂_found.flip hmem
    cases hc
    cases hplace
    exact hslot
  · intro hmem
    obtain ⟨⟨c, context⟩, hslot, hc, hplace⟩ := exists_mem_of_forall₂ h.forall₂_found hmem
    cases hc
    cases hplace
    exact hslot

/-- A call without a declared context has its slot as context, if it sits in one. -/
theorem context_eq_argument_iff {methods : MethodNames} {sites : List CallSite}
    (hloads : LoadsAll d.calls sc.calls slots sites)
    (hread : Read sc.store methods names slots call e site) (hcontext : e.context = none)
    (outer : CallId) (index : Nat) :
    site.context = .argument outer index ↔ sc.calls.SitsAt call outer index := by
  obtain ⟨caller, hslot⟩ := hread.context
  rw [hcontext] at hslot
  have heq : (slots.lookup call).getD .standalone = site.context := Except.ok.inj hslot
  rw [← heq, ← hloads.lookup_eq_some_iff]
  cases hlookup : slots.lookup call with
  | none => exact ⟨nofun, nofun⟩
  | some context => exact ⟨congrArg some, Option.some.inj⟩

/-! ### Loaded scenarios -/

theorem LoadsAll.exists_read {methods : MethodNames} {sites : List CallSite}
    (hloads : LoadsAll d.calls sc.calls slots sites)
    (hreads : List.Forall₂ (fun e site => Read sc.store methods names slots e.2 e.1 site)
      d.calls.zipIdx sites) (hsite : sc.calls.site? call = some site) :
    ∃ e, d.calls[call]? = some e ∧ Read sc.store methods names slots call e site := by
  obtain ⟨hmem, rfl⟩ := hloads.mem_of_site? hsite
  obtain ⟨⟨e, i⟩, he, hread⟩ := exists_mem_of_forall₂ hreads.flip hmem
  have hid : site.id = i := hread.id_eq
  rw [hid]
  exact ⟨e, List.mk_mem_zipIdx_iff_getElem?.1 he, hread⟩

theorem linked_engine (hload : ofDocument d = .ok sc) (options : Options) :
    (sc.engine options).Linked := by
  obtain ⟨_, _, _, methods, slots, sites, hdeclared, hreads, hloads⟩ :=
    exists_reads_of_ofDocument hload
  refine ⟨fun hsite => ?_, fun hsite c hc => ?_, fun hsite hcontext => ?_⟩
  · obtain ⟨e, _, hread⟩ := hloads.exists_read hreads hsite
    exact hread.declared hdeclared
  · exact hloads.complete ⟨_, hsite, hc⟩
  · obtain ⟨outer, houter, _⟩ := hloads.placed hsite hcontext
    exact CallGraph.mem_ids_of_site houter

/-- Loading resolves all references. Candidates are declared methods, and arguments are calls of the
scenario. A call without a declared context has a place among the arguments of another call as its
context exactly if it is there, and it is in one place at most. Calls and their names correspond.
Every call is ranked without error, and within its ranking no error shows at any depth, however it
would be handled. -/
theorem references_resolved (hload : ofDocument d = .ok sc) :
    (∀ call site, sc.calls.site? call = some site →
      (∀ id ∈ site.candidates, ∃ method, sc.store.method? id = some method) ∧
      ∀ c, .call c ∈ site.args → c ∈ sc.calls.ids) ∧
    (∀ call e, d.calls[call]? = some e → ∃ site, sc.calls.site? call = some site ∧
      (e.context = none → ∀ outer index,
        site.context = .argument outer index ↔ sc.calls.SitsAt call outer index)) ∧
    (∀ call outer index outer' index', sc.calls.SitsAt call outer index →
      sc.calls.SitsAt call outer' index' → outer = outer' ∧ index = index') ∧
    (∀ call name, sc.callName? call = some name ↔ sc.callNamed? name = some call) ∧
    (∀ call, call ∈ sc.calls.ids ↔ ∃ name, sc.callName? call = some name) ∧
    (∀ name, name ∈ d.calls.map CallEntry.id ↔ ∃ call, sc.callNamed? name = some call) ∧
    ∀ options, ∀ call ∈ sc.calls.ids, (∃ res, sc.rank options call = .ok res) ∧
      ∀ handle n, (sc.engine options).rankHandling handle n call =
        (sc.engine options).rankWithin n call := by
  obtain ⟨_, hnames, hnodup, methods, slots, sites, hdeclared, hreads, hloads⟩ :=
    exists_reads_of_ofDocument hload
  have hwritten (call : CallId) (e : CallEntry) (he : d.calls[call]? = some e) :
      ∃ site, sc.calls.site? call = some site ∧ Read sc.store methods
        (d.calls.map CallEntry.id) slots call e site := by
    obtain ⟨site, hmem, hread⟩ :=
      exists_mem_of_forall₂ hreads (List.mk_mem_zipIdx_iff_getElem?.2 he)
    exact ⟨site, hloads.site?_of_mem hmem hread.id_eq, hread⟩
  have hcorrespond (call : CallId) (name : String) :
      sc.callName? call = some name ↔ sc.callNamed? name = some call := by
    unfold callName? callNamed?
    rw [hnames]
    exact getElem?_eq_some_iff_idxOf? hnodup call name
  refine ⟨fun call site hsite => ⟨fun id hid => ?_, fun c hc => hloads.complete ⟨site, hsite, hc⟩⟩,
    fun call e he => ?_, fun call o i o' i' => CallGraph.sitsAt_unique hloads.nodup_slots,
    hcorrespond, fun call => ⟨fun hcall => ?_, fun ⟨name, hname⟩ => ?_⟩, fun name => ?_,
    fun options call hcall => ?_⟩
  · obtain ⟨e, _, hread⟩ := hloads.exists_read hreads hsite
    exact Option.isSome_iff_exists.1 (hread.declared hdeclared id hid)
  · obtain ⟨site, hsite, hread⟩ := hwritten call e he
    exact ⟨site, hsite, context_eq_argument_iff hloads hread⟩
  · obtain ⟨site, hsite⟩ := CallGraph.exists_site_of_mem_ids hcall
    obtain ⟨e, he, _⟩ := hloads.exists_read hreads hsite
    exact ⟨e.id, by rw [callName?, hnames, List.getElem?_map, he, Option.map_some]⟩
  · rw [callName?, hnames, List.getElem?_map, Option.map_eq_some_iff] at hname
    obtain ⟨e, he, _⟩ := hname
    obtain ⟨site, hsite, _⟩ := hwritten call e he
    exact CallGraph.mem_ids_of_site hsite
  · rw [List.mem_iff_getElem?]
    refine exists_congr fun call => ?_
    rw [← hcorrespond, callName?, hnames]
  · have hlinked := linked_engine hload options
    exact ⟨exists_resolution_of_rankCall hlinked hcall {},
      fun handle n => rankHandling_eq hlinked handle n hcall⟩

theorem references_resolved_nestedScenario :
    ofDocument nestedDocument = .ok nestedScenario ∧
      (∀ call name, nestedScenario.callName? call = some name ↔
        nestedScenario.callNamed? name = some call) ∧
      ∀ options, ∀ call ∈ nestedScenario.calls.ids,
        ∃ res, nestedScenario.rank options call = .ok res := by
  obtain ⟨_, _, _, hcorrespond, _, _, hrank⟩ := references_resolved ofDocument_nestedDocument
  exact ⟨ofDocument_nestedDocument, hcorrespond, fun options call hcall =>
    (hrank options call hcall).1⟩

end Scenario

end GenericCalls

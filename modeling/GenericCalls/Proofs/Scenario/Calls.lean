import GenericCalls.Proofs.Call.Forest
import GenericCalls.Proofs.Traversal
import GenericCalls.Proofs.Ty.Substitution
import GenericCalls.Scenario.Load
import Mathlib.Data.List.Forall2

/-! # The calls of a loaded scenario

Loading numbers the calls in the order in which they are written, resolves the names of those that
are arguments, and refuses a call that is an argument twice. A call that is an argument learns from
its slot what its context is. So the calls of a loaded scenario form a forest, unless some call is
nested in itself, and every call that is an argument is among them. -/

namespace GenericCalls

theorem KeyedList.putEntry_of_not_mem {κ ν : Type} [DecidableEq κ] {k : κ} (x : ν)
    {l : List (κ × ν)} (h : k ∉ l.map Prod.fst) : putEntry k x l = l ++ [(k, x)] := by
  induction l with
  | nil => rfl
  | cons e rest ih =>
    obtain ⟨j, y⟩ := e
    simp only [List.map_cons, List.mem_cons, not_or] at h
    rw [putEntry, if_neg (Ne.symm h.1), ih h.2, List.cons_append]

namespace Scenario

variable {α β : Type} {s : Store} {scope : TypeExpr.Scope} {methods : MethodNames}
  {names : List String} {slots : List (CallId × CallContext)} {id : CallId} {e : CallEntry}
  {es : List CallEntry} {site : CallSite} {g g' : CallGraph}

/-! ### Loading without error -/

theorem read_of_readType {input : String} {t : Ty} (h : readType s scope input = .ok t) :
    TypeExpr.read s scope input = .ok t := by
  unfold readType at h
  split at h
  · rename_i u hu
    cases h
    exact hu
  · cases h

/-! ### Calls -/

/-- An argument is loaded as the call that it names, or as none. -/
inductive LoadsArg (names : List String) : ArgEntry → Argument → Prop where
  | known {a : ArgEntry} {ty : Option Ty} (h : ∀ name, a ≠ .call name) :
      LoadsArg names a (.known ty)
  | call {name : String} {c : CallId} (h : callOf names name = .ok c) :
      LoadsArg names (.call name) (.call c)

/-- A call is loaded under its number, with its arguments in their places. If its context is a slot,
then that slot was found to hold the call. -/
structure Loads (names : List String) (slots : List (CallId × CallContext))
    (e : CallEntry × CallId) (site : CallSite) : Prop where
  id_eq : site.id = e.2
  args : List.Forall₂ (LoadsArg names) e.1.args site.args
  context : ∀ slot ∈ site.context.slot?, (e.2, .argument slot.1 slot.2) ∈ slots

theorem loadsArg_of_loadArg {a : ArgEntry} {b : Argument}
    (h : loadArg s scope names a = .ok b) : LoadsArg names a b := by
  cases a with
  | untyped =>
    cases h
    exact .known nofun
  | typed input =>
    obtain ⟨t, _, h⟩ := exists_of_bind_ok h
    cases h
    exact .known nofun
  | call name =>
    obtain ⟨c, hc, h⟩ := exists_of_bind_ok h
    cases h
    exact .call hc

theorem cases_of_loadContext {entry : ContextEntry} {context : CallContext}
    (h : loadContext s scope entry = .ok context) :
    context = .standalone ∨ context = .returned none ∨
      ∃ input t, readType s scope input = .ok t ∧
        (context = .initial t ∨ context = .assignment t ∨ context = .returned (some t)) := by
  cases entry with
  | standalone =>
    cases h
    exact .inl rfl
  | initial input =>
    obtain ⟨t, ht, h⟩ := exists_of_bind_ok h
    cases h
    exact .inr (.inr ⟨input, t, ht, .inl rfl⟩)
  | assignment input =>
    obtain ⟨t, ht, h⟩ := exists_of_bind_ok h
    cases h
    exact .inr (.inr ⟨input, t, ht, .inr (.inl rfl)⟩)
  | returned input =>
    cases input with
    | none =>
      cases h
      exact .inr (.inl rfl)
    | some input =>
      obtain ⟨t, ht, h⟩ := exists_of_bind_ok h
      cases h
      exact .inr (.inr ⟨input, t, ht, .inr (.inr rfl)⟩)

theorem slot?_of_loadContext {entry : ContextEntry} {context : CallContext}
    (h : loadContext s scope entry = .ok context) : context.slot? = none := by
  rcases cases_of_loadContext h with rfl | rfl | ⟨_, t, _, rfl | rfl | rfl⟩ <;> rfl

theorem mem_of_lookup {k : CallId} {context : CallContext} (h : slots.lookup k = some context) :
    (k, context) ∈ slots := by
  induction slots with
  | nil => cases h
  | cons slot rest ih =>
    obtain ⟨j, other⟩ := slot
    rw [List.lookup_cons] at h
    split at h
    · rename_i hk
      cases h
      rw [eq_of_beq hk]
      exact List.mem_cons_self
    · exact List.mem_cons_of_mem _ (ih h)

/-- The type parameters that the type expressions of a call may name: those of its caller. -/
def callerScope : Option ClassId → Store → TypeExpr.Scope
  | some c, s => TypeExpr.Scope.withClass .empty s c
  | none, _ => .empty

def receiverTy (s : Store) (e : CallEntry) : Loading (Option Ty) := do
  let caller ← e.caller.mapM (classOf s)
  e.receiver.mapM (readType s (callerScope caller s))

theorem exists_caller_of_receiverTy {t : Ty} (h : receiverTy s e = .ok (some t)) :
    ∃ caller input, e.caller.mapM (classOf s) = .ok caller ∧
      readType s (callerScope caller s) input = .ok t := by
  obtain ⟨caller, hcaller, h⟩ := exists_of_bind_ok h
  cases hreceiver : e.receiver with
  | none =>
    rw [hreceiver] at h
    cases h
  | some input =>
    rw [hreceiver] at h
    obtain ⟨t, ht, h⟩ := exists_of_bind_ok h
    cases h
    exact ⟨caller, input, hcaller, ht⟩

theorem exists_read_of_receiverTy {t : Ty} (h : receiverTy s e = .ok (some t)) :
    ∃ caller input, readType s (callerScope caller s) input = .ok t := by
  obtain ⟨caller, input, _, ht⟩ := exists_caller_of_receiverTy h
  exact ⟨caller, input, ht⟩

/-- The context of a call: the declared one, or else its slot. -/
def contextOf (s : Store) (scope : TypeExpr.Scope) (slots : List (CallId × CallContext))
    (id : CallId) : Option ContextEntry → Loading CallContext
  | some entry => loadContext s scope entry
  | none => pure ((slots.lookup id).getD .standalone)

theorem mapM_some_bind {γ : Type} (f : α → Loading β) (a : α) (k : Option β → Loading γ) :
    (some a).mapM f >>= k = f a >>= fun b => k (some b) := by
  cases h : f a <;> simp [h] <;> rfl

theorem loadCall_eq (s : Store) (methods : MethodNames) (names : List String)
    (slots : List (CallId × CallContext)) (id : CallId) (e : CallEntry) :
    loadCall s methods names slots id e = do
      let caller ← e.caller.mapM (classOf s)
      let scope := callerScope caller s
      let candidates ← e.candidates.mapM (methodsOf methods)
      let args ← e.args.mapM (loadArg s scope names)
      let context ← contextOf s scope slots id e.context
      let typeArgs ← readTypes s scope e.typeArgs
      let receiver ← e.receiver.mapM (readType s scope)
      return {
        id, kind := e.kind, candidates := candidates.flatten, args, context, typeArgs
        given := (receiver.map (receiverBindings s)).getD .empty, caller } := by
  unfold loadCall
  refine bind_congr fun caller => bind_congr fun candidates => ?_
  cases caller <;> cases e.context <;>
  · refine bind_congr fun args => bind_congr fun context => bind_congr fun typeArgs => ?_
    cases e.receiver with
    | none => rfl
    | some input =>
      rw [mapM_some_bind]
      rfl

structure Read (s : Store) (methods : MethodNames) (names : List String)
    (slots : List (CallId × CallContext)) (id : CallId) (e : CallEntry) (site : CallSite) :
    Prop where
  id_eq : site.id = id
  candidates : ∃ ms, e.candidates.mapM (methodsOf methods) = .ok ms ∧ site.candidates = ms.flatten
  args : ∃ caller, e.args.mapM (loadArg s (callerScope caller s) names) = .ok site.args
  context : ∃ caller, contextOf s (callerScope caller s) slots id e.context = .ok site.context
  typeArgs : ∃ caller, readTypes s (callerScope caller s) e.typeArgs = .ok site.typeArgs
  receiver : ∃ r, receiverTy s e = .ok r ∧ site.given = (r.map (receiverBindings s)).getD .empty

theorem read_of_loadCall (h : loadCall s methods names slots id e = .ok site) :
    Read s methods names slots id e site := by
  rw [loadCall_eq] at h
  obtain ⟨caller, hcaller, h⟩ := exists_of_bind_ok h
  obtain ⟨candidates, hcandidates, h⟩ := exists_of_bind_ok h
  obtain ⟨args, hargs, h⟩ := exists_of_bind_ok h
  obtain ⟨context, hcontext, h⟩ := exists_of_bind_ok h
  obtain ⟨typeArgs, htypeArgs, h⟩ := exists_of_bind_ok h
  obtain ⟨receiver, hreceiver, h⟩ := exists_of_bind_ok h
  cases h
  refine ⟨rfl, ⟨candidates, hcandidates, rfl⟩, ⟨caller, hargs⟩, ⟨caller, hcontext⟩,
    ⟨caller, htypeArgs⟩, receiver, ?_, rfl⟩
  unfold receiverTy
  rw [hcaller]
  exact hreceiver

theorem loads_of_read (hread : Read s methods names slots id e site) :
    Loads names slots (e, id) site := by
  obtain ⟨caller, hargs⟩ := hread.args
  refine ⟨hread.id_eq, (forall₂_of_mapM_ok hargs).imp fun a b => loadsArg_of_loadArg,
    fun slot hslot => ?_⟩
  obtain ⟨caller, hcontext⟩ := hread.context
  cases hdeclared : e.context with
  | some entry =>
    rw [hdeclared] at hcontext
    rw [slot?_of_loadContext hcontext] at hslot
    cases hslot
  | none =>
    rw [hdeclared] at hcontext
    obtain heq : (slots.lookup id).getD .standalone = site.context := Except.ok.inj hcontext
    rw [← heq] at hslot
    cases hfound : slots.lookup id with
    | none =>
      rw [hfound] at hslot
      cases hslot
    | some found =>
      rw [hfound] at hslot
      cases found with
      | argument outer index =>
        cases hslot
        exact mem_of_lookup hfound
      | _ => cases hslot

/-- Calls are loaded one after another, behind those that are there already. -/
theorem forall₂_of_loadCallsFrom (h : loadCallsFrom s methods names slots id es g = .ok g')
    (hids : ∀ k ∈ g.ids, Nat.lt k id) :
    ∃ sites, List.Forall₂ (fun e site => loadCall s methods names slots e.2 e.1 = .ok site)
        (es.zipIdx id) sites ∧
      g'.sites.entries = g.sites.entries ++ sites.map fun site => (site.id, site) := by
  induction es generalizing id g with
  | nil =>
    cases h
    exact ⟨[], .nil, (List.append_nil _).symm⟩
  | cons e es ih =>
    obtain ⟨site, hsite, h⟩ := exists_of_bind_ok h
    have hid : site.id = id := (read_of_loadCall hsite).id_eq
    -- Ids are positions, so no call before has the id of this one.
    have hnew : site.id ∉ g.ids := fun hmem => Nat.lt_irrefl _ (hid ▸ hids _ hmem)
    have hids' : ∀ k ∈ (g.insert site).ids, Nat.lt k (id + 1) := by
      intro k hk
      rw [CallGraph.ids_insert, if_neg hnew, List.mem_append, List.mem_singleton, hid] at hk
      rcases hk with hk | rfl
      · exact Nat.lt_succ_of_lt (hids k hk)
      · exact Nat.lt_succ_self k
    obtain ⟨sites, hsites, hentries⟩ := ih h hids'
    refine ⟨site :: sites, .cons hsite hsites, ?_⟩
    have hput : (g.insert site).sites.entries = g.sites.entries ++ [(site.id, site)] :=
      KeyedList.putEntry_of_not_mem site hnew
    rw [hentries, hput, List.append_assoc]
    rfl

/-! ### Slots -/

/-- A written slot and a loaded one: the name of a call and its place, and the call in it. -/
def NamesSlot (names : List String) (written : String × CallContext)
    (slot : CallId × CallId × Nat) : Prop :=
  callOf names written.1 = .ok slot.1 ∧ written.2 = .argument slot.2.1 slot.2.2

theorem forall₂_zipIdx {R : α → β → Prop} {as : List α} {bs : List β} (h : List.Forall₂ R as bs)
    (k : Nat) :
    List.Forall₂ (fun a b => R a.1 b.1 ∧ a.2 = b.2) (as.zipIdx k) (bs.zipIdx k) := by
  induction h generalizing k with
  | nil => exact .nil
  | cons hab _ ih => exact .cons ⟨hab, rfl⟩ (ih (k + 1))

theorem forall₂_slotsOf {args : List ArgEntry} {args' : List Argument} (outer : CallId)
    (h : List.Forall₂ (LoadsArg names) args args') :
    List.Forall₂ (NamesSlot names) (slotsOf outer args) (CallGraph.slotsAmong outer args') := by
  refine List.rel_filterMap ?_ (forall₂_zipIdx h 0)
  rintro ⟨entry, i⟩ ⟨arg, j⟩ ⟨hload, rfl⟩
  cases hload with
  | known hnone =>
    cases entry with
    | call name => exact absurd rfl (hnone name)
    | untyped => exact .none
    | typed input => exact .none
  | call hc => exact .some ⟨hc, rfl⟩

theorem forall₂_slots {written : List (CallEntry × CallId)} {sites : List CallSite}
    (h : List.Forall₂ (Loads names slots) written sites)
    (hentries : g.sites.entries = sites.map fun site => (site.id, site)) :
    List.Forall₂ (NamesSlot names) (written.flatMap fun e => slotsOf e.2 e.1.args) g.slots := by
  unfold CallGraph.slots
  rw [hentries, List.flatMap_map]
  refine List.rel_flatMap h fun e site hsite => ?_
  dsimp only
  rw [hsite.id_eq]
  exact forall₂_slotsOf _ hsite.args

/-- A written slot and a found one: the name of a call and its place, and the call and its place. -/
def NamesPlace (names : List String) (written : String × CallContext)
    (found : CallId × CallContext) : Prop :=
  callOf names written.1 = .ok found.1 ∧ written.2 = found.2

/-- The found slots are those that are written, in reverse order, and no call is in two of them. -/
theorem forall₂_of_loadSlots {written : List (String × CallContext)}
    {found all : List (CallId × CallContext)} (h : loadSlots names written found = .ok all)
    (hnodup : (found.map Prod.fst).Nodup) :
    ∃ new, all = new.reverse ++ found ∧ (all.map Prod.fst).Nodup ∧
      List.Forall₂ (NamesPlace names) written new := by
  induction written generalizing found with
  | nil =>
    cases h
    exact ⟨[], rfl, hnodup, .nil⟩
  | cons w rest ih =>
    obtain ⟨name, context⟩ := w
    obtain ⟨inner, hinner, h⟩ := exists_of_bind_ok h
    split at h
    · cases h
    · rename_i hfresh
      have hnew : inner ∉ found.map Prod.fst := by
        intro hmem
        obtain ⟨c, hc, rfl⟩ := List.mem_map.1 hmem
        exact hfresh (List.lookup_isSome_iff.2 ⟨c, hc, beq_self_eq_true _⟩)
      obtain ⟨new, rfl, hall, hrel⟩ := ih h (List.nodup_cons.2 ⟨hnew, hnodup⟩)
      refine ⟨(inner, context) :: new, ?_, hall, .cons ⟨hinner, rfl⟩ hrel⟩
      rw [List.reverse_cons, List.append_assoc]
      rfl

/-! ### Loaded calls -/

theorem forall₂_of_common {γ : Type} {R : α → β → Prop} {S : α → γ → Prop} {T : β → γ → Prop}
    {as : List α} {bs : List β} {cs : List γ} (h : List.Forall₂ R as bs)
    (h' : List.Forall₂ S as cs) (hT : ∀ a b c, R a b → S a c → T b c) : List.Forall₂ T bs cs := by
  induction h generalizing cs with
  | nil =>
    cases h'
    exact .nil
  | cons hab _ ih =>
    obtain _ | ⟨hac, hrest⟩ := h'
    exact .cons (hT _ _ _ hab hac) (ih hrest)

theorem lt_of_callOf {name : String} {c : CallId} (h : callOf names name = .ok c) :
    Nat.lt c names.length := by
  unfold callOf at h
  split at h
  · rename_i i hi
    cases h
    exact (List.findIdx?_eq_some_iff_getElem.1 hi).1
  · cases h

/-- What loading makes of written calls: the calls in order, with the slots that were found. -/
structure LoadsAll (es : List CallEntry) (g : CallGraph) (slots : List (CallId × CallContext))
    (sites : List CallSite) : Prop where
  calls : List.Forall₂ (Loads (es.map CallEntry.id) slots) es.zipIdx sites
  entries : g.sites.entries = sites.map fun site => (site.id, site)
  distinct : (slots.map Prod.fst).Nodup
  found : List.Forall₂ (NamesPlace (es.map CallEntry.id))
    (es.zipIdx.flatMap fun e => slotsOf e.2 e.1.args) slots.reverse

theorem nodup_of_firstRepeated? {seen : List String} (h : firstRepeated? seen names = none) :
    names.Nodup ∧ ∀ name ∈ names, name ∉ seen := by
  induction names generalizing seen with
  | nil => exact ⟨List.nodup_nil, nofun⟩
  | cons name rest ih =>
    rw [firstRepeated?] at h
    split at h
    · cases h
    · rename_i hseen
      obtain ⟨hnodup, hfresh⟩ := ih h
      refine ⟨List.nodup_cons.2 ⟨fun hmem => ?_, hnodup⟩, List.forall_mem_cons.2 ⟨?_, ?_⟩⟩
      · exact hfresh name hmem List.mem_cons_self
      · exact fun hmem => hseen (List.contains_iff_mem.2 hmem)
      · exact fun other hother hmem => hfresh other hother (List.mem_cons_of_mem name hmem)

theorem exists_reads_of_loadCalls (h : loadCalls s methods es = .ok g) :
    ∃ slots sites, (es.map CallEntry.id).Nodup ∧
      List.Forall₂ (fun e site => Read s methods (es.map CallEntry.id) slots e.2 e.1 site)
        es.zipIdx sites ∧ LoadsAll es g slots sites := by
  unfold loadCalls at h
  dsimp only at h
  split at h
  · cases h
  · rename_i hnames
    obtain ⟨slots, hslots, h⟩ := exists_of_bind_ok h
    obtain ⟨sites, hsites, hentries⟩ := forall₂_of_loadCallsFrom h nofun
    obtain ⟨new, hnew, hdistinct, hfound⟩ := forall₂_of_loadSlots hslots List.nodup_nil
    have hreads := hsites.imp fun _ _ => read_of_loadCall
    have hnone : firstRepeated? [] (es.map CallEntry.id) = none :=
      Option.eq_none_iff_forall_ne_some.2 hnames
    refine ⟨slots, sites, (nodup_of_firstRepeated? hnone).1, hreads,
      hreads.imp fun _ _ => loads_of_read, hentries, hdistinct, ?_⟩
    rw [hnew, List.append_nil, List.reverse_reverse]
    exact hfound

theorem exists_of_loadCalls (h : loadCalls s methods es = .ok g) :
    ∃ slots sites, LoadsAll es g slots sites := by
  obtain ⟨slots, sites, _, _, hloads⟩ := exists_reads_of_loadCalls h
  exact ⟨slots, sites, hloads⟩

namespace LoadsAll

variable {sites : List CallSite}

theorem site?_of_mem (h : LoadsAll es g slots sites) {site : CallSite} (hmem : site ∈ sites)
    {call : CallId} (hid : site.id = call) : g.site? call = some site := by
  refine KeyedList.mem_entries_iff.1 ?_
  rw [h.entries]
  exact List.mem_map.2 ⟨site, hmem, by rw [hid]⟩

theorem mem_of_site? (h : LoadsAll es g slots sites) {call : CallId} {site : CallSite}
    (hsite : g.site? call = some site) : site ∈ sites ∧ site.id = call := by
  have hmem := KeyedList.mem_entries_iff.2 hsite
  rw [h.entries] at hmem
  obtain ⟨other, hother, heq⟩ := List.mem_map.1 hmem
  cases heq
  exact ⟨hother, rfl⟩

theorem keyed (h : LoadsAll es g slots sites) : g.Keyed := fun hsite => (h.mem_of_site? hsite).2

theorem forall₂_found (h : LoadsAll es g slots sites) :
    List.Forall₂ (fun slot found => slot.1 = found.1 ∧ .argument slot.2.1 slot.2.2 = found.2)
      g.slots slots.reverse := by
  refine forall₂_of_common (forall₂_slots h.calls h.entries) h.found
    fun w slot found hs hf => ⟨?_, ?_⟩
  · exact Except.ok.inj (hs.1.symm.trans hf.1)
  · exact hs.2.symm.trans hf.2

theorem nodup_slots (h : LoadsAll es g slots sites) : (g.slots.map Prod.fst).Nodup := by
  have hsame : g.slots.map Prod.fst = slots.reverse.map Prod.fst := by
    rw [← List.forall₂_eq_eq_eq, List.forall₂_map_left_iff, List.forall₂_map_right_iff]
    exact h.forall₂_found.imp fun _ _ hab => hab.1
  rw [hsame, List.map_reverse, List.nodup_reverse]
  exact h.distinct

theorem placed (h : LoadsAll es g slots sites) {call outer : CallId} {site : CallSite} {index : Nat}
    (hsite : g.site? call = some site) (hcontext : site.context = .argument outer index) :
    g.SitsAt call outer index := by
  obtain ⟨hmem, rfl⟩ := h.mem_of_site? hsite
  obtain ⟨e, _, hloads⟩ := exists_mem_of_forall₂ h.calls.flip hmem
  have hslot : (site.id, CallContext.argument outer index) ∈ slots := by
    rw [hloads.id_eq]
    refine hloads.context (outer, index) ?_
    rw [hcontext]
    rfl
  obtain ⟨⟨c, o, i⟩, hin, hc, hplace⟩ :=
    exists_mem_of_forall₂ h.forall₂_found.flip (List.mem_reverse.2 hslot)
  cases hc
  cases hplace
  exact CallGraph.mem_slots.1 hin

theorem complete (h : LoadsAll es g slots sites) : g.Complete := by
  intro outer inner hnests
  obtain ⟨index, hslot⟩ := hnests.exists_sitsAt
  have hslots := forall₂_slots h.calls h.entries
  obtain ⟨w, _, hw, _⟩ := exists_mem_of_forall₂ hslots.flip (CallGraph.mem_slots.2 hslot)
  have hlt := lt_of_callOf hw
  rw [List.length_map] at hlt
  have hwritten : (es[inner], inner) ∈ es.zipIdx :=
    List.mk_mem_zipIdx_iff_getElem?.2 (List.getElem?_eq_getElem hlt)
  obtain ⟨site, hsite, hloads⟩ := exists_mem_of_forall₂ h.calls hwritten
  exact CallGraph.mem_ids_of_site (h.site?_of_mem hsite hloads.id_eq)

/-- Loaded calls form a forest unless some call is nested in itself. -/
theorem forest (h : LoadsAll es g slots sites) (hacyclic : ∀ c, ¬Relation.TransGen g.Nests c c) :
    g.Forest where
  keyed := h.keyed
  single := CallGraph.sitsAt_unique h.nodup_slots
  placed := h.placed
  acyclic := hacyclic

end LoadsAll

theorem exists_of_ofDocument {d : Document} {sc : Scenario} (h : ofDocument d = .ok sc) :
    ∃ slots sites, LoadsAll d.calls sc.calls slots sites := by
  obtain ⟨s, _, h⟩ := exists_of_bind_ok h
  obtain ⟨⟨s, methods⟩, _, h⟩ := exists_of_bind_ok h
  obtain ⟨calls, hcalls, h⟩ := exists_of_bind_ok h
  cases h
  exact exists_of_loadCalls hcalls

end Scenario

end GenericCalls

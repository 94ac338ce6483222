import GenericCalls.Proofs.Scenario.Calls
import GenericCalls.Proofs.TypeExpr.WellFormed

/-! # The declarations of a loaded scenario

Loading only declares and completes: classes are introduced to the built-in ones, and what is read
after that is well formed and enriches the store. Every method that a name stands for is declared in
the store of the loaded scenario. -/

namespace GenericCalls.Scenario
open Store

variable {s s' : Store} {scope : TypeExpr.Scope}

/-! ### Reading -/

theorem wellFormed_of_readType (hscope : scope.Declared s) {input : String} {t : Ty}
    (h : readType s scope input = .ok t) : s.wellFormed t = true :=
  TypeExpr.wellFormed_of_read hscope (read_of_readType h)

theorem wellFormed_of_readTypes (hscope : scope.Declared s) {inputs : List String} {ts : List Ty}
    (h : readTypes s scope inputs = .ok ts) : ∀ t ∈ ts, s.wellFormed t = true := by
  intro t ht
  obtain ⟨input, _, hread⟩ := exists_mem_of_forall₂ (forall₂_of_mapM_ok h).flip ht
  exact wellFormed_of_readType hscope hread

/-! ### Type parameters -/

theorem reflTransGen_declareParams {R : Store → Store → Prop} {owner : ParamOwner}
    (h : ∀ s name, R s (s.declareParam name owner).1) (es : List ParamEntry) (s : Store) :
    Relation.ReflTransGen R s (declareParams owner es s).1 := by
  induction es generalizing s with
  | nil => exact .refl
  | cons e es ih => exact .head (h s e.name) (ih _)

theorem enriched_declareParams (m : MethodId) (es : List ParamEntry) (s : Store) :
    Enriched s (declareParams (.method m) es s).1 :=
  reflTransGen_declareParams (fun s name => .declareParam s name m) es s

theorem named_declareParams (m : MethodId) (es : List ParamEntry) (s : Store) :
    ∀ a ∈ (es.map ParamEntry.name).zip (declareParams (.method m) es s).2,
      ((declareParams (.method m) es s).1.param? a.2).map ParamDecl.name = some a.1 := by
  induction es generalizing s with
  | nil => exact nofun
  | cons e es ih =>
    refine List.forall_mem_cons.2 ⟨?_, ih _⟩
    have hnew : (s.declareParam e.name (.method m)).1.param? (s.size + 1) =
        some { name := e.name, owner := .method m } := by
      rw [param?_eq_some_iff, decl?_declareParam, if_pos rfl]
    have hgrows := (enriched_declareParams m es (s.declareParam e.name (.method m)).1).grows
    obtain ⟨d, hd, hname⟩ := hgrows.param? hnew
    exact Option.map_eq_some_iff.2 ⟨d, hd, hname⟩

theorem enriched_of_loadBounds (hscope : scope.Declared s) {l : List (ParamId × ParamEntry)}
    (h : loadBounds scope l s = .ok s') : Enriched s s' := by
  induction l generalizing s with
  | nil =>
    cases h
    exact .refl
  | cons a rest ih =>
    obtain ⟨p, e⟩ := a
    unfold loadBounds at h
    split at h
    · exact ih hscope h
    · obtain ⟨bounds, hbounds, h⟩ := exists_of_bind_ok h
      have henriches : Enriches s (s.setBounds p bounds) :=
        .setBounds s p (wellFormed_of_readTypes hscope hbounds)
      exact .head henriches (ih (hscope.grows henriches.grows) h)

/-! ### Classes -/

theorem introduced_of_declareClasses {es : List ClassEntry} {cs : List ClassId}
    (h : declareClasses es s = .ok (s', cs)) : Introduced s s' := by
  induction es generalizing s cs with
  | nil =>
    cases h
    exact .refl
  | cons e es ih =>
    unfold declareClasses at h
    split at h
    · cases h
    · obtain ⟨⟨s'', cs'⟩, hrest, h⟩ := exists_of_bind_ok h
      cases h
      have hparams : Introduced (s.declareClass e.name e.kind).1
          (declareParams (.cls (s.size + 1)) e.typeParams (s.declareClass e.name e.kind).1).1 :=
        reflTransGen_declareParams (fun s name => .declareParam s name _) _ _
      exact .head (.declareClass s e.name e.kind) (hparams.trans (ih hrest))

theorem enriched_of_loadSupertypes (hscope : scope.Declared s) {c : ClassId} {inputs : List String}
    (h : loadSupertypes scope c inputs s = .ok s') : Enriched s s' := by
  induction inputs generalizing s with
  | nil =>
    cases h
    exact .refl
  | cons input rest ih =>
    unfold loadSupertypes at h
    obtain ⟨t, ht, h⟩ := exists_of_bind_ok h
    split at h
    · rename_i d args
      have henriches : Enriches s (s.addSupertype c ⟨d, args⟩) :=
        .addSupertype s c (wellFormed_of_readType hscope ht)
      exact .head henriches (ih (hscope.grows henriches.grows) h)
    · cases h

theorem enriched_of_completeClasses {l : List (ClassId × ClassEntry)}
    (h : completeClasses l s = .ok s') : Enriched s s' := by
  induction l generalizing s with
  | nil =>
    cases h
    exact .refl
  | cons a rest ih =>
    obtain ⟨c, e⟩ := a
    obtain ⟨s₁, hbounds, h⟩ := exists_of_bind_ok h
    obtain ⟨s₂, hsupertypes, h⟩ := exists_of_bind_ok h
    have hscope := (TypeExpr.Scope.declared_empty s).withClass c
    have henriched := enriched_of_loadBounds hscope hbounds
    have hscope' := hscope.grows henriched.grows
    exact henriched.trans ((enriched_of_loadSupertypes hscope' hsupertypes).trans (ih h))

/-! ### Methods -/

theorem declared_callerScope (owner : Option ClassId) (s : Store) :
    (callerScope owner s).Declared s := by
  cases owner with
  | none => exact TypeExpr.Scope.declared_empty s
  | some c => exact (TypeExpr.Scope.declared_empty s).withClass c

theorem method?_declareMethod (s : Store) (name : String) (kind : CallableKind)
    (owner : Option ClassId) :
    ((s.declareMethod name kind owner).1.method? (s.size + 1)).isSome = true := by
  refine method?_isSome_iff.2 ⟨.method { name, kind, owner }, ?_, rfl⟩
  rw [declareMethod, decl?_declare, if_pos rfl]

theorem loadMethod_eq (e : MethodEntry) (s : Store) :
    loadMethod e s = do
      let owner ← e.owner.mapM (classOf s)
      let declared :=
        declareParams (.method (s.size + 1)) e.typeParams (s.declareMethod e.name e.kind owner).1
      let scope := (callerScope owner declared.1).withParams
        ((e.typeParams.map ParamEntry.name).zip declared.2)
      let s' ← loadBounds scope (declared.2.zip e.typeParams) declared.1
      let types ← readTypes s' scope e.params
      let returns ← e.returns.mapM (readType s' scope)
      let signed :=
        s'.setSignature (s.size + 1) (formalsOf types) (returns.getD (.prim .void)) e.variadic
      return (signed.setVisibility (s.size + 1) e.visibility, s.size + 1) := by
  unfold loadMethod
  refine bind_congr fun owner => ?_
  cases owner <;> rfl

theorem enriches_setSignature (hscope : scope.Declared s) {inputs : List String} {types : List Ty}
    (hformals : readTypes s scope inputs = .ok types) {output : Option String} {returns : Option Ty}
    (hreturns : output.mapM (readType s scope) = .ok returns) (m : MethodId) (variadic : Bool) :
    Enriches s (s.setSignature m (formalsOf types) (returns.getD (.prim .void)) variadic) := by
  refine .setSignature s m variadic (fun f hf => ?_) ?_
  · obtain ⟨i, hi, rfl⟩ := List.mem_mapIdx.1 hf
    exact wellFormed_of_readTypes hscope hformals _ (List.getElem_mem hi)
  · cases output with
    | none =>
      cases hreturns
      rfl
    | some input =>
      obtain ⟨t, ht, h⟩ := exists_of_bind_ok hreturns
      cases h
      exact wellFormed_of_readType hscope ht

theorem enriched_of_loadMethod {e : MethodEntry} {m : MethodId} (h : loadMethod e s = .ok (s', m)) :
    Enriched s s' ∧ (s'.method? m).isSome = true := by
  rw [loadMethod_eq] at h
  obtain ⟨owner, _, h⟩ := exists_of_bind_ok h
  have hparams := enriched_declareParams (s.size + 1) e.typeParams
    (s.declareMethod e.name e.kind owner).1
  have hnamed := named_declareParams (s.size + 1) e.typeParams
    (s.declareMethod e.name e.kind owner).1
  generalize declareParams _ _ _ = declared at h hparams hnamed
  obtain ⟨s₁, hbounds, h⟩ := exists_of_bind_ok h
  obtain ⟨types, htypes, h⟩ := exists_of_bind_ok h
  obtain ⟨returns, hreturns, h⟩ := exists_of_bind_ok h
  cases h
  have hscope := (declared_callerScope owner declared.1).withParams hnamed
  have hcompleted := enriched_of_loadBounds hscope hbounds
  have hsigned := enriches_setSignature (hscope.grows hcompleted.grows) htypes hreturns (s.size + 1)
    e.variadic
  have henriched : Enriched (s.declareMethod e.name e.kind owner).1 _ :=
    ((hparams.trans hcompleted).tail hsigned).tail (.setVisibility _ (s.size + 1) e.visibility)
  exact ⟨.head (.declareMethod s e.name e.kind owner) henriched,
    henriched.built.method?_isSome (method?_declareMethod s e.name e.kind owner)⟩

theorem enriched_of_loadMethods {es : List MethodEntry} {names : MethodNames}
    (h : loadMethods es s = .ok (s', names)) :
    Enriched s s' ∧ ∀ a ∈ names, (s'.method? a.2).isSome = true := by
  induction es generalizing s names with
  | nil =>
    cases h
    exact ⟨.refl, by simp⟩
  | cons e es ih =>
    obtain ⟨⟨s₁, m⟩, hmethod, h⟩ := exists_of_bind_ok h
    obtain ⟨⟨s₂, rest⟩, hrest, h⟩ := exists_of_bind_ok h
    cases h
    obtain ⟨henriched, hm⟩ := enriched_of_loadMethod hmethod
    obtain ⟨henriched', hnames⟩ := ih hrest
    refine ⟨henriched.trans henriched', fun a ha => ?_⟩
    rcases List.mem_append.1 ha with ha | ha
    · obtain ⟨name, _, rfl⟩ := List.mem_map.1 ha
      exact henriched'.built.method?_isSome hm
    · exact hnames a ha

/-! ### Candidates -/

theorem declared_of_methodsOf {methods : MethodNames} {name : String} {ms : List MethodId}
    (hmethods : ∀ a ∈ methods, (s.method? a.2).isSome = true)
    (h : methodsOf methods name = .ok ms) : ∀ m ∈ ms, (s.method? m).isSome = true := by
  unfold methodsOf at h
  split at h
  · cases h
  · cases h
    intro m hm
    obtain ⟨a, ha, heq⟩ := List.mem_filterMap.1 hm
    split at heq
    · cases heq
      exact hmethods a ha
    · cases heq

/-! ### Documents -/

/-- The stages in which a document is loaded: classes are introduced, the store is enriched, and
then calls are loaded. -/
theorem exists_stages_of_ofDocument {d : Document} {sc : Scenario} (h : ofDocument d = .ok sc) :
    (∃ s, Introduced standard s ∧ Enriched s sc.store) ∧
      sc.callNames = d.calls.map CallEntry.id ∧ ∃ methods,
        (∀ a ∈ methods, (sc.store.method? a.2).isSome = true) ∧
        loadCalls sc.store methods d.calls = .ok sc.calls := by
  obtain ⟨s, hclasses, h⟩ := exists_of_bind_ok h
  obtain ⟨⟨s', methods⟩, hmethods, h⟩ := exists_of_bind_ok h
  obtain ⟨calls, hcalls, h⟩ := exists_of_bind_ok h
  cases h
  obtain ⟨⟨s₁, cs⟩, hdeclare, hcomplete⟩ := exists_of_bind_ok hclasses
  obtain ⟨henriched, hdeclared⟩ := enriched_of_loadMethods hmethods
  exact ⟨⟨s₁, introduced_of_declareClasses hdeclare,
    (enriched_of_completeClasses hcomplete).trans henriched⟩, rfl, methods, hdeclared, hcalls⟩

theorem wellFormed_of_ofDocument {d : Document} {sc : Scenario} (h : ofDocument d = .ok sc) :
    sc.store.WellFormed := by
  obtain ⟨⟨s, hintroduced, henriched⟩, _⟩ := exists_stages_of_ofDocument h
  exact (plain_standard.introduced hintroduced).wellFormed.enriched henriched

/-- What is read when a document is loaded: its calls, under distinct names, and methods that are
declared. -/
theorem exists_reads_of_ofDocument {d : Document} {sc : Scenario} (h : ofDocument d = .ok sc) :
    sc.store.Owned ∧ sc.callNames = d.calls.map CallEntry.id ∧
      (d.calls.map CallEntry.id).Nodup ∧ ∃ methods slots sites,
        (∀ a ∈ methods, (sc.store.method? a.2).isSome = true) ∧
        List.Forall₂
          (fun e site => Read sc.store methods (d.calls.map CallEntry.id) slots e.2 e.1 site)
          d.calls.zipIdx sites ∧
        LoadsAll d.calls sc.calls slots sites := by
  obtain ⟨⟨s, hintroduced, henriched⟩, hnames, methods, hdeclared, hcalls⟩ :=
    exists_stages_of_ofDocument h
  obtain ⟨slots, sites, hnodup, hreads, hloads⟩ := exists_reads_of_loadCalls hcalls
  have howned := Store.owned_standard.built (hintroduced.built.trans henriched.built)
  exact ⟨howned, hnames, hnodup, methods, slots, sites, hdeclared, hreads, hloads⟩

theorem Read.declared {methods : MethodNames} {names : List String}
    {slots : List (CallId × CallContext)} {id : CallId} {e : CallEntry} {site : CallSite}
    (h : Read s methods names slots id e site)
    (hmethods : ∀ a ∈ methods, (s.method? a.2).isSome = true) :
    ∀ m ∈ site.candidates, (s.method? m).isSome = true := by
  obtain ⟨ms, hms, heq⟩ := h.candidates
  rw [heq]
  intro m hm
  obtain ⟨l, hl, hml⟩ := List.mem_flatten.1 hm
  obtain ⟨name, _, hname⟩ := exists_mem_of_forall₂ (forall₂_of_mapM_ok hms).flip hl
  exact declared_of_methodsOf hmethods hname m hml

end GenericCalls.Scenario

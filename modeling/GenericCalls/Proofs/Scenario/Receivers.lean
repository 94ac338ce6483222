import GenericCalls.Proofs.Ranking.AllOrNothing
import GenericCalls.Proofs.Scenario.Building
import GenericCalls.Proofs.Scenario.Reports
import GenericCalls.Proofs.TypeExpr.Recognition

/-! # Receivers

A receiver of a class type with type arguments binds the type parameters of its own class, and no
others. So the members of that class see its type arguments, while an inherited member is ranked
with the type parameters of the class that declares it. -/

namespace GenericCalls

namespace Substitution

/-! ### Bindings -/

variable {ps : List ParamId} {ts : List Ty} {p : ParamId} {t : Ty}

theorem get?_ofArgs_of_mem (hps : ps.Nodup) (hlength : ts.length = ps.length)
    (h : (p, t) ∈ ps.zip ts) : (ofArgs ps ts).get? p = some (.bound t) := by
  have hkeys : ((List.zipWith (fun p t => (p, Binding.bound t)) ps ts).map Prod.fst).Nodup := by
    have hfst : (ps.zip ts).map Prod.fst = ps := List.map_fst_zip (Nat.le_of_eq hlength.symm)
    rw [List.map_zipWith, ← List.map_uncurry_zip_eq_zipWith]
    exact hfst.symm ▸ hps
  have hget : (ofArgs ps ts).get? p =
      KeyedList.lookup p (List.zipWith (fun p t => (p, Binding.bound t)) ps ts) := by
    unfold get? ofArgs ofList KeyedList.ofList
    rw [KeyedList.get?_putAll _ hkeys, KeyedList.get?_empty, Option.or_none]
  rw [hget, ← KeyedList.mem_iff_lookup_eq_some hkeys, ← List.map_uncurry_zip_eq_zipWith]
  exact List.mem_map.2 ⟨(p, t), h, rfl⟩

theorem KeepsOutside.get?_eq {given σ : Substitution} (h : KeepsOutside ps given σ) (hp : p ∉ ps) :
    σ.get? p = given.get? p := by
  refine Option.ext fun b => ?_
  show σ.bindings.get? p = some b ↔ given.bindings.get? p = some b
  rw [← KeyedList.mem_entries_iff, ← KeyedList.mem_entries_iff, List.mem_iff_getElem?,
    List.mem_iff_getElem?]
  exact exists_congr fun i => h p hp i b

end Substitution

/-- What a substitution makes of a receiver of class `c` with type arguments: it replaces each type
parameter of `c` by the argument in its place, and no type parameter of another class. -/
structure SeesReceiver (s : Store) (c : ClassId) (args : List Ty) (σ : Substitution) : Prop where
  own : ∀ a ∈ (s.classParams c).zip args, σ.get? a.1 = some (.bound a.2)
  other : ∀ d, d ≠ c → ∀ p ∈ s.classParams d, σ.get? p = none

theorem Store.Owned.seesReceiver {s : Store} (h : s.Owned) {c : ClassId} {args : List Ty}
    (hlength : args.length = (s.classParams c).length) :
    SeesReceiver s c args (.ofArgs (s.classParams c) args) := by
  refine ⟨fun a ha => Substitution.get?_ofArgs_of_mem (h.nodup_classParams c) hlength ha,
    fun d hd p hp => Option.eq_none_iff_forall_ne_some.2 fun b hb => ?_⟩
  have hmem := (Substitution.get?_ofArgs hb).1
  have heq := (h.ownerOf?_classParams hp).symm.trans (h.ownerOf?_classParams hmem)
  cases heq
  exact hd rfl

/-- Bindings of type parameters of a method have no part in what is seen of a receiver. -/
theorem SeesReceiver.of_keepsOutside {s : Store} (hs : s.Owned) {c : ClassId} {args : List Ty}
    {given σ : Substitution} (h : SeesReceiver s c args given) {m : MethodId} {method : MethodDecl}
    (hmethod : s.method? m = some method)
    (hσ : Substitution.KeepsOutside method.typeParams given σ) : SeesReceiver s c args σ := by
  -- The type parameters of a method belong to no class, so binding them hides nothing.
  have hother {d : ClassId} {p : ParamId} (hp : p ∈ s.classParams d) : p ∉ method.typeParams := by
    intro hmem
    have heq := (hs.ownerOf?_classParams hp).symm.trans (hs.ownerOf?_typeParams hmethod hmem)
    cases heq
  refine ⟨fun a ha => ?_, fun d hd p hp => ?_⟩
  · rw [hσ.get?_eq (hother (List.of_mem_zip ha).1)]
    exact h.own a ha
  · rw [hσ.get?_eq (hother hp)]
    exact h.other d hd p hp

/-! ### Types of receivers -/

/-- A class type that is read has as many type arguments as the class has type parameters, or
none. -/
theorem TypeExpr.length_of_read {s : Store} {scope : Scope} {input : String} {c : ClassId}
    {args : List Ty} (h : read s scope input = .ok (.cls c args)) (hargs : args ≠ []) :
    args.length = (s.classParams c).length := by
  obtain ⟨e, _, us, hus, heq⟩ := read_eq_ok_iff.1 h
  cases hus with
  | join hd hrest => cases hrest <;> cases heq
  | single hd =>
    obtain rfl : Ty.cls c args = _ := heq
    cases hd with | array hd =>
    cases hd with | named hd =>
    cases hd with
    | bare hname =>
      cases resolve?_eq_some_iff.1 hname
      exact absurd rfl hargs
    | applied _ _ harity => exact harity

/-! ### Ranked candidates -/

namespace Engine
open Run

variable {e : Engine} {rank : CallId → Run Ranked} {call : CallId} {site : CallSite}
  {s t : Session} {c : ClassId} {args : List Ty}

/-- A candidate of a call site is ranked against arguments under a substitution that sees the
receiver. -/
structure RankedSeeing (st : Store) (c : ClassId) (args : List Ty) (site : CallSite)
    (as : List TypedArg) (k : Candidate) : Prop where
  candidate : k.method ∈ site.candidates
  sees : SeesReceiver st c args k.substitution
  phase : ∃ method, st.method? k.method = some method ∧
    k.phase = phaseOf st method k.substitution as

theorem exists_ranked_seeing (hstore : e.store.Owned)
    (hgiven : SeesReceiver e.store c args site.given)
    (hdeclared : ∀ id ∈ site.candidates, (e.store.method? id).isSome = true) {ranked : Ranked}
    (h : (e.rankSiteWith rank site).run s = .ok (ranked, t)) :
    ∃ res as, ranked = .ok res ∧ (∀ id ∈ site.candidates, ∃ k ∈ res.candidates, k.method = id) ∧
      ∀ k ∈ res.candidates, RankedSeeing e.store c args site as k := by
  unfold rankSiteWith at h
  obtain ⟨as, u, _, h⟩ := exists_of_run_bind h
  obtain ⟨r, v, hr, h⟩ := exists_of_run_bind h
  obtain ⟨ks, rfl, hks⟩ := ranked_of_rankCandidates hdeclared hr
  cases h
  refine ⟨_, as, rfl, fun id hid => ?_, fun k hk => ?_⟩
  · obtain ⟨k, hk, hranked⟩ := exists_mem_of_forall₂ hks hid
    exact ⟨k, mem_sortByTier.2 hk, hranked.method⟩
  · obtain ⟨id, hid, hranked⟩ := exists_mem_of_forall₂ hks.flip (mem_sortByTier.1 hk)
    have hranked : RankedBy e rank site as id k := hranked
    obtain rfl := hranked.method
    obtain ⟨method, hmethod⟩ := Option.isSome_iff_exists.1 (hdeclared _ hid)
    obtain ⟨u, v, hσ⟩ := hranked.substituted method hmethod
    have houtside := (candidateAnswers_of_run hσ).outside
    exact ⟨hid, hgiven.of_keepsOutside hstore hmethod houtside, method, hmethod,
      hranked.phase method hmethod⟩

theorem nesting_idle : ({} : Session).nesting = 84 + 1 := rfl

theorem exists_run_rankCall (hsite : e.calls.site? call = some site) :
    ∃ rank t, (e.rankSiteWith rank site).run {} = .ok ((e.rankCall call {}).1, t) := by
  have hrun := run_rankCall e call {}
  rw [nesting_idle, rankWithin, hsite] at hrun
  exact ⟨_, _, hrun⟩

theorem exists_run_callType (hsite : e.calls.site? call = some site) {ty : Ty}
    (h : (e.callType call {}).1 = some ty) :
    ∃ rank s t u v ranked, (e.rankSiteWith rank site).run s = .ok (ranked, t) ∧
      (e.typeOfRanked ranked).run u = .ok (some ty, v) := by
  have hrun := run_callType e call {}
  have heq : e.callType call {} = (some ty, (e.callType call {}).2) := by rw [← h]
  rw [heq] at hrun
  unfold callTypeWith at hrun
  obtain ⟨r, u, hr, hrun⟩ := exists_of_run_bind hrun
  cases r with
  | none => cases hrun
  | some ranked =>
    obtain ⟨s, t, hranked⟩ := exists_run_of_evaluating hr
    rw [nesting_idle, rankWithin, hsite] at hranked
    exact ⟨_, s, t, u, _, ranked, hranked, hrun⟩

end Engine

namespace Scenario

variable {d : Document} {sc : Scenario} {e : CallEntry} {call : CallId} {c : ClassId}
  {args : List Ty}

/-- A written call of a loaded scenario is loaded with declared candidates and with the bindings of
its receiver. -/
theorem exists_site_of_ofDocument (hload : ofDocument d = .ok sc) (he : d.calls[call]? = some e) :
    sc.store.Owned ∧ ∃ site, sc.calls.site? call = some site ∧
      (∀ id ∈ site.candidates, (sc.store.method? id).isSome = true) ∧
      ∃ r, receiverTy sc.store e = .ok r ∧
        site.given = (r.map (receiverBindings sc.store)).getD .empty := by
  obtain ⟨howned, _, _, methods, slots, sites, hdeclared, hreads, hloads⟩ :=
    exists_reads_of_ofDocument hload
  obtain ⟨site, hmem, hread⟩ := exists_mem_of_forall₂ hreads (List.mk_mem_zipIdx_iff_getElem?.2 he)
  exact ⟨howned, site, hloads.site?_of_mem hmem hread.id_eq, hread.declared hdeclared,
    hread.receiver⟩

theorem length_of_receiverTy {s : Store} (h : receiverTy s e = .ok (some (.cls c args)))
    (hargs : args ≠ []) : args.length = (s.classParams c).length := by
  obtain ⟨caller, input, ht⟩ := exists_read_of_receiverTy h
  exact TypeExpr.length_of_read (read_of_readType ht) hargs

/-- In a loaded scenario, a receiver of a class type with type arguments is seen by all candidates
of its call: each is ranked, and the type of the call computed, with the type parameters of the
receiver's class replaced by the arguments in their places, as many as there are. The type
parameters of any other class stay, also those of an ancestor that declares the candidate. -/
theorem receiver_seen_by_its_class (hload : ofDocument d = .ok sc) (he : d.calls[call]? = some e)
    (hreceiver : receiverTy sc.store e = .ok (some (.cls c args))) (hargs : args ≠ [])
    (options : Options) :
    sc.store.ancestorArgs ⟨c, args⟩ c = some args ∧
    args.length = (sc.store.classParams c).length ∧
    ∃ site, sc.calls.site? call = some site ∧
      (∃ res as, sc.rank options call = .ok res ∧
        (∀ id ∈ site.candidates, ∃ k ∈ res.candidates, k.method = id) ∧
        ∀ k ∈ res.candidates, Engine.RankedSeeing sc.store c args site as k) ∧
      ∀ t, sc.callType options call = some t → ∃ id ∈ site.candidates, ∃ method σ s,
        sc.store.method? id = some method ∧ SeesReceiver sc.store c args σ ∧
        t = (Session.capture s (Engine.instantiate sc.store σ method.returns)).1 := by
  have hlength := length_of_receiverTy hreceiver hargs
  obtain ⟨howned, site, hsite, hdeclared, r, hr, hgiven⟩ := exists_site_of_ofDocument hload he
  rw [hreceiver] at hr
  cases hr
  have hbindings : receiverBindings sc.store (.cls c args) =
      .ofArgs (sc.store.classParams c) args := by
    cases args with
    | nil => exact absurd rfl hargs
    | cons a rest => rfl
  have hsees : SeesReceiver sc.store c args site.given := by
    rw [hgiven, Option.map_some, Option.getD_some, hbindings]
    exact howned.seesReceiver hlength
  refine ⟨Store.ancestorArgs_self _ ⟨c, args⟩, hlength, site, hsite, ?_, fun t ht => ?_⟩
  · obtain ⟨rank, u, hrun⟩ := Engine.exists_run_rankCall (e := sc.engine options) hsite
    exact Engine.exists_ranked_seeing howned hsees hdeclared hrun
  · obtain ⟨rank, u, v, w, x, ranked, hrun, htype⟩ :=
      Engine.exists_run_callType (e := sc.engine options) hsite ht
    obtain ⟨res, as, rfl, _, hranked⟩ := Engine.exists_ranked_seeing howned hsees hdeclared hrun
    obtain ⟨k, hk, method, hmethod, heq⟩ := Engine.exists_candidate_of_typeOfRanked htype
    exact ⟨k.method, (hranked k hk).candidate, method, k.substitution, w, hmethod,
      (hranked k hk).sees, heq⟩

theorem receiverTy_of_read {s : Store} {input : String} {t : Ty} (hcaller : e.caller = none)
    (hreceiver : e.receiver = some input) (h : TypeExpr.read s .empty input = .ok t) :
    receiverTy s e = .ok (some t) := by
  have htype : readType s .empty input = .ok t := by
    unfold readType
    rw [h]
  unfold receiverTy
  rw [hcaller, hreceiver]
  show readType s .empty input >>= (fun t => pure (some t)) = _
  rw [htype]
  rfl

def callOnStrings (method : String) : CallEntry :=
  { id := method, candidates := [method], receiver := some "ArrayList<String>" }

/-- An interface `List<E>` that declares `get`, a class `ArrayList<X>` that extends `List<X>` and
declares `first`, and a call of each. -/
def listDocument : Document where
  classes := [
    { name := "List", kind := .interface, typeParams := [{ name := "E" }] },
    { name := "ArrayList", typeParams := [{ name := "X" }], supertypes := ["List<X>"] }]
  methods := [
    { name := "get", owner := some "List", returns := some "E" },
    { name := "first", owner := some "ArrayList", returns := some "X" }]
  calls := [callOnStrings "get", callOnStrings "first"]

def listScenario : Scenario := (ofDocument listDocument).toOption.getD default

theorem ofDocument_listDocument : ofDocument listDocument = .ok listScenario :=
  ofDocument_eq_of_isSome (by decide +kernel)

theorem receiverTy_callOnStrings (method : String) :
    receiverTy listScenario.store (callOnStrings method) = .ok (some (.cls 15 [.raw 4])) :=
  receiverTy_of_read rfl rfl (TypeExpr.eq_ok_of_same (by decide) (by decide +kernel))

theorem receiver_seen_by_first :
    ofDocument listDocument = .ok listScenario ∧
    listDocument.calls[1]? = some (callOnStrings "first") ∧
    receiverTy listScenario.store (callOnStrings "first") = .ok (some (.cls 15 [.raw 4])) ∧
    ∃ site res as, listScenario.calls.site? 1 = some site ∧ listScenario.rank {} 1 = .ok res ∧
      ∀ k ∈ res.candidates, Engine.RankedSeeing listScenario.store 15 [.raw 4] site as k := by
  have hcall : listDocument.calls[1]? = some (callOnStrings "first") := rfl
  have hreceiver := receiverTy_callOnStrings "first"
  obtain ⟨_, _, site, hsite, ⟨res, as, hrank, _, hseeing⟩, _⟩ :=
    receiver_seen_by_its_class ofDocument_listDocument hcall hreceiver (by simp) {}
  exact ⟨ofDocument_listDocument, hcall, hreceiver, site, res, as, hsite, hrank, hseeing⟩

/-- The type of a call of an inherited member mentions the type parameter of the class that declares
the member, though the receiver sees this class with a type argument. -/
theorem inherited_member_not_seen :
    ofDocument listDocument = .ok listScenario ∧
    receiverTy listScenario.store (callOnStrings "get") = .ok (some (.cls 15 [.raw 4])) ∧
    listScenario.store.ancestorArgs ⟨15, [.raw 4]⟩ 13 = some [.raw 4] ∧
    listScenario.store.classParams 13 = [14] ∧
    ((listScenario.store.method? 17).any fun m =>
      m.owner == some 13 && Ty.same (.param 14) m.returns) = true ∧
    listScenario.callType {} 0 = some (.param 14) ∧
    listScenario.callType {} 0 ≠ some (.raw 4) := by
  have htype : listScenario.callType {} 0 = some (.param 14) :=
    Ty.eq_some_of_same (by decide) (by decide +kernel)
  refine ⟨ofDocument_listDocument, receiverTy_callOnStrings "get",
    Ty.eq_some_of_sameAll (by decide) (by decide +kernel), by decide +kernel, by decide +kernel,
    htype, ?_⟩
  rw [htype]
  nofun

end Scenario

end GenericCalls
